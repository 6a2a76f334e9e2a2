import StardustFS.MetadataStore

/-! Names of conflict copies and the resolution of a conflict. The generated name is looked up among
the live rows only, so a tombstone at the name is not seen and the rename that follows is refused. -/

namespace StardustFS

/-- One reading of the clock: the time, and the text `%Y-%m-%d %H-%M-%S` of it in UTC. -/
structure Clock where
  now : Time
  timestamp : Text
  deriving DecidableEq, Repr

namespace ConflictResolver

/-- The base name of a path without its extension. A name that only starts with a dot has none. -/
def stem (virtualPath : Text) : Text :=
  let basename := Text.basename virtualPath
  let head := Text.uptoLast '.' basename
  if head.length ≤ 1 then basename else head.dropLast

/-- The extension of the base name with its dot, empty where there is none. -/
def extension (virtualPath : Text) : Text :=
  let basename := Text.basename virtualPath
  if (Text.uptoLast '.' basename).length ≤ 1 then [] else '.' :: Text.afterLast '.' basename

/-- The mark a conflict copy carries between the stem and the extension; the first candidate has no
sequence number. -/
def mark (deviceName timestamp : Text) (seq : Nat) : Text :=
  ' ' :: ("(conflict - ".toList ++ deviceName ++ " - ".toList ++ timestamp ++ [')'] ++
    (if seq ≤ 1 then [] else [' ', '('] ++ Text.decimal seq ++ [')']))

/-- The candidate path with the sequence number. -/
def candidate (deviceName timestamp virtualPath : Text) (seq : Nat) : Text :=
  let conflictName := stem virtualPath ++ mark deviceName timestamp seq ++ extension virtualPath
  if Text.dirname virtualPath = [] then conflictName
  else Text.joinPath (Text.dirname virtualPath) conflictName

/-- The first sequence number from `seq` on whose candidate no live row holds. -/
def searchSeq (s : MetadataStore) (deviceName timestamp virtualPath : Text) : Nat → Nat → Nat
  | 0, seq => seq
  | fuel + 1, seq =>
      if s.lookup (candidate deviceName timestamp virtualPath seq) = none then seq
      else searchSeq s deviceName timestamp virtualPath fuel (seq + 1)

/-- One more try than the table has rows, so the search ends at a free name
(`lookup_generateConflictName`). -/
def generateConflictName (s : MetadataStore) (deviceName timestamp virtualPath : Text) : Text :=
  candidate deviceName timestamp virtualPath
    (searchSeq s deviceName timestamp virtualPath (s.files.rows.length + 1) 1)

/-- The local row moves to its conflict copy and is marked. A refused rename leaves the row where it
was, pending, and the exception goes to the caller: `none`. -/
def resolveConflict (s : MetadataStore) (deviceName timestamp virtualPath : Text) :
    MetadataStore × Option Text :=
  let conflictPath := generateConflictName s deviceName timestamp virtualPath
  match s.renamePath virtualPath conflictPath with
  | some s => (s.setSyncStatus conflictPath .conflict, some conflictPath)
  | none => (s.setSyncStatus virtualPath .pending, none)

/-! ### The generated name is not held by a live row -/

theorem mark_injective (deviceName timestamp : Text) {m n : Nat} (hm : 1 ≤ m) (hn : 1 ≤ n)
    (h : mark deviceName timestamp m = mark deviceName timestamp n) : m = n := by
  have h' := List.append_cancel_left (List.cons.inj h).2
  split_ifs at h' with h1 h2 h2
  · omega
  · simp at h'
  · simp at h'
  · exact Text.decimal_injective (List.append_cancel_left (List.append_cancel_right h'))

theorem candidate_name_head (deviceName timestamp virtualPath : Text) (seq : Nat) :
    (stem virtualPath ++ mark deviceName timestamp seq ++ extension virtualPath).head? ≠
      some '/' := by
  have hslash : '/' ∉ Text.basename virtualPath := Text.not_mem_afterLast '/' virtualPath
  have hstem : '/' ∉ stem virtualPath := by
    unfold stem
    dsimp only
    split_ifs
    · exact hslash
    · intro h
      have hmem := List.mem_of_mem_dropLast h
      have happ := Text.uptoLast_append_afterLast '.' (Text.basename virtualPath)
      exact hslash (happ ▸ List.mem_append_left _ hmem)
  cases hs : stem virtualPath with
  | nil =>
      rw [List.nil_append, mark, List.cons_append, List.head?_cons, ne_eq, Option.some_inj]
      decide
  | cons c rest =>
      rw [hs] at hstem
      rw [List.cons_append, List.cons_append, List.head?_cons, ne_eq, Option.some_inj]
      rintro rfl
      exact hstem List.mem_cons_self

/-- Different sequence numbers give different candidates. -/
theorem candidate_injective (deviceName timestamp virtualPath : Text) {m n : Nat} (hm : 1 ≤ m)
    (hn : 1 ≤ n)
    (h : candidate deviceName timestamp virtualPath m =
      candidate deviceName timestamp virtualPath n) : m = n := by
  have hname : stem virtualPath ++ mark deviceName timestamp m ++ extension virtualPath =
      stem virtualPath ++ mark deviceName timestamp n ++ extension virtualPath := by
    unfold candidate at h
    dsimp only at h
    split_ifs at h
    · exact h
    · exact Text.joinPath_injective (candidate_name_head deviceName timestamp virtualPath m)
        (candidate_name_head deviceName timestamp virtualPath n) h
  exact mark_injective deviceName timestamp hm hn
    (List.append_cancel_left (List.append_cancel_right hname))

theorem le_searchSeq (s : MetadataStore) (deviceName timestamp virtualPath : Text)
    (fuel seq : Nat) : seq ≤ searchSeq s deviceName timestamp virtualPath fuel seq := by
  induction fuel generalizing seq with
  | zero => exact Nat.le_refl seq
  | succ fuel ih =>
      rw [searchSeq]
      split_ifs
      · exact Nat.le_refl seq
      · exact (Nat.le_succ seq).trans (ih (seq + 1))

/-- The search either ends at a free name or has seen as many taken names as it had tries. -/
theorem searchSeq_free_or_taken (s : MetadataStore) (deviceName timestamp virtualPath : Text)
    (fuel seq : Nat) :
    s.lookup (candidate deviceName timestamp virtualPath
        (searchSeq s deviceName timestamp virtualPath fuel seq)) = none ∨
      ∀ n, seq ≤ n → n < seq + fuel →
        s.lookup (candidate deviceName timestamp virtualPath n) ≠ none := by
  induction fuel generalizing seq with
  | zero => exact Or.inr fun n h1 h2 => absurd h2 (by omega)
  | succ fuel ih =>
      rw [searchSeq]
      split_ifs with h
      · exact Or.inl h
      · rcases ih (seq + 1) with hfree | htaken
        · exact Or.inl hfree
        · refine Or.inr fun n h1 h2 => ?_
          rcases Nat.eq_or_lt_of_le h1 with rfl | hlt
          · exact h
          · exact htaken n hlt (by omega)

/-- More tries than the table has rows find a free name: the candidates are pairwise different. -/
theorem lookup_searchSeq (s : MetadataStore) (deviceName timestamp virtualPath : Text) {fuel : Nat}
    (hfuel : s.files.rows.length < fuel) :
    s.lookup (candidate deviceName timestamp virtualPath
      (searchSeq s deviceName timestamp virtualPath fuel 1)) = none := by
  rcases searchSeq_free_or_taken s deviceName timestamp virtualPath fuel 1 with h | h
  · exact h
  · exfalso
    have hinjective : Function.Injective fun i => candidate deviceName timestamp virtualPath (i + 1) :=
      fun i j hij => by
        have := candidate_injective deviceName timestamp virtualPath (by omega) (by omega) hij
        omega
    obtain ⟨i, hi, hfree⟩ := s.files.exists_get_eq_none hinjective
    refine h (i + 1) (by omega) (by omega) (Option.eq_none_iff_forall_ne_some.mpr fun r hr => ?_)
    have htaken := (MetadataStore.lookup_eq_some_iff.mp hr).1
    exact Option.some_ne_none r (htaken.symm.trans hfree)

/-- **The search terminates at a free name.** -/
theorem lookup_generateConflictName (s : MetadataStore) (deviceName timestamp virtualPath : Text) :
    s.lookup (generateConflictName s deviceName timestamp virtualPath) = none :=
  lookup_searchSeq s deviceName timestamp virtualPath (Nat.lt_succ_self _)

theorem exists_seq_generateConflictName (s : MetadataStore)
    (deviceName timestamp virtualPath : Text) :
    ∃ seq, 1 ≤ seq ∧ generateConflictName s deviceName timestamp virtualPath =
      candidate deviceName timestamp virtualPath seq :=
  ⟨_, le_searchSeq .., rfl⟩

/-- The candidates before the one the search ends at are held by live rows. -/
theorem lookup_of_lt_searchSeq (s : MetadataStore) (deviceName timestamp virtualPath : Text)
    (fuel seq : Nat) {n : Nat} (hseq : seq ≤ n)
    (hn : n < searchSeq s deviceName timestamp virtualPath fuel seq) :
    s.lookup (candidate deviceName timestamp virtualPath n) ≠ none := by
  induction fuel generalizing seq with
  | zero =>
      rw [searchSeq] at hn
      omega
  | succ fuel ih =>
      rw [searchSeq] at hn
      split_ifs at hn with h
      · omega
      · rcases Nat.eq_or_lt_of_le hseq with rfl | hlt
        · exact h
        · exact ih (seq + 1) hlt hn

/-- Two tables give the same name where neither holds the other's name by a live row. -/
theorem generateConflictName_congr {s s' : MetadataStore} {deviceName timestamp virtualPath : Text}
    (h : s'.lookup (generateConflictName s deviceName timestamp virtualPath) = none)
    (h' : s.lookup (generateConflictName s' deviceName timestamp virtualPath) = none) :
    generateConflictName s' deviceName timestamp virtualPath =
      generateConflictName s deviceName timestamp virtualPath := by
  have hone := le_searchSeq s deviceName timestamp virtualPath (s.files.rows.length + 1) 1
  have hone' := le_searchSeq s' deviceName timestamp virtualPath (s'.files.rows.length + 1) 1
  unfold generateConflictName at h h' ⊢
  rcases Nat.lt_trichotomy
    (searchSeq s' deviceName timestamp virtualPath (s'.files.rows.length + 1) 1)
    (searchSeq s deviceName timestamp virtualPath (s.files.rows.length + 1) 1) with hlt | heq | hlt
  · exact absurd h' (lookup_of_lt_searchSeq s deviceName timestamp virtualPath _ 1 hone' hlt)
  · rw [heq]
  · exact absurd h (lookup_of_lt_searchSeq s' deviceName timestamp virtualPath _ 1 hone hlt)

/-! ### The generated name is not the path itself -/

theorem stem_append_extension (virtualPath : Text) :
    stem virtualPath ++ extension virtualPath = Text.basename virtualPath := by
  unfold stem extension
  dsimp only
  split_ifs with h
  · exact List.append_nil _
  · have happ := Text.uptoLast_append_afterLast '.' (Text.basename virtualPath)
    have hne : Text.uptoLast '.' (Text.basename virtualPath) ≠ [] := by
      intro h0
      rw [h0] at h
      exact h (Nat.zero_le 1)
    have hlast : (Text.uptoLast '.' (Text.basename virtualPath)).getLast hne = '.' := by
      have := List.rdropWhile_last_not (· != '.') (Text.basename virtualPath) hne
      simpa [Text.uptoLast] using this
    have hhead := List.dropLast_append_getLast hne
    rw [hlast] at hhead
    calc (Text.uptoLast '.' (Text.basename virtualPath)).dropLast ++
          '.' :: Text.afterLast '.' (Text.basename virtualPath)
        = ((Text.uptoLast '.' (Text.basename virtualPath)).dropLast ++ ['.']) ++
            Text.afterLast '.' (Text.basename virtualPath) := by
          rw [List.append_assoc, List.singleton_append]
      _ = _ := by rw [hhead, happ]

theorem conflictName_ne_basename (deviceName timestamp virtualPath : Text) (seq : Nat) :
    stem virtualPath ++ mark deviceName timestamp seq ++ extension virtualPath ≠
      Text.basename virtualPath := by
  intro h
  have hlen := congrArg List.length h
  rw [← stem_append_extension virtualPath] at hlen
  simp only [mark, List.length_append, List.length_cons] at hlen
  omega

/-- A conflict copy never has the path of the row it is made for. -/
theorem candidate_ne_self (deviceName timestamp virtualPath : Text) (seq : Nat) :
    candidate deviceName timestamp virtualPath seq ≠ virtualPath := by
  have hhead := candidate_name_head deviceName timestamp virtualPath seq
  have hbase := conflictName_ne_basename deviceName timestamp virtualPath seq
  have hsplit := Text.uptoLast_append_afterLast '/' virtualPath
  intro h
  unfold candidate at h
  dsimp only at h
  rw [Text.joinPath, if_neg hhead] at h
  rcases Text.dirname_cases virtualPath with ⟨hdir, hend⟩ | ⟨hnil, hend, k, hk⟩
  · have happ : Text.dirname virtualPath ++ (stem virtualPath ++
        mark deviceName timestamp seq ++ extension virtualPath) = virtualPath := by
      split_ifs at h with h1
      · rw [h1, List.nil_append, h]
      · exact h
    rw [hdir] at happ
    exact hbase (List.append_cancel_left (happ.trans hsplit.symm))
  · rw [if_neg hnil, if_neg (not_or.mpr ⟨hnil, hend⟩)] at h
    have hname := List.append_cancel_left (h.trans (hsplit.symm.trans (by rw [hk,
      List.append_assoc])))
    rw [List.cons_append] at hname
    have htail := (List.cons.inj hname).2
    cases k with
    | zero => exact hbase htail
    | succ k => exact hhead (by rw [htail]; rfl)

theorem generateConflictName_ne_self (s : MetadataStore) (deviceName timestamp virtualPath : Text) :
    generateConflictName s deviceName timestamp virtualPath ≠ virtualPath :=
  candidate_ne_self deviceName timestamp virtualPath _

/-! ### What a resolution leaves -/

/-- With no row at the generated name, tombstones counted, the local row moves there. -/
theorem resolveConflict_of_free {s : MetadataStore} (deviceName timestamp : Text) {p : Text}
    {r : FileRow} (hr : s.lookupAny p = some r)
    (hfree : s.lookupAny (generateConflictName s deviceName timestamp p) = none) :
    ∃ s', resolveConflict s deviceName timestamp p =
        (s', some (generateConflictName s deviceName timestamp p)) ∧
      ∀ q, s'.lookupAny q =
        if q = generateConflictName s deviceName timestamp p then
          some { r with syncStatus := .conflict }
        else if q = p then none else s.lookupAny q := by
  have hne : p ≠ generateConflictName s deviceName timestamp p :=
    (generateConflictName_ne_self s deviceName timestamp p).symm
  obtain ⟨s', hs'⟩ := MetadataStore.renamePath_of_free p hfree
  have hget := MetadataStore.lookupAny_renamePath hr hne hs'
  refine ⟨_, by simp only [resolveConflict, hs']; rfl, fun q => ?_⟩
  rw [MetadataStore.lookupAny_setSyncStatus, hget]
  split_ifs <;> rfl

/-- With a tombstone at the generated name, the local row stays where it is. -/
theorem resolveConflict_of_taken {s : MetadataStore} (deviceName timestamp : Text) {p : Text}
    {r : FileRow} (hr : s.lookupAny p = some r)
    (htaken : s.lookupAny (generateConflictName s deviceName timestamp p) ≠ none) :
    resolveConflict s deviceName timestamp p = (s.setSyncStatus p .pending, none) := by
  have hne : p ≠ generateConflictName s deviceName timestamp p :=
    (generateConflictName_ne_self s deviceName timestamp p).symm
  have hnone := MetadataStore.renamePath_eq_none_iff.mpr
    ⟨⟨r, hr⟩, Option.ne_none_iff_exists'.mp htaken, hne⟩
  simp only [resolveConflict, hnone]

end ConflictResolver

end StardustFS
