import Mathlib.Logic.Relation
import StardustFS.DirectoryRemoval
import StardustFS.ListingExactness

/-! Whether the recursion of a directory's deletion ends. It goes from one path to the next by the names
that a listing cuts out of the rows. A row that goes on with a second slash gives the empty name, and
with that the recursion comes back to the directory it is in. -/

namespace StardustFS

open Text (rstrip)

theorem rstrip_append_name (x : Text) {n : Text} (hn : n ≠ []) (hslash : '/' ∉ n) :
    rstrip '/' (rstrip '/' x ++ '/' :: n) = rstrip '/' x ++ '/' :: n := by
  refine Text.rstrip_of_not_endsWith ?_
  rw [Text.endsWith, beq_eq_false_iff_ne, List.getLast?_append, List.getLast?_cons,
    List.getLast?_eq_some_getLast hn]
  intro hlast
  exact hslash (Option.some_inj.mp hlast ▸ List.getLast_mem hn)

theorem rstrip_append_slash (x : Text) : rstrip '/' (rstrip '/' x ++ ['/']) = rstrip '/' x := by
  have hends : Text.endsWith (rstrip '/' x) '/' = false := by
    rw [Text.endsWith, beq_eq_false_iff_ne]
    exact Text.getLast?_rstrip_ne '/' x
  exact MetadataStore.rstrip_replicate hends 1

namespace MetadataStore

open LikePattern (likePrefix)

/-- The most slashes that a path of the two tables has. -/
def mostSlashes (s : MetadataStore) : Nat :=
  ((s.files.keys ++ s.directories.keys).map (List.count '/')).foldr max 0

/-- The path has at most one slash at its end. -/
def OneSlash (x : Text) : Prop := withSlash x = rstrip '/' x ++ ['/']

/-- Of the rows that match the pattern of the directory, the path of a live file goes on with a slash,
or that of a registered directory with slashes and nothing else. -/
def GoesOnWithSlash (s : MetadataStore) (x : Text) : Prop :=
  (∃ p r, s.Live p ∧ likePrefix (withSlash x) p = true ∧ cut x p = '/' :: r) ∨
    ∃ p k, s.Registered p ∧ likePrefix (withSlash x) p = true ∧
      cut x p = List.replicate (k + 1) '/'

section Rows

variable {s : MetadataStore} {x n : Text}

theorem le_foldr_max {l : List Nat} {a : Nat} (h : a ∈ l) : a ≤ l.foldr max 0 := by
  induction l with
  | nil => cases h
  | cons b l ih =>
      rw [List.foldr_cons]
      rcases List.mem_cons.mp h with rfl | h
      · exact Nat.le_max_left _ _
      · exact (ih h).trans (Nat.le_max_right _ _)

theorem count_le_mostSlashes {p : Text} (h : s.Live p ∨ s.Registered p) :
    p.count '/' ≤ s.mostSlashes := by
  refine le_foldr_max (List.mem_map_of_mem (List.mem_append.mpr ?_))
  rcases h with ⟨row, hrow⟩ | ⟨t, ht⟩
  · exact Or.inl (Table.mem_keys_iff.mpr ⟨row, (lookup_eq_some_iff.mp hrow).1⟩)
  · exact Or.inr (Table.mem_keys_iff.mpr ⟨t, ht⟩)

/-- The listing has the empty name where a row goes on with a slash. -/
theorem goesOnWithSlash_iff : s.GoesOnWithSlash x ↔ s.Cut x [] := by
  constructor
  · rintro (⟨p, r, hp, hlike, hcut⟩ | ⟨p, k, hp, hlike, hcut⟩)
    · exact Or.inl ⟨p, hp, hlike, by rw [hcut]; simp, by rw [hcut]; rfl⟩
    · have hstrip : rstrip '/' ([] ++ List.replicate (k + 1) '/') = [] := rstrip_replicate rfl (k + 1)
      exact Or.inr ⟨p, hp, hlike, by rw [hcut]; simp, by rw [hcut]; exact hstrip, by simp⟩
  · rintro (⟨p, hp, hlike, hne, hfirst⟩ | ⟨p, hp, hlike, hne, hstrip, -⟩)
    · obtain ⟨r, hr⟩ := cons_of_firstName_eq_nil hne hfirst
      exact Or.inl ⟨p, r, hp, hlike, hr⟩
    · obtain ⟨k, hk⟩ := registered_below_cases hstrip
      rw [List.nil_append] at hk
      cases k with
      | zero => exact absurd hk hne
      | succ k => exact Or.inr ⟨p, k, hp, hlike, hk⟩

theorem goesOnWithSlash_congr {y : Text} (h : withSlash x = withSlash y) :
    s.GoesOnWithSlash x ↔ s.GoesOnWithSlash y := by
  unfold GoesOnWithSlash cut
  rw [h]

theorem Cut.not_mem (h : s.Cut x n) : '/' ∉ n := by
  rcases h with ⟨p, -, -, -, rfl⟩ | ⟨p, -, -, -, -, hslash⟩
  · exact not_mem_firstName _
  · exact hslash

/-- A name of the listing is how what is left of some row starts. -/
theorem Cut.row (h : s.Cut x n) : ∃ p, (s.Live p ∨ s.Registered p) ∧
    likePrefix (withSlash x) p = true ∧ n <+: cut x p := by
  rcases h with ⟨p, hp, hlike, -, rfl⟩ | ⟨p, hp, hlike, -, hstrip, -⟩
  · exact ⟨p, Or.inl hp, hlike, List.takeWhile_prefix _⟩
  · obtain ⟨k, hk⟩ := registered_below_cases hstrip
    exact ⟨p, Or.inr hp, hlike, ⟨_, hk.symm⟩⟩

theorem cut_of_mem_listEntries {e : EntryInfo} (he : e ∈ s.listEntries x) :
    s.Cut x e.name ∧ (e.isDirectory = false → IsName e.name) := by
  obtain ⟨results, hlist, hshows⟩ := s.shows_cut x
  rw [hlist] at he
  obtain ⟨⟨n, e'⟩, hrow, rfl⟩ := List.mem_map.mp he
  have hget := Table.get_of_mem_rows hrow
  obtain ⟨hname, hfile⟩ := hshows.entry n e' hget
  dsimp only
  rw [hname]
  refine ⟨(hshows.key_iff n).mp ⟨e', hget⟩, fun hdir => ?_⟩
  obtain ⟨p, -, -, -, hn⟩ := hfile.mp hdir
  exact hn

theorem exists_entry_of_cut (h : s.Cut x n) : ∃ e ∈ s.listEntries x, e.name = n := by
  obtain ⟨results, hlist, hshows⟩ := s.shows_cut x
  obtain ⟨e, hget⟩ := (hshows.key_iff n).mpr h
  rw [hlist]
  exact ⟨e, List.mem_map.mpr ⟨(n, e), Table.mem_rows_of_get hget, rfl⟩, (hshows.entry n e hget).1⟩

end Rows

/-! ### What a deletion takes from the records -/

/-- The deletion of a file that may be gone already. -/
def deleteLive (s : MetadataStore) (p : Text) (now : Time) : MetadataStore :=
  match s.lookup p with
  | none => s
  | some _ => s.delete p now

/-- The paths a recursion below `x` deletes files at. -/
def Deletes (x p : Text) : Prop := ∃ c r, c ≠ '/' ∧ p = rstrip '/' x ++ '/' :: c :: r

/-- No row is new; the files that are gone are below the directory, and no directory whose path ends in
a slash is gone. -/
structure Trimmed (x : Text) (s s' : MetadataStore) : Prop where
  live : ∀ p, s'.Live p → s.Live p
  registered : ∀ p, s'.Registered p → s.Registered p
  live_kept : ∀ p, s.Live p → ¬ Deletes x p → s'.Live p
  registered_kept : ∀ p, s.Registered p → Text.endsWith p '/' = true → s'.Registered p

namespace Trimmed

variable {x n : Text} {s s' s'' : MetadataStore}

theorem refl (x : Text) (s : MetadataStore) : Trimmed x s s :=
  ⟨fun _ h => h, fun _ h => h, fun _ h _ => h, fun _ h _ => h⟩

theorem trans (h : Trimmed x s s') (h' : Trimmed x s' s'') : Trimmed x s s'' :=
  ⟨fun p hp => h.live p (h'.live p hp), fun p hp => h.registered p (h'.registered p hp),
    fun p hp hnot => h'.live_kept p (h.live_kept p hp hnot) hnot,
    fun p hp hend => h'.registered_kept p (h.registered_kept p hp hend) hend⟩

/-- What is deleted below a child is deleted below the directory. -/
theorem of_child (hslash : '/' ∉ n) (h : Trimmed (rstrip '/' x ++ '/' :: n) s s') :
    Trimmed x s s' := by
  refine ⟨h.live, h.registered, fun p hp hnot => h.live_kept p hp ?_, h.registered_kept⟩
  rintro ⟨c, r, hc, rfl⟩
  apply hnot
  cases n with
  | nil =>
      rw [rstrip_append_slash]
      exact ⟨c, r, hc, rfl⟩
  | cons d n =>
      rw [rstrip_append_name x (List.cons_ne_nil d n) hslash]
      refine ⟨d, n ++ '/' :: c :: r, fun hd => hslash (hd ▸ List.mem_cons_self), ?_⟩
      rw [List.append_assoc]
      rfl

theorem deleteLive (s : MetadataStore) (now : Time) (hn : IsName n) :
    Trimmed x s (s.deleteLive (rstrip '/' x ++ '/' :: n) now) := by
  unfold MetadataStore.deleteLive
  cases hrow : s.lookup (rstrip '/' x ++ '/' :: n) with
  | none => exact refl x s
  | some row =>
      refine ⟨fun p ⟨row', hp⟩ => ⟨row', (JbodManager.lookup_delete hp).2⟩, fun _ h => h,
        fun p ⟨row', hp⟩ hnot => ⟨row', ?_⟩, fun _ h _ => h⟩
      rw [JbodManager.lookup_delete_of_ne]
      · exact hp
      · rintro rfl
        cases n with
        | nil => exact hn.1 rfl
        | cons c n => exact hnot ⟨c, n, fun hc => hn.2 (hc ▸ List.mem_cons_self), rfl⟩

theorem deleteDirectoryEntry (x : Text) (s : MetadataStore) :
    Trimmed x s (s.deleteDirectoryEntry (rstrip '/' x)) := by
  refine ⟨fun _ h => h, fun p ⟨t, ht⟩ => ⟨t, ?_⟩, fun _ h _ => h, fun p ⟨t, ht⟩ hend => ⟨t, ?_⟩⟩
  · rw [MetadataStore.deleteDirectoryEntry, Table.get_deleteWhere] at ht
    exact (Option.filter_eq_some_iff.mp ht).1
  · rw [MetadataStore.deleteDirectoryEntry, Table.get_deleteWhere, ht]
    have hne : p ≠ rstrip '/' x := by
      rintro rfl
      exact Text.getLast?_rstrip_ne '/' x (beq_iff_eq.mp hend)
    simp [hne]

/-- A row that goes on with a slash is not deleted from below the directory. -/
theorem goesOnWithSlash (h : Trimmed x s s') (hx : OneSlash x) (hgo : s.GoesOnWithSlash x) :
    s'.GoesOnWithSlash x := by
  rcases hgo with ⟨p, r, hp, hlike, hcut⟩ | ⟨p, k, hp, hlike, hcut⟩
  · refine Or.inl ⟨p, r, h.live_kept p hp ?_, hlike, hcut⟩
    rintro ⟨c, r', hc, rfl⟩
    have heq : cut x (rstrip '/' x ++ '/' :: c :: r') = c :: r' := by
      rw [cut, hx, show rstrip '/' x ++ '/' :: c :: r' = (rstrip '/' x ++ ['/']) ++ c :: r' by simp,
        List.drop_left]
    rw [heq] at hcut
    exact hc (List.cons.inj hcut).1
  · refine Or.inr ⟨p, k, h.registered_kept p hp ?_, hlike, hcut⟩
    have hp' : p = p.take (withSlash x).length ++ List.replicate (k + 1) '/' := by
      rw [← hcut, cut, List.take_append_drop]
    rw [Text.endsWith, hp', List.getLast?_append, List.replicate_succ', List.getLast?_concat]
    rfl

end Trimmed

end MetadataStore

namespace JbodManager

open MetadataStore (Trimmed OneSlash)

section Turns

variable {now : Time} {depth : Nat} {z : Text} {j j' k : JbodManager} {e : EntryInfo}

/-- No source is mounted. -/
def Bare (j : JbodManager) : Prop := ∀ sourceId, j.sources.get sourceId = none

theorem deleteFile_ne_recursionLimit (j : JbodManager) (now : Time) (p : Text) :
    (j.deleteFile now p).1 ≠ .error .recursionLimit := by
  unfold deleteFile
  split
  · exact fun h => nomatch h
  · dsimp only
    split_ifs
    · exact fun h => nomatch h
    · split
      · exact fun h => nomatch h
      · split_ifs
        · exact fun h => nomatch h
        · split <;> exact fun h => nomatch h

/-! ### One turn of the loop -/

theorem deleteEntry_directory_eq (hdir : e.isDirectory = true) :
    deleteEntry now depth z (.ok (), j) e =
      deleteDirectory now depth j (rstrip '/' z ++ '/' :: e.name) := if_pos hdir

theorem deleteEntry_file_eq (hdir : e.isDirectory = false) :
    deleteEntry now depth z (.ok (), j) e =
      match j.deleteFile now (rstrip '/' z ++ '/' :: e.name) with
      | (.error .fileNotFound, j) => (.ok (), j)
      | result => result := if_neg (by simp [hdir])

/-- The turn of a file, where it goes on. -/
theorem deleteEntry_file_ok (hdir : e.isDirectory = false)
    (h : deleteEntry now depth z (.ok (), j) e = (.ok (), j')) :
    j'.metadataStore = j.metadataStore.deleteLive (rstrip '/' z ++ '/' :: e.name) now := by
  rw [deleteEntry_file_eq hdir] at h
  unfold MetadataStore.deleteLive
  cases hrow : j.metadataStore.lookup (rstrip '/' z ++ '/' :: e.name) with
  | none =>
      rw [deleteFile, hrow] at h
      rw [← (Prod.mk.inj h).2]
  | some row =>
      split at h
      · rename_i hdelete
        exfalso
        unfold deleteFile at hdelete
        rw [hrow] at hdelete
        dsimp only at hdelete
        split_ifs at hdelete
        · cases (Prod.mk.inj hdelete).1
        · split at hdelete
          · cases (Prod.mk.inj hdelete).1
          · split_ifs at hdelete
            · cases (Prod.mk.inj hdelete).1
            · split at hdelete <;> cases (Prod.mk.inj hdelete).1
      · obtain ⟨-, -, hstore, -⟩ := deleteFile_ok h
        exact hstore

/-- Without a source nothing stands in the way. -/
theorem deleteEntry_file_of_bare (hk : k.Bare) (hdir : e.isDirectory = false) :
    deleteEntry now depth z (.ok (), k) e = (.ok (), { k with
      metadataStore := k.metadataStore.deleteLive (rstrip '/' z ++ '/' :: e.name) now }) := by
  rw [deleteEntry_file_eq hdir]
  unfold MetadataStore.deleteLive deleteFile
  cases hrow : k.metadataStore.lookup (rstrip '/' z ++ '/' :: e.name) with
  | none => rfl
  | some row =>
      dsimp only
      rw [hk]
      split_ifs <;> rfl

theorem deleteEntry_file_ne_recursionLimit (hdir : e.isDirectory = false) :
    (deleteEntry now depth z (.ok (), j) e).1 ≠ .error .recursionLimit := by
  rw [deleteEntry_file_eq hdir]
  have hne := j.deleteFile_ne_recursionLimit now (rstrip '/' z ++ '/' :: e.name)
  split
  · exact fun h => nomatch h
  · exact hne

/-! ### The loop -/

@[simp] theorem deleteEntry_error (err : JbodError) (j : JbodManager) (e : EntryInfo) :
    deleteEntry now depth z (.error err, j) e = (.error err, j) := rfl

/-- An exception ends the loop. -/
theorem foldl_deleteEntry_error (entries : List EntryInfo) (err : JbodError) (j : JbodManager) :
    entries.foldl (deleteEntry now depth z) (.error err, j) = (.error err, j) := by
  induction entries with
  | nil => rfl
  | cons e entries ih => rw [List.foldl_cons, deleteEntry_error, ih]

theorem fst_foldl_of_error {entries : List EntryInfo} {acc : Result Unit} {err : JbodError}
    (h : acc.1 = .error err) :
    (entries.foldl (deleteEntry now depth z) acc).1 = .error err := by
  obtain ⟨result, m⟩ := acc
  rw [show result = .error err from h, foldl_deleteEntry_error]

/-- What every turn that goes on preserves, a loop that gets to its end preserves. -/
theorem foldl_deleteEntry_rule {Q : JbodManager → Prop} {entries : List EntryInfo}
    (hturn : ∀ e ∈ entries, ∀ a b, Q a → deleteEntry now depth z (.ok (), a) e = (.ok (), b) → Q b)
    (hj : Q j) (h : entries.foldl (deleteEntry now depth z) (.ok (), j) = (.ok (), j')) : Q j' := by
  induction entries generalizing j with
  | nil => exact (Prod.mk.inj h).2 ▸ hj
  | cons e entries ih =>
      rw [List.foldl_cons] at h
      obtain ⟨result, b, hb⟩ : ∃ result b, deleteEntry now depth z (.ok (), j) e = (result, b) :=
        ⟨_, _, rfl⟩
      rw [hb] at h
      cases result with
      | error err =>
          rw [foldl_deleteEntry_error] at h
          cases (Prod.mk.inj h).1
      | ok _ =>
          exact ih (fun e' he' => hturn e' (List.mem_cons_of_mem e he'))
            (hturn e List.mem_cons_self j b hj hb) h

theorem deleteDirectory_succ (now : Time) (depth : Nat) (j : JbodManager) (z : Text) :
    deleteDirectory now (depth + 1) j z =
      match (j.metadataStore.listEntries z).foldl (deleteEntry now depth z) (.ok (), j) with
      | (.error e, j) => (.error e, j)
      | (.ok _, j) => (.ok (),
          { j.onEverySource fun s => (s.rmdir (Text.lstrip '/' z)).2 with
            metadataStore := j.metadataStore.deleteDirectoryEntry (rstrip '/' z) }) := rfl

theorem deleteDirectory_of_error {err : JbodError}
    (h : ((j.metadataStore.listEntries z).foldl (deleteEntry now depth z) (.ok (), j)).1 =
      .error err) : (deleteDirectory now (depth + 1) j z).1 = .error err := by
  rw [deleteDirectory_succ]
  obtain ⟨result, m, hm⟩ : ∃ result m, (j.metadataStore.listEntries z).foldl
      (deleteEntry now depth z) (.ok (), j) = (result, m) := ⟨_, _, rfl⟩
  rw [hm] at h ⊢
  rw [show result = .error err from h]

/-- A deletion that returns has been through its entries. -/
theorem deleteDirectory_ok (h : deleteDirectory now depth j z = (.ok (), j')) :
    ∃ d m, depth = d + 1 ∧
      (j.metadataStore.listEntries z).foldl (deleteEntry now d z) (.ok (), j) = (.ok (), m) ∧
      j' = { m.onEverySource fun s => (s.rmdir (Text.lstrip '/' z)).2 with
        metadataStore := m.metadataStore.deleteDirectoryEntry (rstrip '/' z) } := by
  cases depth with
  | zero => cases (Prod.mk.inj h).1
  | succ d =>
      rw [deleteDirectory_succ] at h
      obtain ⟨result, m, hm⟩ : ∃ result m, (j.metadataStore.listEntries z).foldl
          (deleteEntry now d z) (.ok (), j) = (result, m) := ⟨_, _, rfl⟩
      rw [hm] at h
      cases result with
      | error e => cases (Prod.mk.inj h).1
      | ok _ => exact ⟨d, m, rfl, hm, (Prod.mk.inj h).2.symm⟩

/-- What the turns of some entries of a directory take from the records. -/
theorem foldl_deleteEntry_trimmed {entries rest : List EntryInfo}
    (hbelow : ∀ a b x, deleteDirectory now depth a x = (.ok (), b) →
      Trimmed x a.metadataStore b.metadataStore)
    (hentries : j.metadataStore.listEntries z = entries ++ rest)
    (h : entries.foldl (deleteEntry now depth z) (.ok (), j) = (.ok (), j')) :
    Trimmed z j.metadataStore j'.metadataStore := by
  refine foldl_deleteEntry_rule (Q := fun m => Trimmed z j.metadataStore m.metadataStore)
    (fun e he a b ha hb => ha.trans ?_) (Trimmed.refl z _) h
  have hmem : e ∈ j.metadataStore.listEntries z := hentries ▸ List.mem_append_left rest he
  obtain ⟨hcut, hname⟩ := MetadataStore.cut_of_mem_listEntries hmem
  cases hdir : e.isDirectory with
  | true =>
      rw [deleteEntry_directory_eq hdir] at hb
      exact (hbelow a b _ hb).of_child hcut.not_mem
  | false =>
      rw [deleteEntry_file_ok hdir hb]
      exact Trimmed.deleteLive _ now (hname hdir)

/-- **What a deletion takes from the records.** -/
theorem deleteDirectory_trimmed (h : deleteDirectory now depth j z = (.ok (), j')) :
    Trimmed z j.metadataStore j'.metadataStore := by
  induction depth generalizing j j' z with
  | zero => cases (Prod.mk.inj h).1
  | succ depth ih =>
      obtain ⟨d, m, hd, hm, rfl⟩ := deleteDirectory_ok h
      obtain rfl := Nat.succ.inj hd
      have hentries : Trimmed z j.metadataStore m.metadataStore :=
        foldl_deleteEntry_trimmed (fun a b x => ih) (List.append_nil _).symm hm
      exact hentries.trans (Trimmed.deleteDirectoryEntry z m.metadataStore)

/-! ### More of the stack -/

/-- A loop that does not run out of stack comes to the same with more of it. -/
theorem foldl_deleteEntry_succ {depth' : Nat} {entries : List EntryInfo}
    (hbelow : ∀ a x, (deleteDirectory now depth a x).1 ≠ .error .recursionLimit →
      deleteDirectory now depth' a x = deleteDirectory now depth a x)
    (h : (entries.foldl (deleteEntry now depth z) (.ok (), j)).1 ≠ .error .recursionLimit) :
    entries.foldl (deleteEntry now depth' z) (.ok (), j) =
      entries.foldl (deleteEntry now depth z) (.ok (), j) := by
  induction entries generalizing j with
  | nil => rfl
  | cons e entries ih =>
      rw [List.foldl_cons] at h
      rw [List.foldl_cons, List.foldl_cons]
      obtain ⟨result, m, hm⟩ : ∃ result m, deleteEntry now depth z (.ok (), j) e = (result, m) :=
        ⟨_, _, rfl⟩
      have hsame : deleteEntry now depth' z (.ok (), j) e = (result, m) := by
        cases hdir : e.isDirectory with
        | false => rw [← hm, deleteEntry_file_eq hdir, deleteEntry_file_eq hdir]
        | true =>
            rw [deleteEntry_directory_eq hdir] at hm ⊢
            rw [← hm]
            refine hbelow j _ fun hlimit => h (fst_foldl_of_error ?_)
            rw [deleteEntry_directory_eq hdir]
            exact hlimit
      rw [hsame, hm]
      rw [hm] at h
      cases result with
      | error err => rw [foldl_deleteEntry_error, foldl_deleteEntry_error]
      | ok _ => exact ih h

theorem deleteDirectory_mono {depth' : Nat} (hle : depth ≤ depth')
    (h : (deleteDirectory now depth j z).1 ≠ .error .recursionLimit) :
    deleteDirectory now depth' j z = deleteDirectory now depth j z := by
  induction depth generalizing depth' j z with
  | zero => exact absurd rfl h
  | succ depth ih =>
      obtain ⟨d, rfl⟩ : ∃ d, depth' = d + 1 := ⟨depth' - 1, by omega⟩
      rw [deleteDirectory_succ, deleteDirectory_succ,
        foldl_deleteEntry_succ (fun a x => ih (Nat.le_of_succ_le_succ hle))]
      exact fun hlimit => h (deleteDirectory_of_error hlimit)

/-- Two loops that get to their end come to the same volume. -/
theorem foldl_deleteEntry_agree {depth' : Nat} {entries : List EntryInfo}
    (h : entries.foldl (deleteEntry now depth z) (.ok (), j) = (.ok (), j'))
    (h' : entries.foldl (deleteEntry now depth' z) (.ok (), j) = (.ok (), k)) : j' = k := by
  have hmono : ∀ {d d' : Nat} {a b : JbodManager}, d ≤ d' →
      entries.foldl (deleteEntry now d z) (.ok (), j) = (.ok (), a) →
      entries.foldl (deleteEntry now d' z) (.ok (), j) = (.ok (), b) → a = b := by
    intro d d' a b hle ha hb
    have hsame : entries.foldl (deleteEntry now d' z) (.ok (), j) =
        entries.foldl (deleteEntry now d z) (.ok (), j) := by
      refine foldl_deleteEntry_succ (fun a x => deleteDirectory_mono hle) ?_
      rw [ha]
      exact fun hlimit => nomatch hlimit
    rw [ha, hb] at hsame
    exact (Prod.mk.inj hsame).2.symm
  rcases Nat.le_total depth depth' with hle | hle
  · exact hmono hle h h'
  · exact (hmono hle h' h).symm

/-! ### A volume without sources -/

/-- The same records, and no source. -/
structure BareCopy (j k : JbodManager) : Prop where
  records : k.metadataStore = j.metadataStore
  bare : k.Bare

theorem BareCopy.deleteLive {p : Text} (h : BareCopy j k)
    (hj : j'.metadataStore = j.metadataStore.deleteLive p now) :
    BareCopy j' { k with metadataStore := k.metadataStore.deleteLive p now } :=
  ⟨by rw [hj, h.records], h.bare⟩

theorem Bare.onEverySource (h : k.Bare) (op : StorageSource → StorageSource) :
    (k.onEverySource op).Bare := by
  intro sourceId
  rw [JbodManager.onEverySource, Table.get_mapRows, h]
  rfl

/-- The loop goes the same way on a copy without sources, and gets to its end there if it does here. -/
theorem foldl_deleteEntry_bareCopy {entries : List EntryInfo}
    (hbelow : ∀ a b c x, BareCopy a c → deleteDirectory now depth a x = (.ok (), b) →
      ∃ c', deleteDirectory now depth c x = (.ok (), c') ∧ BareCopy b c')
    (h : BareCopy j k) (hj : entries.foldl (deleteEntry now depth z) (.ok (), j) = (.ok (), j')) :
    ∃ k', entries.foldl (deleteEntry now depth z) (.ok (), k) = (.ok (), k') ∧ BareCopy j' k' := by
  induction entries generalizing j k with
  | nil => exact ⟨k, rfl, (Prod.mk.inj hj).2 ▸ h⟩
  | cons e entries ih =>
      rw [List.foldl_cons] at hj
      obtain ⟨result, m, hm⟩ : ∃ result m, deleteEntry now depth z (.ok (), j) e = (result, m) :=
        ⟨_, _, rfl⟩
      rw [hm] at hj
      cases result with
      | error err =>
          rw [foldl_deleteEntry_error] at hj
          cases (Prod.mk.inj hj).1
      | ok _ =>
          obtain ⟨c, hc, hcopy⟩ : ∃ c, deleteEntry now depth z (.ok (), k) e = (.ok (), c) ∧
              BareCopy m c := by
            cases hdir : e.isDirectory with
            | true =>
                rw [deleteEntry_directory_eq hdir] at hm ⊢
                exact hbelow j m k _ h hm
            | false =>
                exact ⟨_, deleteEntry_file_of_bare h.bare hdir,
                  h.deleteLive (deleteEntry_file_ok hdir hm)⟩
          rw [List.foldl_cons, hc]
          exact ih hcopy hj

theorem deleteDirectory_bareCopy (h : BareCopy j k)
    (hj : deleteDirectory now depth j z = (.ok (), j')) :
    ∃ k', deleteDirectory now depth k z = (.ok (), k') ∧ BareCopy j' k' := by
  induction depth generalizing j k j' z with
  | zero => cases (Prod.mk.inj hj).1
  | succ depth ih =>
      obtain ⟨d, m, hd, hm, rfl⟩ := deleteDirectory_ok hj
      obtain rfl := Nat.succ.inj hd
      obtain ⟨c, hc, hcopy⟩ := foldl_deleteEntry_bareCopy (fun a b c x => ih) h hm
      rw [← h.records] at hc
      refine ⟨_, deleteDirectory_of_entries hc, ?_, hcopy.bare.onEverySource _⟩
      dsimp only
      rw [hcopy.records]

/-- Without sources only the stack can end the loop. -/
theorem foldl_deleteEntry_of_bare (entries : List EntryInfo)
    (hbelow : ∀ c x, c.Bare → (deleteDirectory now depth c x).1 = .error .recursionLimit ∨
      ∃ c', deleteDirectory now depth c x = (.ok (), c') ∧ c'.Bare) (hk : k.Bare) :
    (entries.foldl (deleteEntry now depth z) (.ok (), k)).1 = .error .recursionLimit ∨
      ∃ k', entries.foldl (deleteEntry now depth z) (.ok (), k) = (.ok (), k') ∧ k'.Bare := by
  induction entries generalizing k with
  | nil => exact Or.inr ⟨k, rfl, hk⟩
  | cons e entries ih =>
      rw [List.foldl_cons]
      cases hdir : e.isDirectory with
      | false =>
          rw [deleteEntry_file_of_bare hk hdir]
          exact ih hk
      | true =>
          rw [deleteEntry_directory_eq hdir]
          rcases hbelow k (rstrip '/' z ++ '/' :: e.name) hk with hlimit | ⟨c, hc, hbare⟩
          · exact Or.inl (fst_foldl_of_error hlimit)
          · rw [hc]
            exact ih hbare

theorem deleteDirectory_of_bare (now : Time) (depth : Nat) (hk : k.Bare) (z : Text) :
    (deleteDirectory now depth k z).1 = .error .recursionLimit ∨
      ∃ k', deleteDirectory now depth k z = (.ok (), k') ∧ k'.Bare := by
  induction depth generalizing k z with
  | zero => exact Or.inl rfl
  | succ depth ih =>
      rcases foldl_deleteEntry_of_bare _ (fun c x hc => ih hc x) hk with hlimit | ⟨c, hc, hbare⟩
      · exact Or.inl (deleteDirectory_of_error hlimit)
      · exact Or.inr ⟨_, deleteDirectory_of_entries hc, hbare.onEverySource _⟩

/-! ### Recursive calls -/

/-- A call calls the other: a directory of its listing, after the turns of the entries before. -/
def RecursiveCall (now : Time) (a b : JbodManager × Text) : Prop :=
  ∃ depth before e after, a.1.metadataStore.listEntries a.2 = before ++ e :: after ∧
    e.isDirectory = true ∧
    before.foldl (deleteEntry now depth a.2) (.ok (), a.1) = (.ok (), b.1) ∧
    b.2 = rstrip '/' a.2 ++ '/' :: e.name

/-- The calls of a deletion, itself among them. -/
def Made (now : Time) (j : JbodManager) (z : Text) (c : JbodManager × Text) : Prop :=
  Relation.ReflTransGen (RecursiveCall now) (j, z) c

/-- No stack is deep enough. -/
def NeverEnds (now : Time) (c : JbodManager × Text) : Prop :=
  ∀ depth, (deleteDirectory now depth c.1 c.2).1 = .error .recursionLimit

/-- A call ends where the calls it makes end. -/
theorem deleteDirectory_succ_ends (h : ∀ b, RecursiveCall now (j, z) b →
      (deleteDirectory now depth b.1 b.2).1 ≠ .error .recursionLimit) :
    (deleteDirectory now (depth + 1) j z).1 ≠ .error .recursionLimit := by
  have hloop : ((j.metadataStore.listEntries z).foldl (deleteEntry now depth z) (.ok (), j)).1 ≠
      .error .recursionLimit := by
    refine (Transitions.foldl_prefix_rule (deleteEntry now depth z) _ (fun done acc =>
      acc = done.foldl (deleteEntry now depth z) (.ok (), j) ∧ acc.1 ≠ .error .recursionLimit)
      ⟨rfl, fun hlimit => nomatch hlimit⟩ ?_).2
    rintro done e rest acc hentries ⟨hacc, hne⟩
    refine ⟨by rw [List.foldl_append, ← hacc]; rfl, ?_⟩
    obtain ⟨result, m⟩ := acc
    cases result with
    | error err => exact hne
    | ok _ =>
        cases hdir : e.isDirectory with
        | false => exact deleteEntry_file_ne_recursionLimit hdir
        | true =>
            rw [deleteEntry_directory_eq hdir]
            exact h (m, _) ⟨depth, done, e, rest, hentries, hdir, hacc.symm, rfl⟩
  rw [deleteDirectory_succ]
  split
  · rename_i hm
    rw [hm] at hloop
    exact hloop
  · exact fun hlimit => nomatch hlimit

/-- What a recursive call starts from: a name of the listing, and the rows that are left. -/
theorem RecursiveCall.spec {a b : JbodManager × Text} (h : RecursiveCall now a b) :
    ∃ n, a.1.metadataStore.Cut a.2 n ∧ b.2 = rstrip '/' a.2 ++ '/' :: n ∧
      Trimmed a.2 a.1.metadataStore b.1.metadataStore := by
  obtain ⟨depth, before, e, after, hentries, -, hfold, hb⟩ := h
  have hmem : e ∈ a.1.metadataStore.listEntries a.2 := by
    rw [hentries]
    exact List.mem_append_right before List.mem_cons_self
  exact ⟨e.name, (MetadataStore.cut_of_mem_listEntries hmem).1, hb,
    foldl_deleteEntry_trimmed (fun _ _ _ => deleteDirectory_trimmed) hentries hfold⟩

/-- The path of a recursive call ends in one slash at most. -/
theorem oneSlash_child (x : Text) {n : Text} (hslash : '/' ∉ n) :
    OneSlash (rstrip '/' x ++ '/' :: n) := by
  unfold OneSlash MetadataStore.withSlash
  by_cases hn : n = []
  · rw [hn, rstrip_append_slash, if_pos]
    rw [Text.endsWith, List.getLast?_concat]
    rfl
  · have hstrip := rstrip_append_name x hn hslash
    rw [hstrip, if_neg]
    intro hend
    have hlast := Text.getLast?_rstrip_ne '/' (rstrip '/' x ++ '/' :: n)
    rw [hstrip] at hlast
    exact hlast (beq_iff_eq.mp hend)

/-- The measure: every call has one more slash in front of the names it lists, and no row has more than
the most. -/
theorem deleteDirectory_ends {N : Nat}
    (hrows : ∀ p, j.metadataStore.Live p ∨ j.metadataStore.Registered p → p.count '/' ≤ N)
    (hnames : ∀ c, Made now j z c → OneSlash c.2 → ¬ c.1.metadataStore.GoesOnWithSlash c.2)
    (hz : OneSlash z) (hpos : 1 ≤ depth) (hdepth : N + 1 ≤ (rstrip '/' z).count '/' + depth) :
    (deleteDirectory now depth j z).1 ≠ .error .recursionLimit := by
  induction depth generalizing j z with
  | zero => omega
  | succ depth ih =>
      refine deleteDirectory_succ_ends fun b hb => ?_
      obtain ⟨n, hcut, hpath, htrim⟩ := hb.spec
      dsimp only at hcut hpath htrim
      have hn : n ≠ [] := by
        rintro rfl
        exact hnames (j, z) Relation.ReflTransGen.refl hz (MetadataStore.goesOnWithSlash_iff.mpr hcut)
      obtain ⟨p, hp, hlike, -⟩ := hcut.row
      have hcount := LikePattern.count_le_of_likePrefix (c := '/') (by decide) (by decide) hlike
      have hmost := hrows p hp
      have hone : (MetadataStore.withSlash z).count '/' = (rstrip '/' z).count '/' + 1 := by
        rw [hz, List.count_append, List.count_singleton_self]
      have hchild : (rstrip '/' b.2).count '/' = (rstrip '/' z).count '/' + 1 := by
        rw [hpath, rstrip_append_name z hn hcut.not_mem, List.count_append, List.count_cons_self,
          List.count_eq_zero_of_not_mem hcut.not_mem]
      refine ih (fun q hq => hrows q ?_) (fun c hc => hnames c (Relation.ReflTransGen.head hb hc)) ?_
        (by omega) (by omega)
      · exact Or.imp (htrim.live q) (htrim.registered q) hq
      · rw [hpath]
        exact oneSlash_child z hcut.not_mem

/-! ### Calls that never end -/

theorem Made.bareCopy {c : JbodManager × Text} (hc : Made now j z c) (h : BareCopy j k) :
    ∃ c', Made now k z (c', c.2) ∧ BareCopy c.1 c' := by
  induction hc with
  | refl => exact ⟨k, Relation.ReflTransGen.refl, h⟩
  | tail _ hcall ih =>
      obtain ⟨m, hmade, hcopy⟩ := ih
      obtain ⟨depth, before, e, after, hentries, hdir, hfold, hpath⟩ := hcall
      obtain ⟨m', hm', hcopy'⟩ :=
        foldl_deleteEntry_bareCopy (fun _ _ _ _ => deleteDirectory_bareCopy) hcopy hfold
      refine ⟨m', Relation.ReflTransGen.tail hmade ⟨depth, before, e, after, ?_, hdir, hm', hpath⟩,
        hcopy'⟩
      rw [hcopy.records]
      exact hentries

/-- A recursive call that runs out of stack takes the call with it. -/
theorem RecursiveCall.recursionLimit {a b : JbodManager × Text} (hcall : RecursiveCall now a b)
    (ha : a.1.Bare) (h : (deleteDirectory now depth b.1 b.2).1 = .error .recursionLimit) :
    (deleteDirectory now (depth + 1) a.1 a.2).1 = .error .recursionLimit := by
  obtain ⟨depth₀, before, e, after, hentries, hdir, hfold, hpath⟩ := hcall
  apply deleteDirectory_of_error
  rw [hentries, List.foldl_append, List.foldl_cons]
  apply fst_foldl_of_error
  obtain ⟨acc, hacc⟩ : ∃ acc, acc = before.foldl (deleteEntry now depth a.2) (.ok (), a.1) :=
    ⟨_, rfl⟩
  rw [← hacc]
  rcases foldl_deleteEntry_of_bare before (fun c x hc =>
    deleteDirectory_of_bare now depth hc x) ha with hlimit | ⟨m, hm, -⟩
  · rw [← hacc] at hlimit
    obtain ⟨result, m⟩ := acc
    rw [show result = .error .recursionLimit from hlimit]
    rfl
  · obtain rfl := foldl_deleteEntry_agree hfold hm
    rw [hacc, hm, deleteEntry_directory_eq hdir, ← hpath]
    exact h

theorem RecursiveCall.neverEnds {a b : JbodManager × Text} (hcall : RecursiveCall now a b)
    (ha : a.1.Bare) (h : NeverEnds now b) : NeverEnds now a := by
  intro depth
  cases depth with
  | zero => rfl
  | succ depth => exact hcall.recursionLimit ha (h depth)

theorem RecursiveCall.bare {a b : JbodManager × Text} (hcall : RecursiveCall now a b)
    (ha : a.1.Bare) : b.1.Bare := by
  obtain ⟨depth, before, e, after, -, -, hfold, -⟩ := hcall
  rcases foldl_deleteEntry_of_bare before (fun c x hc => deleteDirectory_of_bare now depth hc x)
    ha with hlimit | ⟨m, hm, hbare⟩
  · rw [hfold] at hlimit
    cases hlimit
  · rw [hfold] at hm
    exact (Prod.mk.inj hm).2 ▸ hbare

theorem Made.neverEnds {c : JbodManager × Text} (hc : Made now k z c) (hk : k.Bare)
    (h : NeverEnds now c) : NeverEnds now (k, z) := by
  have key : (k, z).1.Bare → NeverEnds now (k, z) := by
    refine Relation.ReflTransGen.head_induction_on (motive := fun a _ => a.1.Bare → NeverEnds now a)
      hc (fun _ => h) ?_
    intro a b hcall _ ih ha
    exact hcall.neverEnds ha (ih (hcall.bare ha))
  exact key hk

/-- Where a row goes on with a slash, the call comes back to its own directory or does not get so far. -/
theorem empty_name_cases (now : Time) (hk : k.Bare) (hgo : k.metadataStore.GoesOnWithSlash z) :
    NeverEnds now (k, z) ∨ ∃ m, RecursiveCall now (k, z) (m, rstrip '/' z ++ ['/']) := by
  obtain ⟨e, he, hname⟩ := MetadataStore.exists_entry_of_cut
    (MetadataStore.goesOnWithSlash_iff.mp hgo)
  have hdir : e.isDirectory = true := by
    by_contra hfile
    exact ((MetadataStore.cut_of_mem_listEntries he).2 (by simpa using hfile)).1 hname
  obtain ⟨before, after, hentries⟩ := List.append_of_mem he
  by_cases hfold : ∃ depth m, before.foldl (deleteEntry now depth z) (.ok (), k) = (.ok (), m)
  · obtain ⟨depth, m, hm⟩ := hfold
    exact Or.inr ⟨m, depth, before, e, after, hentries, hdir, hm, by rw [hname]⟩
  · left
    intro depth
    cases depth with
    | zero => rfl
    | succ depth =>
        apply deleteDirectory_of_error
        dsimp only
        rw [hentries, List.foldl_append]
        apply fst_foldl_of_error
        rcases foldl_deleteEntry_of_bare before (fun c x hc => deleteDirectory_of_bare now depth hc x)
          hk with hlimit | ⟨m, hm, -⟩
        · exact hlimit
        · exact absurd ⟨depth, m, hm⟩ hfold

/-- **The recursion that does not descend**: the row stays, and the directory is called again. -/
theorem neverEnds_of_goesOnWithSlash (hk : k.Bare) (hz : OneSlash z)
    (hgo : k.metadataStore.GoesOnWithSlash z) : NeverEnds now (k, z) := by
  intro depth
  induction depth generalizing k z with
  | zero => rfl
  | succ depth ih =>
      rcases empty_name_cases now hk hgo with hnever | ⟨m, hcall⟩
      · exact hnever (depth + 1)
      · refine hcall.recursionLimit hk (ih (hcall.bare hk) (oneSlash_child z List.not_mem_nil) ?_)
        obtain ⟨n, -, -, htrim⟩ := hcall.spec
        refine (MetadataStore.goesOnWithSlash_congr ?_).mp (htrim.goesOnWithSlash hz hgo)
        have hstrip : OneSlash (rstrip '/' z ++ ['/']) := oneSlash_child z List.not_mem_nil
        rw [hz, hstrip, rstrip_append_slash]

end Turns

/-! ### The property -/

/-- Whatever the sources of the volume are, the recursion ends, with at most two calls more on the stack
than the most slashes of a path; and every recursive call is on a path that is longer, slashes at the end
aside, with a row that the pattern of the caller selects. -/
structure Terminates (s : MetadataStore) (z : Text) : Prop where
  ends : ∀ now j, j.metadataStore = s →
    (deleteDirectory now (s.mostSlashes + 2) j z).1 ≠ .error .recursionLimit
  descends : ∀ now j a b, j.metadataStore = s → Made now j z a → RecursiveCall now a b →
    (rstrip '/' a.2).length < (rstrip '/' b.2).length ∧
      ∃ n p, b.2 = rstrip '/' a.2 ++ '/' :: n ∧
        (a.1.metadataStore.Live p ∨ a.1.metadataStore.Registered p) ∧
        LikePattern.likePrefix (MetadataStore.withSlash a.2) p = true ∧
        n <+: MetadataStore.cut a.2 p

section Property

variable {s : MetadataStore} {z : Text}

theorem deleteDirectory_ends_of_names (now : Time) {j : JbodManager} (hj : j.metadataStore = s)
    (hnames : ∀ c, Made now j z c → OneSlash c.2 → ¬ c.1.metadataStore.GoesOnWithSlash c.2) :
    (deleteDirectory now (s.mostSlashes + 2) j z).1 ≠ .error .recursionLimit := by
  refine deleteDirectory_succ_ends fun b hb => ?_
  obtain ⟨n, hcut, hpath, htrim⟩ := hb.spec
  refine deleteDirectory_ends (N := s.mostSlashes) (fun p hp => ?_)
    (fun c hc => hnames c (Relation.ReflTransGen.head hb hc)) ?_ (by omega) (by omega)
  · rw [← hj]
    exact MetadataStore.count_le_mostSlashes (Or.imp (htrim.live p) (htrim.registered p) hp)
  · rw [hpath]
    exact oneSlash_child z hcut.not_mem

/-- The volume without sources on the records of another one. -/
theorem exists_bareCopy (j : JbodManager) : ∃ k, BareCopy j k :=
  ⟨{ j with sources := Table.empty }, rfl, fun _ => rfl⟩

theorem terminates_of_names (h : ∀ now j c, j.metadataStore = s → Made now j z c →
    ¬ c.1.metadataStore.GoesOnWithSlash c.2) : Terminates s z := by
  refine ⟨fun now j hj => deleteDirectory_ends_of_names now hj fun c hc _ => h now j c hj hc,
    fun now j a b hj ha hb => ?_⟩
  obtain ⟨n, hcut, hpath, -⟩ := hb.spec
  have hn : n ≠ [] := by
    rintro rfl
    exact h now j a hj ha (MetadataStore.goesOnWithSlash_iff.mpr hcut)
  obtain ⟨p, hp, hlike, hprefix⟩ := hcut.row
  refine ⟨?_, n, p, hpath, hp, hlike, hprefix⟩
  rw [hpath, rstrip_append_name a.2 hn hcut.not_mem, List.length_append, List.length_cons]
  omega

theorem Terminates.names (h : Terminates s z) {now : Time} {j : JbodManager}
    {c : JbodManager × Text} (hj : j.metadataStore = s) (hc : Made now j z c) :
    ¬ c.1.metadataStore.GoesOnWithSlash c.2 := by
  intro hgo
  obtain ⟨k, hcopy⟩ := exists_bareCopy j
  obtain ⟨c', hmade, hc'⟩ := hc.bareCopy hcopy
  have hstore : k.metadataStore = s := hcopy.records.trans hj
  rw [← hc'.records] at hgo
  rcases empty_name_cases now hc'.bare hgo with hnever | ⟨m, hcall⟩
  · exact h.ends now k hstore (hmade.neverEnds hcopy.bare hnever _)
  · obtain ⟨hlonger, -⟩ := h.descends now k _ _ hstore hmade hcall
    dsimp only at hlonger
    rw [rstrip_append_slash] at hlonger
    omega

/-- **The recursive deletion terminates** where none of its calls comes to a directory with a row that
goes on with a slash, and nowhere else; and it never ends on some volume of the store exactly where a call
on a path with one slash at the end, or none, comes to such a directory. -/
theorem deleteDirectory_terminates_iff (s : MetadataStore) (z : Text) :
    (Terminates s z ↔ ∀ now j c, j.metadataStore = s → Made now j z c →
      ¬ c.1.metadataStore.GoesOnWithSlash c.2) ∧
    ((∃ now j, j.metadataStore = s ∧ NeverEnds now (j, z)) ↔
      ∃ now j c, j.metadataStore = s ∧ Made now j z c ∧ OneSlash c.2 ∧
        c.1.metadataStore.GoesOnWithSlash c.2) := by
  refine ⟨⟨fun h now j c hj hc => h.names hj hc, terminates_of_names⟩, ?_⟩
  constructor
  · rintro ⟨now, j, hj, hnever⟩
    by_contra hnot
    refine deleteDirectory_ends_of_names now hj (fun c hc hone hgo => ?_) (hnever _)
    exact hnot ⟨now, j, c, hj, hc, hone, hgo⟩
  · rintro ⟨now, j, c, hj, hc, hone, hgo⟩
    obtain ⟨k, hcopy⟩ := exists_bareCopy j
    obtain ⟨c', hmade, hc'⟩ := hc.bareCopy hcopy
    refine ⟨now, k, hcopy.records.trans hj, hmade.neverEnds hcopy.bare ?_⟩
    exact neverEnds_of_goesOnWithSlash hc'.bare hone (hc'.records ▸ hgo)

end Property

/-- A directory whose name is the wildcard, and a file in a directory of two letters. -/
def wildcardDirectory : MetadataStore :=
  (MetadataStore.initial.insert "/ab/c".toList "local" "ab/f".toList 1 0 0
    none).insertDirectory "/%".toList 0

/-- The deletion of the empty directory `/%` never ends. -/
theorem wildcard_directory_never_ends : ¬ Terminates wildcardDirectory "/%".toList ∧
    ∀ depth, (deleteDirectory 0 depth { metadataStore := wildcardDirectory, sources := Table.empty }
      "/%".toList).1 = .error .recursionLimit := by
  have hgo : wildcardDirectory.GoesOnWithSlash "/%".toList :=
    Or.inl ⟨"/ab/c".toList, "c".toList, ⟨_, rfl⟩, by decide, by decide⟩
  have hnever : NeverEnds 0
      ({ metadataStore := wildcardDirectory, sources := Table.empty }, "/%".toList) :=
    neverEnds_of_goesOnWithSlash (fun _ => rfl) (by unfold OneSlash; decide) hgo
  exact ⟨fun h => h.ends 0 _ rfl (hnever _), hnever⟩

end JbodManager

end StardustFS
