import StardustFS.DirectoryTree

/-! A directory tree below a path of a larger one. The names of the smaller tree are spelled in the larger
one by an injection. An operation below the path does to the smaller tree what it does to its own. -/

namespace DirectoryTree

variable {α γ β : Type*}

/-! ### Removals that fail -/

section

variable [DecidableEq α] {t t' : DirectoryTree α β} {p q : List α}

theorem remove_of_directory (h : t.get p = some .directory) : t.remove p = .error .isADirectory := by
  unfold remove
  split
  · rename_i heq
    rw [h] at heq
    cases heq
  · rfl
  · rename_i heq
    rw [h] at heq
    cases heq

theorem remove_of_missing (h : t.get p = none) : t.remove p = .error (t.missing p) := by
  unfold remove
  split
  · rename_i heq
    rw [h] at heq
    cases heq
  · rename_i heq
    rw [h] at heq
    cases heq
  · rfl

theorem remove_eq_ok_iff : (∃ t', t.remove p = .ok t') ↔ t.isFile p = true := by
  constructor
  · rintro ⟨t', ht'⟩
    cases hnode : t.get p with
    | none =>
        rw [remove_of_missing hnode] at ht'
        cases ht'
    | some node =>
        cases node with
        | directory =>
            rw [remove_of_directory hnode] at ht'
            cases ht'
        | file b => exact Option.isSome_iff_exists.mpr ⟨b, file?_eq_some_iff.mpr hnode⟩
  · intro hfile
    obtain ⟨b, hb⟩ := Option.isSome_iff_exists.mp hfile
    exact exists_remove (file?_eq_some_iff.mp hb)

theorem exists_rmtree (h : t.isDirectory p = true) : ∃ t', t.rmtree p = .ok t' := by
  rw [rmtree, if_pos h]
  exact ⟨_, rfl⟩

theorem isDirectory_of_rmtree (h : t.rmtree p = .ok t') : t.isDirectory p = true := by
  unfold rmtree at h
  split_ifs at h with hdir
  exact hdir

theorem exists_write {b : β} (hp : t.isDirectory p = false) (hparent : t.isDirectory p.dropLast = true) :
    ∃ t', t.write p b = .ok t' := by
  rw [write, dif_neg (by rw [hp]; exact Bool.false_ne_true), dif_pos hparent]
  exact ⟨_, rfl⟩

/-- Making a directory that is there changes nothing. -/
theorem makedirs_of_isDirectory (h : t.isDirectory p = true) :
    ∃ t', t.makedirs p = .ok t' ∧ ∀ q, t'.get q = t.get q := by
  have hway : ∀ q, q <+: p → t.get q = some .directory := by
    intro q hq
    by_cases hqp : q = p
    · rw [hqp]
      exact isDirectory_iff.mp h
    · exact t.closed p _ (isDirectory_iff.mp h) q hq hqp
  have hnofile : p.inits.any t.isFile = false := List.any_eq_false.mpr fun q hq => by
    rw [isFile, file?, hway q ((List.mem_inits _ _).mp hq)]
    exact Bool.false_ne_true
  obtain ⟨t', ht'⟩ := makedirs_eq_ok_iff.mpr hnofile
  refine ⟨t', ht', fun q => ?_⟩
  rw [get_makedirs ht', if_neg]
  rintro ⟨hnone, hq⟩
  rw [hway q hq] at hnone
  cases hnone

/-- What becomes no file where none was. -/
theorem isFile_of_get {c : Prop} [Decidable c] {n : Option (Node β)} (hn : ∀ b, n ≠ some (.file b))
    (hget : t'.get q = if c then n else t.get q) (hq : t.isFile q = false) : t'.isFile q = false := by
  rw [isFile, file?] at hq ⊢
  rw [hget]
  split_ifs
  · cases hnode : n with
    | none => rfl
    | some node =>
        cases node with
        | directory => rfl
        | file b => exact absurd hnode (hn b)
  · exact hq

end

/-! ### Below a path -/

/-- What `t` holds below the path `root` is the tree `s`. The directories above the path are there, and no
regular file is at the path. -/
structure Holds [DecidableEq α] [DecidableEq γ] (spell : α → γ) (root : List γ) (t : DirectoryTree γ β)
    (s : DirectoryTree α β) : Prop where
  above : ∀ q, q <+: root → q ≠ root → t.isDirectory q = true
  noFile : s.isFile [] = false
  get : ∀ p, s.get p = t.get (root ++ p.map spell)

/-- Two operations that end with one error, or with a tree that holds the other. -/
inductive Alike [DecidableEq α] [DecidableEq γ] (spell : α → γ) (root : List γ) :
    Except Error (DirectoryTree γ β) → Except Error (DirectoryTree α β) → Prop
  | done {t : DirectoryTree γ β} {s : DirectoryTree α β} (h : Holds spell root t s) :
      Alike spell root (.ok t) (.ok s)
  | failed (e : Error) : Alike spell root (.error e) (.error e)

namespace Holds

section

variable {spell : α → γ} {root : List γ} {p q : List α} {k : List γ}

/-- A path that leads to a place below the root passes the root first. -/
theorem prefix_cases (h : k <+: root ++ p.map spell) :
    (k <+: root ∧ k ≠ root) ∨ ∃ r, r <+: p ∧ k = root ++ r.map spell := by
  rcases List.prefix_or_prefix_of_prefix h (List.prefix_append root _) with hk | hk
  · by_cases hne : k = root
    · exact Or.inr ⟨[], List.nil_prefix, by rw [hne, List.map_nil, List.append_nil]⟩
    · exact Or.inl ⟨hk, hne⟩
  · obtain ⟨down, rfl⟩ := hk
    have hdown : down <+: p.map spell := (List.prefix_append_right_inj root).mp h
    obtain ⟨r, hr, rfl⟩ := List.prefix_map_iff.mp hdown
    exact Or.inr ⟨r, hr, rfl⟩

/-- Nothing above the root lies at a place below it or further down. -/
theorem not_prefix_above (hk : k <+: root) (hne : k ≠ root) : ¬root ++ p.map spell <+: k := by
  intro hprefix
  exact hne (hk.eq_of_length_le ((List.prefix_append root _).trans hprefix).length_le)

theorem ne_above (hk : k <+: root) (hne : k ≠ root) : k ≠ root ++ p.map spell := by
  intro heq
  have hnot : ¬root ++ p.map spell <+: k := not_prefix_above hk hne
  rw [← heq] at hnot
  exact hnot (List.prefix_refl k)

theorem append_eq_iff (hspell : Function.Injective spell) :
    root ++ q.map spell = root ++ p.map spell ↔ q = p := by
  rw [List.append_right_inj, (List.map_injective_iff.mpr hspell).eq_iff]

theorem append_above_iff (hspell : Function.Injective spell) :
    root ++ p.map spell <+: root ++ q.map spell ↔ p <+: q := by
  rw [List.prefix_append_right_inj, List.prefix_map_iff_of_injective hspell]

end

variable [DecidableEq α] [DecidableEq γ] {spell : α → γ} {root : List γ} {t t' : DirectoryTree γ β}
  {s s' : DirectoryTree α β} {p : List α} (h : Holds spell root t s)

include h

theorem isDirectory : t.isDirectory (root ++ p.map spell) = s.isDirectory p := by
  rw [DirectoryTree.isDirectory, DirectoryTree.isDirectory, h.get]

theorem file? : t.file? (root ++ p.map spell) = s.file? p := by
  rw [DirectoryTree.file?, DirectoryTree.file?, h.get]

theorem isFile : t.isFile (root ++ p.map spell) = s.isFile p := by
  rw [DirectoryTree.isFile, DirectoryTree.isFile, h.file?]

theorem isFile_above {k : List γ} (hk : k <+: root) (hne : k ≠ root) : t.isFile k = false := by
  rw [DirectoryTree.isFile, DirectoryTree.file?, isDirectory_iff.mp (h.above k hk hne)]
  rfl

theorem anyFile : (root ++ p.map spell).inits.any t.isFile = p.inits.any s.isFile := by
  rw [Bool.eq_iff_iff, List.any_eq_true, List.any_eq_true]
  constructor
  · rintro ⟨k, hk, hfile⟩
    rcases prefix_cases ((List.mem_inits _ _).mp hk) with ⟨habove, hne⟩ | ⟨r, hr, rfl⟩
    · rw [h.isFile_above habove hne] at hfile
      cases hfile
    · exact ⟨r, (List.mem_inits _ _).mpr hr, h.isFile ▸ hfile⟩
  · rintro ⟨r, hr, hfile⟩
    refine ⟨root ++ r.map spell, (List.mem_inits _ _).mpr ?_, h.isFile.trans hfile⟩
    exact (List.prefix_append_right_inj root).mpr (((List.mem_inits _ _).mp hr).map spell)

theorem missing : t.missing (root ++ p.map spell) = s.missing p := by
  rw [DirectoryTree.missing, DirectoryTree.missing, h.anyFile]

theorem read : t.read (root ++ p.map spell) = s.read p := by
  rw [DirectoryTree.read, DirectoryTree.read, h.get, h.missing]

/-- A change that leaves the directories above the root as they are. -/
theorem of_get (habove : ∀ k, k <+: root → k ≠ root → t'.get k = t.get k) (hroot : s'.isFile [] = false)
    (hget : ∀ p, s'.get p = t'.get (root ++ p.map spell)) : Holds spell root t' s' where
  above k hk hne := by
    rw [isDirectory_iff, habove k hk hne]
    exact isDirectory_iff.mp (h.above k hk hne)
  noFile := hroot
  get := hget

theorem remove (hspell : Function.Injective spell) :
    Alike spell root (t.remove (root ++ p.map spell)) (s.remove p) := by
  cases hnode : s.get p with
  | none =>
      rw [remove_of_missing hnode, remove_of_missing (h.get p ▸ hnode), h.missing]
      exact .failed _
  | some node =>
      cases node with
      | directory =>
          rw [remove_of_directory hnode, remove_of_directory (h.get p ▸ hnode)]
          exact .failed _
      | file b =>
          obtain ⟨t', ht'⟩ := exists_remove (h.get p ▸ hnode)
          obtain ⟨s', hs'⟩ := exists_remove hnode
          rw [ht', hs']
          refine .done (h.of_get (fun k hk hne => ?_) ?_ fun q => ?_)
          · rw [get_remove ht', if_neg (ne_above hk hne)]
          · exact isFile_of_get (by simp) (get_remove hs' []) h.noFile
          · rw [get_remove ht', get_remove hs', h.get]
            exact if_congr (append_eq_iff hspell).symm rfl rfl

theorem rmtree (hspell : Function.Injective spell) :
    Alike spell root (t.rmtree (root ++ p.map spell)) (s.rmtree p) := by
  by_cases hdir : s.isDirectory p = true
  · obtain ⟨t', ht'⟩ := exists_rmtree (h.isDirectory.trans hdir)
    obtain ⟨s', hs'⟩ := exists_rmtree hdir
    rw [ht', hs']
    refine .done (h.of_get (fun k hk hne => ?_) ?_ fun q => ?_)
    · rw [get_rmtree ht', if_neg (not_prefix_above hk hne)]
    · exact isFile_of_get (by simp) (get_rmtree hs' []) h.noFile
    · rw [get_rmtree ht', get_rmtree hs', h.get]
      exact if_congr (append_above_iff hspell).symm rfl rfl
  · rw [DirectoryTree.rmtree, DirectoryTree.rmtree, h.isDirectory, h.isFile, h.missing, if_neg hdir,
      if_neg hdir]
    split_ifs
    · exact .failed _
    · exact .failed _

theorem makedirs (hspell : Function.Injective spell) :
    Alike spell root (t.makedirs (root ++ p.map spell)) (s.makedirs p) := by
  by_cases hfile : p.inits.any s.isFile = true
  · rw [DirectoryTree.makedirs, DirectoryTree.makedirs, dif_pos hfile, dif_pos (h.anyFile.trans hfile),
      h.isFile]
    exact .failed _
  · rw [Bool.not_eq_true] at hfile
    obtain ⟨t', ht'⟩ := makedirs_eq_ok_iff.mpr (h.anyFile.trans hfile)
    obtain ⟨s', hs'⟩ := makedirs_eq_ok_iff.mpr hfile
    rw [ht', hs']
    refine .done (h.of_get (fun k hk hne => ?_) ?_ fun q => ?_)
    · rw [get_makedirs ht', isDirectory_iff.mp (h.above k hk hne)]
      simp
    · exact isFile_of_get (by simp) (get_makedirs hs' []) h.noFile
    · rw [get_makedirs ht', get_makedirs hs', h.get]
      exact if_congr (and_congr_right fun _ => (append_above_iff hspell).symm) rfl rfl

/-- A file below the root. -/
theorem write (hspell : Function.Injective spell) (hp : p ≠ []) {b : β} :
    Alike spell root (t.write (root ++ p.map spell) b) (s.write p b) := by
  have hparent : (root ++ p.map spell).dropLast = root ++ p.dropLast.map spell := by
    rw [List.dropLast_append_of_ne_nil (by simpa using hp), List.map_dropLast]
  by_cases hdir : s.isDirectory p = true
  · rw [DirectoryTree.write, DirectoryTree.write, dif_pos hdir, dif_pos (h.isDirectory.trans hdir)]
    exact .failed _
  · by_cases hhead : s.isDirectory p.dropLast = true
    · rw [Bool.not_eq_true] at hdir
      obtain ⟨t', ht'⟩ := exists_write (b := b) (h.isDirectory.trans hdir)
        (hparent ▸ h.isDirectory.trans hhead)
      obtain ⟨s', hs'⟩ := exists_write (b := b) hdir hhead
      rw [ht', hs']
      refine .done (h.of_get (fun k hk hne => ?_) ?_ fun q => ?_)
      · rw [get_write ht', if_neg (ne_above hk hne)]
      · rw [DirectoryTree.isFile, DirectoryTree.file?, get_write hs', if_neg hp.symm]
        exact h.noFile
      · rw [get_write ht', get_write hs', h.get]
        exact if_congr (append_eq_iff hspell).symm rfl rfl
    · rw [DirectoryTree.write, DirectoryTree.write, dif_neg hdir, dif_neg hhead,
        dif_neg (by rw [h.isDirectory]; exact hdir), dif_neg (by rw [hparent, h.isDirectory]; exact hhead),
        h.missing]
      exact .failed _

end Holds

end DirectoryTree
