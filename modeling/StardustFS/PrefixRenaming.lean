import StardustFS.MetadataStore

/-! `rename_directory`: which rows its statements rewrite. A row is selected by a pattern and cut by the
length of the prefix, so that the two agree only where nothing but what lies below the directory
matches; and the unique key is checked row by row. -/

namespace StardustFS

namespace MetadataStore

open LikePattern (likePrefix)

/-- The path after the move of a directory: the old prefix, as it is written, gives way to the new
one. -/
def retitled (oldPrefix newPrefix p : Text) : Text :=
  if oldPrefix.isPrefixOf p then newPrefix ++ p.drop oldPrefix.length else p

/-- Both statements go through; each row below the old prefix has its new path, and every other row is
as before. -/
structure RenamesSubtree (oldPrefix newPrefix : Text) (s : MetadataStore)
    (out : MetadataStore × Bool) : Prop where
  returns : out.2 = true
  files : out.1.files.rows =
    s.files.rows.map fun x => (retitled oldPrefix newPrefix x.1, x.2)
  directories : out.1.directories.rows =
    s.directories.rows.map fun x => (retitled oldPrefix newPrefix x.1, x.2)

section

variable {ρ : Type} (t : Table Text ρ) (oldPrefix newPrefix : Text)

/-- No two rows are to have one path. -/
def NoCollision : Prop := (t.keys.map (retitled oldPrefix newPrefix)).Nodup

/-- What matches the pattern without lying below the prefix is rewritten to its own path. -/
def OnlyBelow : Prop :=
  ∀ k ∈ t.keys, likePrefix oldPrefix k = true → oldPrefix.isPrefixOf k = false →
    moved oldPrefix newPrefix k = k

/-- No row below the prefix is stored before a row below it that has its new path now. -/
def InTurn : Prop :=
  ∀ done k rest, t.keys.filter (fun k => oldPrefix.isPrefixOf k) = done ++ k :: rest →
    moved oldPrefix newPrefix k ∉ rest

instance : Decidable (NoCollision t oldPrefix newPrefix) :=
  inferInstanceAs (Decidable (List.Nodup _))

end

section

variable {ρ : Type} {t : Table Text ρ} {oldPrefix newPrefix : Text}

theorem retitled_of_below {p : Text} (h : oldPrefix.isPrefixOf p = true) :
    retitled oldPrefix newPrefix p = moved oldPrefix newPrefix p :=
  if_pos h

theorem retitled_of_not_below {p : Text} (h : oldPrefix.isPrefixOf p = false) :
    retitled oldPrefix newPrefix p = p :=
  if_neg (by rw [h]; exact Bool.false_ne_true)

theorem likePrefix_of_below {p : Text} (h : oldPrefix.isPrefixOf p = true) :
    likePrefix oldPrefix p = true :=
  LikePattern.likePrefix_of_prefix (List.isPrefixOf_iff_prefix.mp h)

/-- Where only what lies below is rewritten, the statement could have asked for that alone. -/
theorem renameWhere?_of_onlyBelow (h : OnlyBelow t oldPrefix newPrefix) :
    t.renameWhere? (likePrefix oldPrefix) (moved oldPrefix newPrefix) =
      t.renameWhere? (fun k => oldPrefix.isPrefixOf k) (moved oldPrefix newPrefix) :=
  t.renameWhere?_of_fixed (fun _ _ hbelow => likePrefix_of_below hbelow) h

theorem inTurn_of_canRename
    (h : t.CanRename (moved oldPrefix newPrefix) (t.keys.filter fun k => oldPrefix.isPrefixOf k)) :
    InTurn t oldPrefix newPrefix := by
  intro done k rest hsplit hmem
  have hnodup : (t.keys.filter fun k => oldPrefix.isPrefixOf k).Nodup := t.nodup.filter _
  have hkeys : moved oldPrefix newPrefix k ∈ t.keys := by
    have hin : moved oldPrefix newPrefix k ∈ t.keys.filter fun k => oldPrefix.isPrefixOf k := by
      rw [hsplit]
      exact List.mem_append_right _ (List.mem_cons_of_mem k hmem)
    exact (List.mem_filter.mp hin).1
  rw [hsplit, List.nodup_append, List.nodup_cons] at hnodup
  have hnot : moved oldPrefix newPrefix k ∉ done := fun hdone =>
    hnodup.2.2 _ hdone _ (List.mem_cons_of_mem k hmem) rfl
  have hself := h done k rest hsplit (Or.inr ⟨hkeys, hnot⟩)
  rw [hself] at hmem
  exact hnodup.2.1.1 hmem

theorem canRename_of_inTurn (hfree : NoCollision t oldPrefix newPrefix)
    (h : InTurn t oldPrefix newPrefix) :
    t.CanRename (moved oldPrefix newPrefix) (t.keys.filter fun k => oldPrefix.isPrefixOf k) := by
  intro done k rest hsplit hafter
  have hbelow : ∀ l, l ∈ done ++ k :: rest → l ∈ t.keys ∧ oldPrefix.isPrefixOf l = true := by
    intro l hl
    rw [← hsplit] at hl
    exact List.mem_filter.mp hl
  have hk := hbelow k (List.mem_append_right _ List.mem_cons_self)
  have hinj : ∀ l ∈ t.keys, retitled oldPrefix newPrefix l = moved oldPrefix newPrefix k → l = k := by
    intro l hl heq
    exact List.inj_on_of_nodup_map hfree hl hk.1 (heq.trans (retitled_of_below hk.2).symm)
  rcases hafter with hmem | ⟨hmem, hnot⟩
  · -- a row that was rewritten before has another new path
    obtain ⟨l, hl, heq⟩ := List.mem_map.mp hmem
    have hlb := hbelow l (List.mem_append_left _ hl)
    obtain rfl := hinj l hlb.1 ((retitled_of_below hlb.2).trans heq)
    have hnodup : (t.keys.filter fun k => oldPrefix.isPrefixOf k).Nodup := t.nodup.filter _
    rw [hsplit, List.nodup_append] at hnodup
    exact absurd rfl (hnodup.2.2 l hl l List.mem_cons_self)
  · cases hm : oldPrefix.isPrefixOf (moved oldPrefix newPrefix k) with
    | false => exact hinj _ hmem (retitled_of_not_below hm)
    | true =>
        have hin : moved oldPrefix newPrefix k ∈ done ++ k :: rest := by
          rw [← hsplit]
          exact List.mem_filter.mpr ⟨hmem, hm⟩
        rcases List.mem_append.mp hin with hdone | hlater
        · exact absurd hdone hnot
        · rcases List.mem_cons.mp hlater with heq | hrest
          · exact heq
          · exact absurd hrest (h done k rest hsplit)

/-- **One of the statements** rewrites what lies below the prefix, and that alone. -/
theorem renameWhere?_retitles_iff (hfree : NoCollision t oldPrefix newPrefix) :
    (∃ t', t.renameWhere? (likePrefix oldPrefix) (moved oldPrefix newPrefix) = some t' ∧
      t'.rows = t.rows.map fun x => (retitled oldPrefix newPrefix x.1, x.2)) ↔
    OnlyBelow t oldPrefix newPrefix ∧ InTurn t oldPrefix newPrefix := by
  constructor
  · rintro ⟨t', hrename, hrows⟩
    have hsame := List.map_eq_map_iff.mp ((Table.rows_renameWhere? hrename).symm.trans hrows)
    have honly : OnlyBelow t oldPrefix newPrefix := by
      intro k hk hlike hnot
      obtain ⟨x, hx, rfl⟩ := List.mem_map.mp hk
      have hpath := congrArg Prod.fst (hsame x hx)
      dsimp only at hpath
      rwa [if_pos hlike, retitled_of_not_below hnot] at hpath
    refine ⟨honly, inTurn_of_canRename ?_⟩
    rw [renameWhere?_of_onlyBelow honly] at hrename
    rcases t.renameWhere?_cases (fun k => oldPrefix.isPrefixOf k) (moved oldPrefix newPrefix) with
      ⟨hcan, -⟩ | ⟨-, hnone⟩
    · exact hcan
    · rw [hnone] at hrename
      cases hrename
  · rintro ⟨honly, hturn⟩
    rcases t.renameWhere?_cases (fun k => oldPrefix.isPrefixOf k) (moved oldPrefix newPrefix) with
      ⟨-, t', hrename, -⟩ | ⟨hcannot, -⟩
    · refine ⟨t', (renameWhere?_of_onlyBelow honly).trans hrename, ?_⟩
      exact Table.rows_renameWhere? hrename
    · exact absurd (canRename_of_inTurn hfree hturn) hcannot

end

theorem renameDirectory_eq_true {s s' : MetadataStore} {oldPrefix newPrefix : Text} :
    s.renameDirectory oldPrefix newPrefix = (s', true) ↔
      s.files.renameWhere? (likePrefix oldPrefix) (moved oldPrefix newPrefix) = some s'.files ∧
      s.directories.renameWhere? (likePrefix oldPrefix) (moved oldPrefix newPrefix) =
        some s'.directories := by
  obtain ⟨files', directories'⟩ := s'
  unfold renameDirectory
  cases s.files.renameWhere? (likePrefix oldPrefix) (moved oldPrefix newPrefix) with
  | none => simp
  | some files =>
      cases s.directories.renameWhere? (likePrefix oldPrefix) (moved oldPrefix newPrefix) with
      | none => simp
      | some directories => simp

/-- **The renaming of a directory** rewrites the rows below it, as the paths are written, and no others,
exactly where nothing else matches its pattern and no new path is still taken. -/
theorem renameDirectory_subtree_iff (s : MetadataStore) {oldPrefix newPrefix : Text}
    (hfiles : NoCollision s.files oldPrefix newPrefix)
    (hdirectories : NoCollision s.directories oldPrefix newPrefix) :
    RenamesSubtree oldPrefix newPrefix s (s.renameDirectory oldPrefix newPrefix) ↔
      (OnlyBelow s.files oldPrefix newPrefix ∧ InTurn s.files oldPrefix newPrefix) ∧
        OnlyBelow s.directories oldPrefix newPrefix ∧ InTurn s.directories oldPrefix newPrefix := by
  rw [← renameWhere?_retitles_iff hfiles, ← renameWhere?_retitles_iff hdirectories]
  constructor
  · obtain ⟨s', done, hcall⟩ : ∃ s' done, s.renameDirectory oldPrefix newPrefix = (s', done) :=
      ⟨_, _, rfl⟩
    rw [hcall]
    rintro ⟨hreturns, hf, hd⟩
    obtain rfl : done = true := hreturns
    obtain ⟨hfiles', hdirs'⟩ := renameDirectory_eq_true.mp hcall
    exact ⟨⟨s'.files, hfiles', hf⟩, s'.directories, hdirs', hd⟩
  · rintro ⟨⟨files, hfiles', hf⟩, directories, hdirs', hd⟩
    have hdone : s.renameDirectory oldPrefix newPrefix = (⟨files, directories⟩, true) :=
      renameDirectory_eq_true.mpr ⟨hfiles', hdirs'⟩
    rw [hdone]
    exact ⟨rfl, hf, hd⟩

/-- Two files in directories whose names differ where one of them has an underscore. -/
def underscoredStore : MetadataStore :=
  (initial.insert "/a_b/f".toList "s" "f".toList 1 0 0 none).insert "/axb/g".toList "s" "g".toList 1 0
    0 none

theorem underscoredStore_subtree_iff :
    RenamesSubtree "/axb/".toList "/c/".toList underscoredStore
        (underscoredStore.renameDirectory "/axb/".toList "/c/".toList) ↔
      (OnlyBelow underscoredStore.files "/axb/".toList "/c/".toList ∧
        InTurn underscoredStore.files "/axb/".toList "/c/".toList) ∧
      OnlyBelow underscoredStore.directories "/axb/".toList "/c/".toList ∧
        InTurn underscoredStore.directories "/axb/".toList "/c/".toList :=
  renameDirectory_subtree_iff underscoredStore (by decide) (by decide)

/-- The underscore of the one stands for the letter of the other. -/
theorem wildcard_renames_other_directory :
    NoCollision underscoredStore.files "/a_b/".toList "/c/".toList ∧
    NoCollision underscoredStore.directories "/a_b/".toList "/c/".toList ∧
    (underscoredStore.renameDirectory "/a_b/".toList "/c/".toList).1.files.keys =
      ["/c/f".toList, "/c/g".toList] ∧
    ¬ RenamesSubtree "/a_b/".toList "/c/".toList underscoredStore
      (underscoredStore.renameDirectory "/a_b/".toList "/c/".toList) := by
  have hkeys : (underscoredStore.renameDirectory "/a_b/".toList "/c/".toList).1.files.keys =
      ["/c/f".toList, "/c/g".toList] := by decide
  refine ⟨by decide, by decide, hkeys, fun h => ?_⟩
  have hrows := congrArg (List.map Prod.fst) h.files
  rw [show List.map Prod.fst _ = _ from hkeys] at hrows
  exact absurd hrows (by decide)

end MetadataStore

end StardustFS
