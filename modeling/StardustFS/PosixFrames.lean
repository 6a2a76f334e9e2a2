import StardustFS.PosixOutcomes

/-! What the calls of `os` and `open` leave as it is. A region is a set of paths; a call on a path of the
region changes nothing outside of it, where the directories above the path that lie outside are there. -/

namespace Text

theorem plain_joinPath {a b : Text} (ha : Plain a) (hb : Plain b) : Plain (joinPath a b) := by
  unfold joinPath
  split_ifs with habsolute hempty
  · exact hb
  · rcases hempty with rfl | hlast
    · exact hb
    · obtain ⟨init, rfl⟩ : ∃ init, a = init ++ ['/'] :=
        ⟨a.dropLast, (List.dropLast_append_getLast? '/' hlast).symm⟩
      rw [List.append_assoc, List.singleton_append]
      exact plain_append_iff.mpr ⟨(plain_append_iff.mp ha).1, hb⟩
  · exact plain_append_iff.mpr ⟨ha, hb⟩

end Text

namespace PosixFiles

open Text

variable {β : Type*} {t t' t'' : Tree β} {path : Text} {inside : List Text → Prop}

/-- Outside the region the trees are the same. -/
def SameOutside (inside : List Text → Prop) (t t' : Tree β) : Prop :=
  ∀ q, ¬inside q → t'.get q = t.get q

/-- Whatever lies below a path of the region belongs to it. -/
def Downward (inside : List Text → Prop) : Prop := ∀ p q, inside p → p <+: q → inside q

/-- The directories on the way to the path that lie outside the region are there. -/
def Standing (inside : List Text → Prop) (t : Tree β) (p : List Text) : Prop :=
  ∀ q, q <+: p → ¬inside q → t.isDirectory q = true

theorem SameOutside.refl (inside : List Text → Prop) (t : Tree β) : SameOutside inside t t :=
  fun _ _ => rfl

theorem SameOutside.trans (h : SameOutside inside t t') (h' : SameOutside inside t' t'') :
    SameOutside inside t t'' :=
  fun q hq => (h' q hq).trans (h q hq)

theorem SameOutside.isDirectory (h : SameOutside inside t t') {q : List Text} (hq : ¬inside q) :
    t'.isDirectory q = t.isDirectory q := by
  unfold DirectoryTree.isDirectory
  rw [h q hq]

theorem Standing.of_sameOutside {p : List Text} (h : Standing inside t p) (hsame : SameOutside inside t t') :
    Standing inside t' p := by
  intro q hq hout
  rw [hsame.isDirectory hout]
  exact h q hq hout

theorem Standing.above {p q : List Text} (h : Standing inside t p) (hq : q <+: p) : Standing inside t q :=
  fun q' hq' => h q' (hq'.trans hq)

/-! ### One call -/

theorem sameOutside_openWrite {b : β} (h : openWrite t path b = .ok t') (hinside : inside (location path)) :
    SameOutside inside t t' := by
  unfold openWrite at h
  split_ifs at h
  cases hwrite : t.write (location path) b with
  | error e =>
      rw [hwrite] at h
      cases h
  | ok written =>
      rw [hwrite] at h
      obtain rfl : written = t' := Except.ok.inj h
      intro q hq
      rw [DirectoryTree.get_write hwrite, if_neg]
      rintro rfl
      exact hq hinside

theorem sameOutside_remove (h : remove t path = .ok t') (hinside : inside (location path)) :
    SameOutside inside t t' := by
  unfold remove at h
  split_ifs at h
  cases hremove : t.remove (location path) with
  | error e =>
      rw [hremove] at h
      cases h
  | ok removed =>
      rw [hremove] at h
      obtain rfl : removed = t' := Except.ok.inj h
      intro q hq
      rw [DirectoryTree.get_remove hremove, if_neg]
      rintro rfl
      exact hq hinside

/-- Making a directory that is there, or one of the region, in a directory that is there. -/
theorem sameOutside_makedirs {p : List Text} (h : t.makedirs p = .ok t') (hstanding : Standing inside t p) :
    SameOutside inside t t' := by
  intro q hq
  rw [DirectoryTree.get_makedirs h, if_neg]
  rintro ⟨hnone, hprefix⟩
  rw [DirectoryTree.isDirectory_iff.mp (hstanding q hprefix hq)] at hnone
  cases hnone

theorem sameOutside_rmtree (hdown : Downward inside) (hinside : inside (location path)) :
    SameOutside inside t (rmtree t path).2 := by
  have hremoved : ∀ emptied, t.rmtree (location path) = .ok emptied →
      t.isDirectory (location path) = true ∧ SameOutside inside t emptied := by
    intro emptied hrmtree
    have hthere : t.isDirectory (location path) = true := by
      unfold DirectoryTree.rmtree at hrmtree
      split_ifs at hrmtree with hdir
      exact hdir
    refine ⟨hthere, fun q hq => ?_⟩
    rw [DirectoryTree.get_rmtree hrmtree, if_neg]
    exact fun hprefix => hq (hdown _ _ hinside hprefix)
  unfold rmtree
  cases hrmtree : t.rmtree (location path) with
  | error e =>
      dsimp only
      split_ifs
      · exact SameOutside.refl inside t
      · exact SameOutside.refl inside t
      · exact SameOutside.refl inside t
  | ok emptied =>
      obtain ⟨hthere, hemptied⟩ := hremoved emptied hrmtree
      dsimp only
      split_ifs
      · exact SameOutside.refl inside t
      · exact SameOutside.refl inside t
      · cases hmake : emptied.makedirs (location path) with
        | error e => exact hemptied
        | ok kept =>
            refine hemptied.trans (sameOutside_makedirs hmake ?_)
            intro q hq hout
            rw [hemptied.isDirectory hout]
            exact isDirectory_above hthere hq
      · exact hemptied

/-! ### Making directories -/

theorem plain_uptoLast {p : Text} (h : Plain p) : Plain (uptoLast '/' p) := by
  rcases not_mem_or_split '/' p with hp | ⟨a, b, rfl, hb⟩
  · rw [uptoLast_of_not_mem hp]
    decide
  · rw [uptoLast_append_cons a hb]
    have hboth := plain_append_iff.mp h
    exact plain_append_iff.mpr ⟨hboth.1, by decide⟩

theorem plain_dirname {p : Text} (h : Plain p) : Plain (dirname p) := by
  unfold dirname
  dsimp only
  split_ifs
  · exact plain_uptoLast h
  · exact plain_rstrip_iff.mpr (plain_uptoLast h)

theorem plain_headTail (h : Plain path) : Plain (headTail path).1 := by
  unfold headTail
  split_ifs
  · exact plain_dirname (plain_dirname h)
  · exact plain_dirname h

theorem basename_ne_dotdot {p : Text} (h : Plain p) : basename p ≠ dotdot := by
  intro hbase
  rcases not_mem_or_split '/' p with hnone | ⟨a, b, rfl, hb⟩
  · rw [basename, afterLast_of_not_mem hnone] at hbase
    rw [hbase] at h
    exact h (by decide)
  · rw [basename, afterLast_append_cons a hb] at hbase
    rw [hbase] at h
    exact (plain_append_iff.mp h).2 (by decide)

/-- Without `".."` the directory part of a path leads to a place above it. -/
theorem location_dirname_above {p : Text} (h : Plain p) : location (dirname p) <+: location p := by
  rw [location_eq_push p]
  unfold push
  split_ifs with hsilent hname
  · rw [List.reverse_reverse]
  · rw [List.reverse_cons, List.reverse_reverse]
    exact List.prefix_append _ _
  · exact absurd (Or.inl (basename_ne_dotdot h)) hname

theorem location_head_above (h : Plain path) : location (headTail path).1 <+: location path := by
  unfold headTail
  split_ifs
  · exact (location_dirname_above (plain_dirname h)).trans (location_dirname_above h)
  · exact location_dirname_above h

/-- What `os.makedirs` makes lies on the way to the path. -/
theorem location_of_mem_toMake (t : Tree β) (n : Nat) (h : Plain path) {made : Text}
    (hmade : made ∈ toMake t n path) : location made <+: location path := by
  induction n generalizing path with
  | zero =>
      rw [toMake, List.mem_singleton] at hmade
      rw [hmade]
  | succ n ih =>
      unfold toMake at hmade
      dsimp only at hmade
      split_ifs at hmade
      · rw [List.mem_singleton.mp hmade]
      · exact (ih (plain_headTail h) hmade).trans (location_head_above h)
      · rcases List.mem_cons.mp hmade with rfl | hmade
        · exact List.prefix_refl _
        · exact (ih (plain_headTail h) hmade).trans (location_head_above h)

theorem sameOutside_makeAll {p : List Text} (hstanding : Standing inside t p) {paths : List Text}
    (hpaths : ∀ made ∈ paths, location made <+: p) : SameOutside inside t (makeAll t paths).2 := by
  induction paths with
  | nil => exact SameOutside.refl inside t
  | cons path above ih =>
      have habove := ih fun made hmade => hpaths made (List.mem_cons_of_mem path hmade)
      rw [makeAll]
      rcases hmake : makeAll t above with ⟨e | _, made⟩
      · rw [hmake] at habove
        exact habove
      · rw [hmake] at habove
        dsimp only
        cases hmkdir : mkdir made path with
        | error e => exact habove
        | ok made' =>
            refine habove.trans ?_
            unfold mkdir at hmkdir
            split_ifs at hmkdir
            cases hnew : made.makedirs (location path) with
            | error e =>
                rw [hnew] at hmkdir
                cases hmkdir
            | ok new =>
                rw [hnew] at hmkdir
                obtain rfl : new = made' := Except.ok.inj hmkdir
                exact sameOutside_makedirs hnew
                  ((hstanding.above (hpaths path List.mem_cons_self)).of_sameOutside habove)

theorem sameOutside_makedirs_path (h : Plain path) (hstanding : Standing inside t (location path)) :
    SameOutside inside t (makedirs t path).2 :=
  sameOutside_makeAll hstanding fun _ hmade => location_of_mem_toMake t path.length h hmade

end PosixFiles
