import StardustFS.P2PServer

/-! The path check of the P2P server against what a source opens. The check joins the requested path to
the normalised root and normalises again; the source joins it to the root as it was configured. -/

namespace Text

/-- The path leads to the root or below it, from the same root of the file system. -/
def AtOrBelow (root p : Text) : Prop :=
  initialSlashes p = initialSlashes root ∧ location root <+: location p

instance (root p : Text) : Decidable (AtOrBelow root p) := inferInstanceAs (Decidable (_ ∧ _))

section

variable {root p : Text}

theorem location_replicate (k : Nat) : location (List.replicate k '/') = [] := by
  rw [location, normNames, splitOn_replicate, foldl_push_replicate]
  rfl

/-- A root that is not the root of the file system goes on after its slashes. -/
theorem exists_first_letter (hne : location root ≠ []) :
    ∃ k c rest, c ≠ '/' ∧ root = List.replicate k '/' ++ c :: rest := by
  have hsplit := List.takeWhile_append_dropWhile (p := (· == '/')) (l := root)
  have hslashes : root.takeWhile (· == '/') =
      List.replicate (root.takeWhile (· == '/')).length '/' := by
    refine List.eq_replicate_length.mpr fun b hb => ?_
    simpa using List.mem_takeWhile_imp hb
  cases hrest : root.dropWhile (· == '/') with
  | nil =>
      rw [hrest, List.append_nil] at hsplit
      exfalso
      apply hne
      rw [← hsplit, hslashes]
      exact location_replicate _
  | cons c rest =>
      refine ⟨_, c, rest, ?_, by rw [← hslashes, ← hrest, hsplit]⟩
      have hfirst := List.head?_dropWhile_not (· == '/') root
      rw [hrest] at hfirst
      simpa using hfirst

theorem initialSlashes_replicate {c : Char} (hc : c ≠ '/') (k : Nat) (rest : Text) :
    initialSlashes (List.replicate k '/' ++ c :: rest) = if k = 0 then 0 else if k = 2 then 2 else 1 := by
  match k with
  | 0 => simp [initialSlashes, hc]
  | 1 => simp [initialSlashes, List.isPrefixOf, hc.symm]
  | 2 => simp [initialSlashes, List.isPrefixOf, List.replicate_succ, hc.symm]
  | k + 3 => simp [initialSlashes, List.isPrefixOf, List.replicate_succ]

/-- The slashes at the beginning are those of the root, whatever is joined to it. -/
theorem initialSlashes_append (hne : location root ≠ []) (more : Text) :
    initialSlashes (root ++ more) = initialSlashes root := by
  obtain ⟨k, c, rest, hc, rfl⟩ := exists_first_letter hne
  rw [List.append_assoc, List.cons_append, initialSlashes_replicate hc, initialSlashes_replicate hc]

/-- A relative path without `".."` leads below every root. -/
theorem atOrBelow_joinPath (hne : location root ≠ []) (hrel : p.head? ≠ some '/') (hplain : Plain p) :
    AtOrBelow root (joinPath root p) := by
  constructor
  · rw [joinPath, if_neg hrel]
    split_ifs
    · exact initialSlashes_append hne p
    · exact initialSlashes_append hne ('/' :: p)
  · rw [location_joinPath hrel hplain]
    exact List.prefix_append _ _

theorem normpath_of_absolute (h : p.head? = some '/') :
    normpath p = spell (initialSlashes p) (location p) := by
  simp only [normpath, bne_iff_ne.mpr (initialSlashes_ne_zero h), location]

/-- What is normalised to the text of the root, or to a text that goes on behind it with a slash, leads to
the root or below it: no other directory has that text in front. -/
theorem atOrBelow_of_normpath (hroot : root.head? = some '/') (hne : location root ≠ [])
    (hp : p.head? = some '/')
    (h : normpath p = normpath root ∨ normpath root ++ ['/'] <+: normpath p) : AtOrBelow root p := by
  have hproper : ∀ q : Text, ∀ name ∈ location q, ProperName name :=
    fun q _ hname => proper_of_mem_location hname
  rw [normpath_of_absolute hroot, normpath_of_absolute hp] at h
  obtain ⟨more, hmore, hbehind⟩ : ∃ more,
      spell (initialSlashes p) (location p) = spell (initialSlashes root) (location root) ++ more ∧
        (more = [] ∨ ∃ rest, more = '/' :: rest) := by
    rcases h with h | ⟨rest, h⟩
    · exact ⟨[], by rw [h, List.append_nil], Or.inl rfl⟩
    · refine ⟨'/' :: rest, ?_, Or.inr ⟨rest, rfl⟩⟩
      rw [← h, List.append_assoc, List.singleton_append]
  have hnep : location p ≠ [] := by
    intro hnil
    -- slashes alone do not have the text of the root in front
    have hslash : ∀ c ∈ spell (initialSlashes root) (location root), c = '/' := by
      intro c hc
      have hmem : c ∈ spell (initialSlashes p) (location p) := hmore ▸ List.mem_append_left more hc
      have hspell : spell (initialSlashes p) [] = List.replicate (initialSlashes p) '/' := by
        obtain ⟨k, hk⟩ := Nat.exists_eq_succ_of_ne_zero (initialSlashes_ne_zero hp)
        rw [hk]
        simp [spell, List.replicate_succ]
      rw [hnil, hspell] at hmem
      exact List.eq_of_mem_replicate hmem
    have hhead := head?_spell_of_pos (initialSlashes_ne_zero hroot) (location root)
    have hsome : spell (initialSlashes root) (location root) ≠ [] := by
      intro hempty
      rw [hempty] at hhead
      cases hhead
    apply getLast?_spell_ne hne (hproper root)
    rw [List.getLast?_eq_some_getLast hsome, hslash _ (List.getLast_mem hsome)]
  have hslashes : initialSlashes p = initialSlashes root := by
    have hcount := initialSlashes_spell_append hnep (hproper p) (initialSlashes_cases hp) []
    rw [List.append_nil, hmore, initialSlashes_spell_append hne (hproper root)
      (initialSlashes_cases hroot)] at hcount
    exact hcount.symm
  refine ⟨hslashes, ?_⟩
  have hsplit := congrArg (List.splitOn '/') hmore
  rw [splitOn_spell hnep (hproper p), hslashes] at hsplit
  rcases hbehind with rfl | ⟨rest, rfl⟩
  · rw [List.append_nil, splitOn_spell hne (hproper root)] at hsplit
    have hsame : location p = location root := List.append_cancel_left hsplit
    exact hsame ▸ List.prefix_refl _
  · rw [List.splitOn_append_cons_self, splitOn_spell hne (hproper root), List.append_assoc] at hsplit
    rw [List.append_cancel_left hsplit]
    exact List.prefix_append _ _

end

end Text

namespace StardustFS

/-- A local source by its configured path. -/
inductive LocalSource where
  | directory (path : Text)
  | loopback (path : Text)
  deriving DecidableEq

namespace LocalSource

/-- The directory beside the file of a loopback source. -/
def companionDir (path : Text) : Text := path ++ ".d".toList

/-- `_source_data_root`. -/
def sourceDataRoot : LocalSource → Text
  | .directory path => path
  | .loopback path => companionDir path

/-- `_resolve`. -/
def resolve : LocalSource → Text → Text
  | .directory path, physicalPath => Text.joinPath path physicalPath
  | .loopback path, physicalPath => Text.joinPath (companionDir path) physicalPath

theorem resolve_eq (s : LocalSource) (p : Text) : s.resolve p = Text.joinPath s.sourceDataRoot p := by
  cases s <;> rfl

end LocalSource

namespace P2PServer

open Text

/-- What the check accepts, the source opens at or below its root. -/
theorem atOrBelow_of_validatePathErr {root p : Text} (hroot : root.head? = some '/')
    (hne : location root ≠ []) (h : validatePathErr (.str p) root = none) :
    AtOrBelow root (joinPath root p) := by
  obtain ⟨p', hp', -, hplain, hinside⟩ := plain_of_validatePathErr h
  obtain rfl : p = p' := by simpa using hp'
  by_cases habsolute : p.head? = some '/'
  · rw [joinPath_of_absolute habsolute] at hinside ⊢
    exact atOrBelow_of_normpath hroot hne habsolute hinside
  · exact atOrBelow_joinPath hne habsolute hplain

/-- A root that does not normalise to slashes alone has a name. -/
theorem location_ne_nil {root : Text} (hroot : root.head? = some '/')
    (hone : normpath root ≠ ['/']) (htwo : normpath root ≠ ['/', '/']) : location root ≠ [] := by
  intro hnil
  rw [normpath_of_absolute hroot, hnil] at hone htwo
  rcases initialSlashes_cases hroot with h | h
  · exact hone (by rw [h]; rfl)
  · exact htwo (by rw [h]; rfl)

/-- **The path check** of a source is sound and complete: an accepted path is opened at or below the data
root, and a relative path without `".."` is accepted. -/
theorem validatePathErr_sound_complete (s : LocalSource) (p : Text)
    (hroot : s.sourceDataRoot.head? = some '/') (hone : normpath s.sourceDataRoot ≠ ['/'])
    (htwo : normpath s.sourceDataRoot ≠ ['/', '/']) :
    (validatePathErr (.str p) s.sourceDataRoot = none → AtOrBelow s.sourceDataRoot (s.resolve p)) ∧
      (p ≠ [] → p.head? ≠ some '/' → Plain (turnBackslashes p) →
        validatePathErr (.str p) s.sourceDataRoot = none) := by
  have hne := location_ne_nil hroot hone htwo
  rw [s.resolve_eq]
  exact ⟨atOrBelow_of_validatePathErr hroot hne, validatePathErr_eq_none hroot hne⟩

/-- A loopback source, and a path below its companion directory that is asked for as an absolute one. -/
theorem validatePathErr_loopback :
    AtOrBelow "/srv/vault.img.d".toList
      ((LocalSource.loopback "/srv/vault.img".toList).resolve "/srv/vault.img.d/a".toList) ∧
    validatePathErr (.str "a/b".toList)
      (LocalSource.loopback "/srv/vault.img".toList).sourceDataRoot = none :=
  ⟨(validatePathErr_sound_complete (.loopback "/srv/vault.img".toList) "/srv/vault.img.d/a".toList
      (by decide) (by decide) (by decide)).1 (by decide),
    (validatePathErr_sound_complete (.loopback "/srv/vault.img".toList) "a/b".toList
      (by decide) (by decide) (by decide)).2 (by decide) (by decide) (by decide)⟩

end P2PServer

end StardustFS
