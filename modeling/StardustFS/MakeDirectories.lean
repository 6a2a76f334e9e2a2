import StardustFS.PosixFrames

/-! `os.makedirs` below a directory, for a path whose parts are names. It makes what one call on the tree
makes, or leaves the tree as it is and ends with the same error. -/

namespace Text

/-- Every part of the path is a name. -/
def Tidy (p : Text) : Prop := ∀ name ∈ p.splitOn '/', ProperName name

instance (name : Text) : Decidable (ProperName name) :=
  inferInstanceAs (Decidable (_ ∧ _ ∧ _))

instance (p : Text) : Decidable (Tidy p) := inferInstanceAs (Decidable (∀ _ ∈ _, _))

namespace Tidy

variable {p a b : Text}

theorem plain (h : Tidy p) : Plain p := fun hmem => (h dotdot hmem).2.1 rfl

theorem steps_eq (h : Tidy p) : steps p = p.splitOn '/' :=
  List.filter_eq_self.mpr fun name hname => decide_eq_true (h name hname).1

theorem steps_ne_nil (h : Tidy p) : steps p ≠ [] := by
  rw [h.steps_eq]
  exact List.splitOn_ne_nil '/' p

theorem ne_nil (h : Tidy p) : p ≠ [] := by
  rintro rfl
  exact (h [] (by simp)).1 (Or.inl rfl)

theorem append_iff : Tidy (a ++ '/' :: b) ↔ Tidy a ∧ Tidy b := by
  unfold Tidy
  rw [List.splitOn_append_cons_self, List.forall_mem_append]

theorem relative (h : Tidy p) : p.head? ≠ some '/' := by
  intro hhead
  obtain ⟨c, rest, rfl⟩ := List.exists_cons_of_ne_nil h.ne_nil
  obtain rfl := Option.some.inj hhead
  exact (append_iff (a := []) (b := rest)).mp h |>.1.ne_nil rfl

theorem name_iff (hb : '/' ∉ b) : Tidy b ↔ ProperName b := by
  unfold Tidy
  rw [List.splitOn_eq_singleton hb, List.forall_mem_singleton]

/-- The last character belongs to a name. -/
theorem getLast?_ne (h : Tidy p) : p.getLast? ≠ some '/' := by
  intro hlast
  obtain ⟨init, rfl⟩ : ∃ init, p = init ++ ['/'] :=
    ⟨p.dropLast, (List.dropLast_append_getLast? '/' hlast).symm⟩
  exact ((append_iff.mp h).2 [] (by simp)).1 (Or.inl rfl)

end Tidy

/-- Below a root, a path with one more name. -/
theorem joinPath_append {root a b : Text} (ha : Tidy a) :
    joinPath root (a ++ '/' :: b) = joinPath root a ++ '/' :: b := by
  have hhead : (a ++ '/' :: b).head? ≠ some '/' := by
    rw [List.head?_append_of_ne_nil _ ha.ne_nil]
    exact ha.relative
  rw [joinPath, joinPath, if_neg hhead, if_neg ha.relative]
  split_ifs
  · rw [List.append_assoc]
  · rw [List.append_assoc, List.cons_append]

theorem joinPath_append_slashes {root p : Text} (hp : Tidy p) (k : Nat) :
    joinPath root (p ++ List.replicate k '/') = joinPath root p ++ List.replicate k '/' := by
  have hhead : (p ++ List.replicate k '/').head? ≠ some '/' := by
    rw [List.head?_append_of_ne_nil _ hp.ne_nil]
    exact hp.relative
  rw [joinPath, joinPath, if_neg hhead, if_neg hp.relative]
  split_ifs
  · rw [List.append_assoc]
  · rw [List.append_assoc, List.cons_append]

theorem getLast?_joinPath_ne (root : Text) {p : Text} (hp : Tidy p) : (joinPath root p).getLast? ≠ some '/' := by
  rw [joinPath, if_neg hp.relative]
  split_ifs
  · rw [List.getLast?_append_of_ne_nil _ hp.ne_nil]
    exact hp.getLast?_ne
  · rw [List.getLast?_append_of_ne_nil _ (List.cons_ne_nil _ _), List.getLast?_cons_of_ne_nil hp.ne_nil]
    exact hp.getLast?_ne

end Text

namespace PosixFiles

open Text

variable {β : Type*} {t : Tree β} {path root p : Text}

instance (path : Text) : Decidable (Fits path) := inferInstanceAs (Decidable (_ ∧ _))

/-! ### The heads of a path -/

theorem dirname_above (path : Text) : dirname path <+: path :=
  (dirname_prefix_uptoLast path).trans ⟨afterLast '/' path, uptoLast_append_afterLast '/' path⟩

theorem headTail_above (path : Text) : (headTail path).1 <+: path := by
  unfold headTail
  split_ifs
  · exact (dirname_above (dirname path)).trans (dirname_above path)
  · exact dirname_above path

theorem above_of_mem_toMake (t : Tree β) (n : Nat) {made : Text} (hmade : made ∈ toMake t n path) :
    made <+: path := by
  induction n generalizing path with
  | zero =>
      rw [toMake, List.mem_singleton] at hmade
      rw [hmade]
  | succ n ih =>
      unfold toMake at hmade
      dsimp only at hmade
      split_ifs at hmade
      · rw [List.mem_singleton.mp hmade]
      · exact (ih hmade).trans (headTail_above path)
      · rcases List.mem_cons.mp hmade with rfl | hmade
        · exact List.prefix_refl _
        · exact (ih hmade).trans (headTail_above path)

theorem byteSize_le_of_above {made : Text} (h : made <+: path) : byteSize made ≤ byteSize path := by
  obtain ⟨rest, rfl⟩ := h
  rw [byteSize, byteSize, List.map_append, List.sum_append]
  exact Nat.le_add_right _ _

theorem hasNull_of_above {made : Text} (h : made <+: path) (hnull : hasNull path = false) :
    hasNull made = false := by
  obtain ⟨rest, rfl⟩ := h
  rw [hasNull_append, Bool.or_eq_false_iff] at hnull
  exact hnull.1

theorem Fits.above {made : Text} (h : Fits path) (habove : made <+: path)
    (hlocation : location made <+: location path) : Fits made :=
  ⟨(byteSize_le_of_above habove).trans_lt h.1, fun name hname => h.2 name (hlocation.subset hname)⟩

/-- The head and the tail of a path that ends in a name. -/
theorem headTail_of_name (h : ProperName (basename path)) : headTail path = (dirname path, basename path) :=
  if_neg h.ne_nil

theorem location_append_slashes (path : Text) (k : Nat) :
    location (path ++ List.replicate k '/') = location path := by
  induction k with
  | zero => rw [List.replicate_zero, List.append_nil]
  | succ k ih => rw [List.replicate_succ', ← List.append_assoc, location_append_slash, ih]

theorem plain_append_slashes (h : Plain path) (k : Nat) : Plain (path ++ List.replicate k '/') := by
  induction k with
  | zero => rwa [List.replicate_zero, List.append_nil]
  | succ k ih =>
      rw [List.replicate_succ', ← List.append_assoc]
      exact plain_append_iff.mpr ⟨ih, by decide⟩

theorem hasNull_append_slashes (path : Text) (k : Nat) :
    hasNull (path ++ List.replicate k '/') = hasNull path := by
  rw [hasNull_append, hasNull_replicate_slash, Bool.or_false]

/-- Slashes behind a name do not change the head and the tail. -/
theorem headTail_append_slashes (h : ProperName (basename path)) (k : Nat) :
    headTail (path ++ List.replicate k '/') = (dirname path, basename path) := by
  cases k with
  | zero =>
      rw [List.replicate_zero, List.append_nil]
      exact headTail_of_name h
  | succ k =>
      have hne : path ≠ [] := by
        rintro rfl
        exact h.ne_nil rfl
      have hends : endsWith path '/' = false := by
        rw [endsWith, beq_eq_false_iff_ne]
        intro hlast
        obtain ⟨init, rfl⟩ : ∃ init, path = init ++ ['/'] :=
          ⟨path.dropLast, (List.dropLast_append_getLast? '/' hlast).symm⟩
        rw [basename, afterLast_append_cons init (by simp)] at h
        exact h.ne_nil rfl
      have hsplit : path ++ List.replicate (k + 1) '/' = (path ++ List.replicate k '/') ++ '/' :: [] := by
        rw [List.replicate_succ', List.append_assoc]
      have hbase : basename (path ++ List.replicate (k + 1) '/') = [] := by
        rw [hsplit, basename, afterLast_append_cons _ (by simp)]
      have hup : uptoLast '/' (path ++ List.replicate (k + 1) '/') = path ++ List.replicate (k + 1) '/' := by
        have happ := uptoLast_append_afterLast '/' (path ++ List.replicate (k + 1) '/')
        rw [basename] at hbase
        rwa [hbase, List.append_nil] at happ
      have hall : ¬(path ++ List.replicate (k + 1) '/').all (· == '/') = true := by
        intro hall
        have hmem := List.all_eq_true.mp hall _ (List.mem_append_left _ (List.getLast_mem hne))
        rw [endsWith, List.getLast?_eq_some_getLast hne, beq_iff_eq.mp hmem] at hends
        cases hends
      have hdir : dirname (path ++ List.replicate (k + 1) '/') = path := by
        rw [dirname, hup, if_neg hall, rstrip, List.rdropWhile]
        have hstrip := rstrip_of_not_endsWith hends
        rw [rstrip, List.rdropWhile] at hstrip
        rw [List.reverse_append, List.reverse_replicate,
          List.dropWhile_append_of_pos fun c hc => by simp [List.eq_of_mem_replicate hc], hstrip]
      rw [headTail, if_pos hbase, hdir]

theorem location_of_name (h : ProperName (basename path)) :
    location path = location (dirname path) ++ [basename path] := by
  rw [location_eq_push path, push, if_neg h.1, if_pos (Or.inl h.2.1), List.reverse_cons, List.reverse_reverse]

theorem splitOn_eq_concat_basename (path : Text) : ∃ init, path.splitOn '/' = init ++ [basename path] := by
  rcases not_mem_or_split '/' path with hnone | ⟨a, b, rfl, hb⟩
  · rw [basename, afterLast_of_not_mem hnone, List.splitOn_eq_singleton hnone]
    exact ⟨[], rfl⟩
  · rw [basename, afterLast_append_cons a hb, List.splitOn_append_cons_self, List.splitOn_eq_singleton hb]
    exact ⟨_, rfl⟩

/-- A path that ends in a name can be a file's. -/
theorem endsAsDirectory_of_name (h : ProperName (basename path)) : endsAsDirectory path = false := by
  obtain ⟨init, hinit⟩ := splitOn_eq_concat_basename path
  rw [endsAsDirectory, hinit, List.getLast?_concat, decide_eq_false_iff_not]
  exact h.1

theorem endsInDot_of_name (h : ProperName (basename path)) (k : Nat) :
    endsInDot (path ++ List.replicate k '/') = false := by
  have hfilter : ((path ++ List.replicate k '/').splitOn '/').filter (· ≠ []) =
      (path.splitOn '/').filter (· ≠ []) := by
    induction k with
    | zero => rw [List.replicate_zero, List.append_nil]
    | succ k ih =>
        rw [List.replicate_succ', ← List.append_assoc, List.splitOn_append_cons_self, List.filter_append, ih,
          List.splitOn_nil]
        exact List.append_nil _
  obtain ⟨init, hinit⟩ := splitOn_eq_concat_basename path
  rw [endsInDot, hfilter, hinit, List.filter_append, List.filter_singleton,
    decide_eq_true h.ne_nil, cond_true, List.getLast?_concat, beq_eq_false_iff_ne]
  intro hdot
  exact h.1 (Or.inr (Option.some.inj hdot))

/-- Below a root, the base name is a name. -/
theorem properName_basename (root : Text) (hp : Tidy p) : ProperName (basename (joinPath root p)) := by
  rcases not_mem_or_split '/' p with hnone | ⟨a, b, rfl, hb⟩
  · have hproper := (Tidy.name_iff hnone).mp hp
    have hbase : basename (joinPath root p) = p := by
      rw [joinPath, if_neg hp.relative]
      split_ifs with hroot
      · rcases hroot with rfl | hlast
        · rw [List.nil_append, basename, afterLast_of_not_mem hnone]
        · obtain ⟨init, rfl⟩ : ∃ init, root = init ++ ['/'] :=
            ⟨root.dropLast, (List.dropLast_append_getLast? '/' hlast).symm⟩
          rw [List.append_assoc, List.singleton_append, basename, afterLast_append_cons init hnone]
      · rw [basename, afterLast_append_cons root hnone]
    rw [hbase]
    exact hproper
  · obtain ⟨ha, hname⟩ := Tidy.append_iff.mp hp
    rw [joinPath_append ha, basename, afterLast_append_cons _ hb]
    exact (Tidy.name_iff hb).mp hname

/-- The head of a path with one more name is the path without it. -/
theorem dirname_joinPath_append (root : Text) {a b : Text} (ha : Tidy a) (hb : '/' ∉ b) :
    dirname (joinPath root (a ++ '/' :: b)) = joinPath root a := by
  have hlast := getLast?_joinPath_ne root ha
  have hne : joinPath root a ≠ [] := by
    intro hnil
    rw [joinPath, if_neg ha.relative] at hnil
    split_ifs at hnil
    · exact ha.ne_nil (List.append_eq_nil_iff.mp hnil).2
    · simp at hnil
  rw [joinPath_append ha]
  have hends : endsWith (joinPath root a) '/' = false := by
    rw [endsWith, beq_eq_false_iff_ne]
    exact hlast
  have hall : ¬(joinPath root a ++ ['/']).all (· == '/') = true := by
    intro hall
    have hmem := List.all_eq_true.mp hall _ (List.mem_append_left _ (List.getLast_mem hne))
    apply hlast
    rw [List.getLast?_eq_some_getLast hne, beq_iff_eq.mp hmem]
  rw [dirname, uptoLast_append_cons _ hb, if_neg hall, rstrip, List.rdropWhile_concat_pos _ _ _ rfl]
  exact rstrip_of_not_endsWith hends

/-! ### What one call on the tree makes -/

/-- A head that is there, as a directory or as a file at its name. -/
theorem pathExists_of_node (hfits : Fits path) (hnull : hasNull path = false)
    (h : t.isDirectory (location path) = true ∨
      endsAsDirectory path = false ∧ t.isFile (location path) = true) : pathExists t path = true := by
  rw [pathExists, Bool.or_eq_true, isdir_iff, isfile_iff]
  rcases h with hdir | ⟨hends, hfile⟩
  · exact Or.inl ⟨hnull, not_tooLong_of_fits hfits, hdir⟩
  · exact Or.inr ⟨hnull, not_tooLong_of_fits hfits, hends, hfile⟩

/-- Above a node are no files. -/
theorem isFile_above_node {q k : List Text} (h : (t.get k).isSome) (hq : q <+: k) (hne : q ≠ k) :
    t.isFile q = false := by
  obtain ⟨node, hnode⟩ := Option.isSome_iff_exists.mp h
  have hget : t.get q = some .directory := t.closed k node hnode q hq hne
  rw [DirectoryTree.isFile, DirectoryTree.file?, hget]
  rfl

theorem isSome_of_isFile {k : List Text} (h : t.isFile k = true) : (t.get k).isSome := by
  obtain ⟨b, hb⟩ := Option.isSome_iff_exists.mp h
  rw [DirectoryTree.file?_eq_some_iff.mp hb]
  rfl

theorem dropLast_ne {k : List Text} (h : k ≠ []) : k.dropLast ≠ k := by
  intro heq
  have hlength := congrArg List.length heq
  have := List.length_pos_of_ne_nil h
  rw [List.length_dropLast] at hlength
  omega

/-- A file lies in a directory. -/
theorem isDirectory_parent_of_isFile (hroot : t.isDirectory [] = true) {k : List Text}
    (h : t.isFile k = true) : t.isDirectory k.dropLast = true := by
  have hne : k ≠ [] := by
    rintro rfl
    have hget := DirectoryTree.isDirectory_iff.mp hroot
    rw [DirectoryTree.isFile, DirectoryTree.file?, hget] at h
    cases h
  obtain ⟨node, hnode⟩ := Option.isSome_iff_exists.mp (isSome_of_isFile h)
  rw [DirectoryTree.isDirectory_iff]
  exact t.closed k node hnode _ (List.dropLast_prefix k) (dropLast_ne hne)

/-- What a file at the path or on the way to it raises. -/
def blocked (t : Tree β) (path : Text) : DirectoryTree.Error :=
  if t.isFile (location path) then .fileExists else .notADirectory

/-- One directory, where a file is in the way. -/
theorem mkdir_blocked (hroot : t.isDirectory [] = true) (hfits : Fits path) (hnull : hasNull path = false)
    (hfile : (location path).inits.any t.isFile = true) :
    mkdir t path = .error (.os (blocked t path)) := by
  rw [mkdir, hnull, not_tooLong_of_fits hfits, blocked]
  simp only [Bool.false_eq_true, if_false]
  by_cases hparent : t.isDirectory (location path).dropLast = true
  · rw [if_pos hparent, DirectoryTree.makedirs, dif_pos hfile]
    rfl
  · have hself : ¬t.isFile (location path) = true := fun h =>
      hparent (isDirectory_parent_of_isFile hroot h)
    rw [if_neg hparent, if_neg hself, DirectoryTree.missing, if_pos hfile]

theorem makeAll_one_blocked (hroot : t.isDirectory [] = true) (hfits : Fits path)
    (hnull : hasNull path = false) (hfile : (location path).inits.any t.isFile = true) :
    makeAll t [path] = (.error (.os (blocked t path)), t) := by
  rw [makeAll, makeAll]
  simp only [mkdir_blocked hroot hfits hnull hfile]

section Below

variable (hroot : t.isDirectory [] = true) (habove : ∀ q, q <+: location root → t.isFile q = false)
include hroot habove

/-- **A file in the way.** By induction on the heads of the path: what is made first fails, since the file
is there in its place or above it. -/
theorem makeAll_blocked (n k : Nat) (hn : (joinPath root p).length ≤ n) (hp : Tidy p)
    (hfits : Fits (joinPath root p ++ List.replicate k '/'))
    (hnull : hasNull (joinPath root p) = false)
    (hfile : (location (joinPath root p)).inits.any t.isFile = true) :
    makeAll t (toMake t n (joinPath root p ++ List.replicate k '/')) =
      (.error (.os (blocked t (joinPath root p))), t) := by
  have hsame := location_append_slashes (joinPath root p) k
  have hone : makeAll t [joinPath root p ++ List.replicate k '/'] =
      (.error (.os (blocked t (joinPath root p))), t) := by
    have := makeAll_one_blocked hroot hfits ((hasNull_append_slashes _ k).trans hnull) (hsame ▸ hfile)
    rwa [blocked, hsame] at this
  induction n generalizing p k with
  | zero => exact hone
  | succ n ih =>
      have hbase := properName_basename root hp
      have hlocation := location_of_name hbase
      unfold toMake
      rw [headTail_append_slashes hbase]
      dsimp only
      split_ifs with hstop hdot
      · exact hone
      · exact absurd (Or.inr hdot) hbase.1
      · rw [not_or, not_or] at hstop
        have hheadAbove := dirname_above (joinPath root p)
        have hheadFits : Fits (dirname (joinPath root p)) := by
          refine hfits.above (hheadAbove.trans (List.prefix_append _ _)) ?_
          rw [hsame, hlocation]
          exact List.prefix_append _ _
        have hheadNull := hasNull_of_above hheadAbove hnull
        -- the head is neither a directory nor a file, so the file is further up
        have hself : t.isFile (location (joinPath root p)) = false := by
          rw [← Bool.not_eq_true]
          intro h
          have hdir := isDirectory_parent_of_isFile hroot h
          rw [hlocation, List.dropLast_concat] at hdir
          exact hstop.2.2 (pathExists_of_node hheadFits hheadNull (Or.inl hdir))
        obtain ⟨q, hq, hfileq⟩ := List.any_eq_true.mp hfile
        have hqpath := (List.mem_inits _ _).mp hq
        have hqhead : q <+: location (dirname (joinPath root p)) := by
          rw [hlocation] at hqpath
          rcases List.prefix_concat_iff.mp hqpath with h | h
          · rw [h, ← hlocation, hself] at hfileq
            cases hfileq
          · exact h
        rcases not_mem_or_split '/' p with hnone | ⟨a, b, rfl, hb⟩
        · -- one name below the root: above it is no file
          have hdown : location (joinPath root p) = location root ++ [p] := by
            rw [location_joinPath hp.relative hp.plain, hp.steps_eq, List.splitOn_eq_singleton hnone]
          have hhead : location (dirname (joinPath root p)) = location root := by
            have hdrop := congrArg List.dropLast (hlocation.symm.trans hdown)
            rwa [List.dropLast_concat, List.dropLast_concat] at hdrop
          rw [habove q (hhead ▸ hqhead)] at hfileq
          cases hfileq
        · obtain ⟨ha, hname⟩ := Tidy.append_iff.mp hp
          rw [dirname_joinPath_append root ha hb] at hqhead hheadFits hheadNull hstop ⊢
          have hheadFile : t.isFile (location (joinPath root a)) = false := by
            rw [← Bool.not_eq_true]
            intro h
            have hends := endsAsDirectory_of_name (properName_basename root ha)
            exact hstop.2.2 (pathExists_of_node hheadFits hheadNull (Or.inr ⟨hends, h⟩))
          have hlength : (joinPath root a).length ≤ n := by
            rw [joinPath_append ha, List.length_append, List.length_cons] at hn
            omega
          have hheadBlocked : (location (joinPath root a)).inits.any t.isFile = true :=
            List.any_eq_true.mpr ⟨q, (List.mem_inits _ _).mpr hqhead, hfileq⟩
          have hblocked := ih 0 hlength ha (by simpa using hheadFits) hheadNull hheadBlocked
            (location_append_slashes _ 0) (by
              rw [List.replicate_zero, List.append_nil]
              exact makeAll_one_blocked hroot hheadFits hheadNull hheadBlocked)
          rw [List.replicate_zero, List.append_nil] at hblocked
          rw [makeAll, hblocked, blocked, blocked, hheadFile, hself]

end Below

theorem get_eq_none_of {q : List Text} (hfile : t.isFile q = false) (hdir : ¬t.isDirectory q = true) :
    t.get q = none := by
  cases hnode : t.get q with
  | none => rfl
  | some node =>
      cases node with
      | directory => exact absurd (DirectoryTree.isDirectory_iff.mpr hnode) hdir
      | file b =>
          rw [DirectoryTree.isFile, DirectoryTree.file?_eq_some_iff.mpr hnode] at hfile
          cases hfile

/-- **No file in the way.** What is made is what one call on the tree makes. -/
theorem makedirs_clear (hroot : t.isDirectory [] = true) (hplain : Plain path) (hfits : Fits path)
    (hnull : hasNull path = false) (hno : NoFile t path) : ∃ made tree,
      makedirs t path = (.ok (), made) ∧ t.makedirs (location path) = .ok tree ∧
        ∀ q, made.get q = tree.get q := by
  have hclear : Clear t (toMake t path.length path) := by
    intro made hmade _
    have hlocation := location_of_mem_toMake t path.length hplain hmade
    exact ⟨hfits.above (above_of_mem_toMake t path.length hmade) hlocation,
      fun q hq => hno q (hq.trans hlocation)⟩
  obtain ⟨tree, htree⟩ := DirectoryTree.makedirs_eq_ok_iff.mpr (noFile_iff.mp hno)
  have hmaking := making_makedirs hroot path
  have hsame : SameOutside (fun q => t.get q = none) t (makedirs t path).2 := by
    refine sameOutside_makedirs_path hplain fun q hq hthere => ?_
    obtain ⟨node, hnode⟩ := Option.ne_none_iff_exists'.mp hthere
    have hnofile := hno q hq
    cases node with
    | directory => exact DirectoryTree.isDirectory_iff.mpr hnode
    | file b =>
        rw [DirectoryTree.isFile, DirectoryTree.file?_eq_some_iff.mpr hnode] at hnofile
        cases hnofile
  revert hsame hmaking
  generalize makedirs t path = result
  intro hmaking hsame
  cases hmaking with
  | null made h => rw [hnull] at h; cases h
  | broken e made he h => exact absurd hclear h
  | made made hnull hclear hmade hthere =>
      refine ⟨made, tree, rfl, htree, fun q => ?_⟩
      rw [DirectoryTree.get_makedirs htree]
      split_ifs with hnew
      · exact DirectoryTree.isDirectory_iff.mp (isDirectory_above hthere hnew.2)
      · by_cases hnone : t.get q = none
        · have hnofile : made.isFile q = false := by
            rw [hmade.isFile, DirectoryTree.isFile, DirectoryTree.file?, hnone]
            rfl
          have hnodir : ¬made.isDirectory q = true := by
            rw [hmade.isDirectory, DirectoryTree.isDirectory_iff, hnone]
            rintro (h | ⟨head, hhead, hq⟩)
            · cases h
            · exact hnew ⟨hnone, hq.trans (location_of_mem_toMake t path.length hplain hhead)⟩
          rw [hnone]
          exact get_eq_none_of hnofile hnodir
        · exact hsame q hnone

/-- **`os.makedirs` below a root**, for a path of names that may end in slashes. -/
theorem makedirs_below (hroot : t.isDirectory [] = true) (habove : ∀ q, q <+: location root → t.isFile q = false)
    (hrootPlain : Plain root) {k : Nat} (hp : Tidy p)
    (hfits : Fits (joinPath root p ++ List.replicate k '/')) (hnull : hasNull (joinPath root p) = false) :
    (∃ made tree, makedirs t (joinPath root p ++ List.replicate k '/') = (.ok (), made) ∧
      t.makedirs (location (joinPath root p)) = .ok tree ∧ ∀ q, made.get q = tree.get q) ∨
    ∃ e, makedirs t (joinPath root p ++ List.replicate k '/') = (.error (.os e), t) ∧
      t.makedirs (location (joinPath root p)) = .error e := by
  have hsame := location_append_slashes (joinPath root p) k
  by_cases hfile : (location (joinPath root p)).inits.any t.isFile = true
  · refine Or.inr ⟨blocked t (joinPath root p), ?_, ?_⟩
    · refine makeAll_blocked hroot habove _ k ?_ hp hfits hnull hfile
      rw [List.length_append]
      exact Nat.le_add_right _ _
    · rw [DirectoryTree.makedirs, dif_pos hfile, blocked]
  · left
    have hplain : Plain (joinPath root p ++ List.replicate k '/') :=
      plain_append_slashes (plain_joinPath hrootPlain hp.plain) k
    rw [← hsame]
    refine makedirs_clear hroot hplain hfits ((hasNull_append_slashes _ k).trans hnull) ?_
    rw [noFile_iff, hsame]
    simpa using hfile

end PosixFiles
