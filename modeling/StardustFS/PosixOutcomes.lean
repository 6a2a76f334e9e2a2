import StardustFS.PathCheck
import StardustFS.PosixFiles

/-! What the calls on the text of a path come to, by what is there before: whether they end with the
exception for a null character, with the one for a missing file or with another `OSError`. `os.makedirs`
makes the heads of a path one after the other, and each of them can end it. -/

namespace Text

/-! ### The head of a path -/

theorem location_append_slash (a : Text) : location (a ++ ['/']) = location a := by
  unfold location normNames
  rw [List.splitOn_append_cons_self, List.splitOn_nil, List.foldl_append, List.foldl_cons,
    List.foldl_nil, push_nil]

theorem location_rstrip (p : Text) : location (rstrip '/' p) = location p := by
  obtain ⟨k, hk⟩ := exists_rstrip_append '/' p
  generalize rstrip '/' p = q at hk
  subst hk
  induction k with
  | zero => rw [List.replicate_zero, List.append_nil]
  | succ k ih => rw [List.replicate_succ', ← List.append_assoc, location_append_slash, ih]

/-- A path leads from where its directory part leads by its base name. -/
theorem location_eq_push (p : Text) :
    location p = (push true (location (dirname p)).reverse (basename p)).reverse := by
  rcases not_mem_or_split '/' p with hp | ⟨a, b, rfl, hb⟩
  · rw [dirname_of_not_mem hp, basename, afterLast_of_not_mem hp]
    simp [location, normNames, List.splitOn_eq_singleton hp, push_nil]
  · have hhead : location (dirname (a ++ '/' :: b)) = location a := by
      unfold dirname
      dsimp only
      rw [uptoLast_append_cons a hb]
      split_ifs
      · exact location_append_slash a
      · rw [location_rstrip, location_append_slash]
    rw [hhead, basename, afterLast_append_cons a hb, location, location, normNames, normNames,
      List.splitOn_append_cons_self, List.splitOn_eq_singleton hb, List.foldl_append, List.reverse_reverse]
    rfl

/-- From a place, one name leads to the place, below it or above it. -/
theorem dropLast_push (names : List Text) (name : Text) :
    (push true names.reverse name).reverse.dropLast <+: names := by
  unfold push
  split_ifs
  · rw [List.reverse_reverse]
    exact List.dropLast_prefix names
  · rw [List.reverse_cons, List.reverse_reverse, List.dropLast_concat]
  · rw [List.tail_reverse, List.reverse_reverse]
    exact (List.dropLast_prefix _).trans (List.dropLast_prefix names)

theorem dirname_prefix_uptoLast (p : Text) : dirname p <+: uptoLast '/' p := by
  unfold dirname
  dsimp only
  split_ifs
  · exact List.prefix_refl _
  · exact List.rdropWhile_prefix _ _

theorem length_dirname_add_basename_le (p : Text) :
    (dirname p).length + (basename p).length ≤ p.length := by
  have happ := congrArg List.length (uptoLast_append_afterLast '/' p)
  have hle := (dirname_prefix_uptoLast p).length_le
  rw [List.length_append] at happ
  rw [basename]
  omega

/-- A directory part without a base name is nothing but slashes. -/
theorem location_of_basename_dirname {p : Text} (hnil : basename (dirname p) = []) :
    location (dirname p) = [] := by
  by_cases hempty : dirname p = []
  · rw [hempty]
    rfl
  · have hlast : (dirname p).getLast? = some '/' := by
      have happ := uptoLast_append_afterLast '/' (dirname p)
      rw [basename] at hnil
      rw [hnil, List.append_nil] at happ
      have hne : uptoLast '/' (dirname p) ≠ [] := by
        rw [happ]
        exact hempty
      rw [← happ, List.getLast?_eq_some_getLast hne, getLast_uptoLast hne]
    have hall := all_of_getLast_dirname hlast
    have hrep : dirname p = List.replicate (dirname p).length '/' := by
      refine List.eq_replicate_length.mpr fun c hc => ?_
      simpa using List.all_eq_true.mp hall c hc
    rw [hrep]
    exact location_replicate _

end Text

namespace PosixFiles

open Text

variable {β : Type*} {t made : Tree β} {path : Text}

theorem location_headTail (path : Text) :
    location path
      = (push true (location (headTail path).1).reverse (headTail path).2).reverse := by
  unfold headTail
  split_ifs with hbase
  · rw [location_eq_push path, hbase, push_nil, List.reverse_reverse]
    exact location_eq_push (dirname path)
  · exact location_eq_push path

theorem length_headTail_lt {path : Text} (h : (headTail path).2 ≠ []) :
    (headTail path).1.length < path.length := by
  have hone := length_dirname_add_basename_le path
  have htwo := length_dirname_add_basename_le (dirname path)
  unfold headTail at h ⊢
  split_ifs at h ⊢
  · have := List.length_pos_of_ne_nil h
    dsimp only at this ⊢
    omega
  · have := List.length_pos_of_ne_nil h
    dsimp only at this ⊢
    omega

/-- A path without a last name is the root. -/
theorem location_of_tail_nil (h : (headTail path).2 = []) : location path = [] := by
  unfold headTail at h
  split_ifs at h with hbase
  · rw [location_eq_push path, hbase, push_nil, List.reverse_reverse]
    exact location_of_basename_dirname h
  · exact absurd h hbase

/-! ### Null characters -/

theorem hasNull_append (a b : Text) : hasNull (a ++ b) = (hasNull a || hasNull b) := by
  unfold hasNull
  exact List.contains_append

theorem hasNull_replicate_slash (k : Nat) : hasNull (List.replicate k '/') = false := by
  unfold hasNull
  rw [List.contains_eq_mem, decide_eq_false_iff_not, List.mem_replicate]
  exact fun h => absurd h.2 (by decide)

theorem hasNull_rstrip (path : Text) : hasNull (rstrip '/' path) = hasNull path := by
  obtain ⟨k, hk⟩ := exists_rstrip_append '/' path
  conv_rhs => rw [hk]
  rw [hasNull_append, hasNull_replicate_slash, Bool.or_false]

theorem hasNull_dirname (path : Text) :
    hasNull path = (hasNull (dirname path) || hasNull (basename path)) := by
  have hup : hasNull (dirname path) = hasNull (uptoLast '/' path) := by
    unfold dirname
    dsimp only
    split_ifs
    · rfl
    · exact hasNull_rstrip _
  rw [hup, basename, ← hasNull_append, uptoLast_append_afterLast]

theorem hasNull_headTail (path : Text) :
    hasNull path = (hasNull (headTail path).1 || hasNull (headTail path).2) := by
  unfold headTail
  split_ifs with hbase
  · rw [hasNull_dirname path, hbase, hasNull_dirname (dirname path)]
    exact Bool.or_false _
  · exact hasNull_dirname path

/-! ### What one directory takes -/

/-- The path and its names have the lengths that the file system takes. -/
def Fits (path : Text) : Prop :=
  byteSize path < pathMax ∧ ∀ name ∈ location path, byteSize name ≤ nameMax

/-- No regular file is at the path or on the way to it. -/
def NoFile (t : Tree β) (path : Text) : Prop := ∀ q, q <+: location path → t.isFile q = false

/-- Every one of the paths that has no null character fits, and leads past no regular file. -/
def Clear (t : Tree β) (paths : List Text) : Prop :=
  ∀ path ∈ paths, hasNull path = false → Fits path ∧ NoFile t path

/-- An `OSError`, and not the one for a missing file. -/
def Breaks (e : Raised) : Prop := e ≠ .nullCharacter ∧ e ≠ .os .fileNotFound

theorem not_tooLong_of_fits (h : Fits path) : tooLong t path = false := by
  rw [← Bool.not_eq_true, tooLong, Bool.or_eq_true, decide_eq_true_eq, not_or]
  refine ⟨Nat.not_le.mpr h.1, ?_⟩
  rw [List.any_eq_true]
  rintro ⟨q, hq, hname⟩
  rw [Bool.and_eq_true, Option.any_eq_true] at hname
  obtain ⟨⟨name, hlast, hlong⟩, -⟩ := hname
  have hmem : name ∈ location path :=
    ((List.mem_inits _ _).mp hq).subset (List.mem_of_getLast? hlast)
  exact absurd (h.2 name hmem) (Nat.not_le.mpr (of_decide_eq_true hlong))

/-- In a directory every name of the path is looked up. -/
theorem fits_of_not_tooLong (hparent : t.isDirectory (location path).dropLast = true)
    (h : tooLong t path = false) : Fits path := by
  rw [← Bool.not_eq_true, tooLong, Bool.or_eq_true, decide_eq_true_eq, not_or] at h
  refine ⟨Nat.not_le.mp h.1, fun name hname => ?_⟩
  by_contra hlong
  apply h.2
  obtain ⟨before, behind, hsplit⟩ := List.append_of_mem hname
  have hprefix : before ++ [name] <+: location path := ⟨behind, by rw [hsplit, List.append_assoc]; rfl⟩
  rw [List.any_eq_true]
  refine ⟨before ++ [name], (List.mem_inits _ _).mpr hprefix, ?_⟩
  rw [List.getLast?_concat, Bool.and_eq_true]
  refine ⟨decide_eq_true (Nat.not_le.mp hlong), ?_⟩
  exact isDirectory_above hparent (dropLast_prefix_dropLast hprefix)

theorem mkdir_of_hasNull (h : hasNull path = true) : mkdir t path = .error .nullCharacter := by
  rw [mkdir, if_pos h]

theorem noFile_iff : NoFile t path ↔ (location path).inits.any t.isFile = false := by
  simp [NoFile]

/-- Where the lengths fit and no file is in the way, the directory is made. -/
theorem mkdir_of_fits (hnull : hasNull path = false)
    (hparent : t.isDirectory (location path).dropLast = true) (hfits : Fits path)
    (hfile : NoFile t path) :
    ∃ made, mkdir t path = .ok made ∧ t.makedirs (location path) = .ok made := by
  obtain ⟨made, hmade⟩ := DirectoryTree.makedirs_eq_ok_iff.mpr (noFile_iff.mp hfile)
  refine ⟨made, ?_, hmade⟩
  rw [mkdir, hnull, not_tooLong_of_fits hfits, hparent, hmade]
  rfl

/-- Otherwise it is an `OSError`, as long as the directory above is there or a file is in the way. -/
theorem mkdir_breaks (hnull : hasNull path = false)
    (hparent : t.isDirectory (location path).dropLast = true ∨ ¬NoFile t path)
    (h : ¬(Fits path ∧ NoFile t path)) : ∃ e, mkdir t path = .error e ∧ Breaks e := by
  unfold mkdir
  simp only [hnull, Bool.false_eq_true, if_false]
  split_ifs with hlong hdir
  · exact ⟨.nameTooLong, rfl, by decide, by decide⟩
  · have hfits := fits_of_not_tooLong hdir (by simpa using hlong)
    cases hmake : t.makedirs (location path) with
    | ok made =>
        have hnofile := DirectoryTree.makedirs_eq_ok_iff.mp ⟨made, hmake⟩
        exact absurd ⟨hfits, noFile_iff.mpr hnofile⟩ h
    | error e =>
        refine ⟨.os e, rfl, Raised.noConfusion, fun heq => ?_⟩
        exact DirectoryTree.ne_fileNotFound_of_makedirs hmake (Raised.os.inj heq)
  · have hfile : (location path).inits.any t.isFile = true := by
      have := hparent.resolve_left hdir
      rw [noFile_iff] at this
      simpa using this
    refine ⟨_, rfl, Raised.noConfusion, ?_⟩
    rw [DirectoryTree.missing, if_pos hfile]
    decide

/-! ### All the directories of a path -/

/-- The directories have been made with everything above them, and nothing else. -/
structure Made (t : Tree β) (paths : List Text) (made : Tree β) : Prop where
  isFile : ∀ q, made.isFile q = t.isFile q
  isDirectory : ∀ q, made.isDirectory q = true ↔
    t.isDirectory q = true ∨ ∃ path ∈ paths, q <+: location path

theorem Made.nil (t : Tree β) : Made t [] t where
  isFile _ := rfl
  isDirectory _ := by simp

theorem Made.noFile_iff {paths : List Text} (h : Made t paths made) :
    NoFile made path ↔ NoFile t path := by
  unfold NoFile
  simp only [h.isFile]

/-- One more directory. -/
theorem Made.cons {paths : List Text} {made' : Tree β} (h : Made t paths made)
    (hmake : made.makedirs (location path) = .ok made') : Made t (path :: paths) made' := by
  have hnofile : NoFile made path :=
    PosixFiles.noFile_iff.mpr (DirectoryTree.makedirs_eq_ok_iff.mp ⟨made', hmake⟩)
  constructor
  · intro q
    rw [← h.isFile]
    unfold DirectoryTree.isFile DirectoryTree.file?
    rw [DirectoryTree.get_makedirs hmake]
    split_ifs with hnew
    · rw [hnew.1]
    · rfl
  · intro q
    have hone : made'.isDirectory q = true ↔ made.isDirectory q = true ∨ q <+: location path := by
      rw [DirectoryTree.isDirectory_iff, DirectoryTree.isDirectory_iff, DirectoryTree.get_makedirs hmake]
      by_cases hq : q <+: location path
      · have hfile := hnofile q hq
        cases hnode : made.get q with
        | none => simp [hq]
        | some node =>
            cases node with
            | directory => simp
            | file b => simp [DirectoryTree.isFile, DirectoryTree.file?, hnode] at hfile
      · simp [hq]
    rw [hone, h.isDirectory, List.exists_mem_cons_iff, or_assoc]
    exact or_congr_right or_comm

/-- How making the directories of a path ends. -/
inductive Making (t : Tree β) (path : Text) (paths : List Text) :
    Except Raised Unit × Tree β → Prop
  | null (made : Tree β) (hnull : hasNull path = true) (hclear : Clear t paths) :
      Making t path paths (.error .nullCharacter, made)
  | made (made : Tree β) (hnull : hasNull path = false) (hclear : Clear t paths)
      (hmade : Made t paths made) (hthere : made.isDirectory (location path) = true) :
      Making t path paths (.ok (), made)
  | broken (e : Raised) (made : Tree β) (he : Breaks e) (hclear : ¬Clear t paths) :
      Making t path paths (.error e, made)

theorem clear_cons_of_hasNull {paths : List Text} (h : hasNull path = true) :
    Clear t (path :: paths) ↔ Clear t paths := by
  unfold Clear
  rw [List.forall_mem_cons, h]
  simp

theorem clear_cons {paths : List Text} (h : hasNull path = false) :
    Clear t (path :: paths) ↔ (Fits path ∧ NoFile t path) ∧ Clear t paths := by
  unfold Clear
  rw [List.forall_mem_cons, h]
  simp

/-- The last directory, when those above it have been made. -/
theorem making_cons {paths : List Text} (hclear : Clear t paths) (hmade : Made t paths made)
    (hparent : made.isDirectory (location path).dropLast = true ∨ ¬NoFile t path) :
    Making t path (path :: paths)
      (match mkdir made path with
        | .error e => (.error e, made)
        | .ok made => (.ok (), made)) := by
  by_cases hnull : hasNull path = true
  · rw [mkdir_of_hasNull hnull]
    exact .null made hnull ((clear_cons_of_hasNull hnull).mpr hclear)
  · rw [Bool.not_eq_true] at hnull
    rw [← hmade.noFile_iff] at hparent
    by_cases hfits : Fits path ∧ NoFile t path
    · have hfile : NoFile made path := hmade.noFile_iff.mpr hfits.2
      have hdir := hparent.resolve_right (not_not_intro hfile)
      obtain ⟨made', hmkdir, hmake⟩ := mkdir_of_fits hnull hdir hfits.1 hfile
      rw [hmkdir]
      exact .made made' hnull ((clear_cons hnull).mpr ⟨hfits, hclear⟩) (hmade.cons hmake)
        (DirectoryTree.isDirectory_makedirs hmake)
    · have hbad : ¬(Fits path ∧ NoFile made path) := by
        rw [hmade.noFile_iff]
        exact hfits
      obtain ⟨e, hmkdir, he⟩ := mkdir_breaks hnull hparent hbad
      rw [hmkdir]
      exact .broken e made he fun h => hfits ((clear_cons hnull).mp h).1

theorem dropLast_location_headTail (path : Text) :
    (location path).dropLast <+: location (headTail path).1 := by
  rw [location_headTail path]
  exact dropLast_push _ _

/-- Where `os.makedirs` stops, the directory above is there, or a file is in its place. -/
theorem parent_of_stop (hroot : t.isDirectory [] = true)
    (hstop : (headTail path).1 = [] ∨ (headTail path).2 = [] ∨ pathExists t (headTail path).1) :
    t.isDirectory (location path).dropLast = true ∨ ¬NoFile t path := by
  rcases hstop with hhead | htail | hthere
  · have hprefix := dropLast_location_headTail path
    rw [hhead] at hprefix
    rw [List.prefix_nil.mp hprefix]
    exact Or.inl hroot
  · rw [location_of_tail_nil htail]
    exact Or.inl hroot
  · rw [pathExists, Bool.or_eq_true] at hthere
    rcases hthere with hdir | hfile
    · obtain ⟨-, -, hdir⟩ := isdir_iff.mp hdir
      exact Or.inl (isDirectory_above hdir (dropLast_location_headTail path))
    · obtain ⟨-, -, -, hfile⟩ := isfile_iff.mp hfile
      by_cases hbelow : location (headTail path).1 <+: location path
      · exact Or.inr fun hno => absurd hfile (by rw [hno _ hbelow]; decide)
      · -- only `".."` leads up again, and above the file is a directory
        left
        have hup : location path = (location (headTail path).1).dropLast := by
          have hpush := location_headTail path
          unfold push at hpush
          split_ifs at hpush with hsilent hname
          · rw [List.reverse_reverse] at hpush
            exact absurd (hpush ▸ List.prefix_refl _) hbelow
          · rw [List.reverse_cons, List.reverse_reverse] at hpush
            exact absurd (hpush ▸ List.prefix_append _ _) hbelow
          · rw [List.tail_reverse, List.reverse_reverse] at hpush
            exact hpush
        obtain ⟨b, hb⟩ := Option.isSome_iff_exists.mp hfile
        have hget := DirectoryTree.file?_eq_some_iff.mp hb
        have hne : location (headTail path).1 ≠ [] := by
          intro hnil
          rw [hnil, DirectoryTree.isDirectory_iff.mp hroot] at hget
          cases hget
        have habove : t.isDirectory (location (headTail path).1).dropLast = true := by
          refine DirectoryTree.isDirectory_iff.mpr (t.closed _ _ hget _ (List.dropLast_prefix _) ?_)
          intro heq
          have hlength := congrArg List.length heq
          rw [List.length_dropLast] at hlength
          have := List.length_pos_of_ne_nil hne
          omega
        rw [hup]
        exact isDirectory_above habove (List.dropLast_prefix _)

/-- **`os.makedirs`**: by induction on the heads of the path, which are made from the first that is
missing downwards. -/
theorem making_makeAll (hroot : t.isDirectory [] = true) (n : Nat) (path : Text)
    (hn : path.length ≤ n) :
    Making t path (toMake t n path) (makeAll t (toMake t n path)) := by
  have hone : ∀ path, t.isDirectory (location path).dropLast = true ∨ ¬NoFile t path →
      Making t path [path] (makeAll t [path]) := by
    intro path hparent
    exact making_cons (by simp [Clear]) (Made.nil t) hparent
  induction n generalizing path with
  | zero =>
      obtain rfl := List.length_eq_zero_iff.mp (Nat.le_zero.mp hn)
      exact hone [] (Or.inl hroot)
  | succ n ih =>
      unfold toMake
      dsimp only
      split_ifs with hstop hdot
      · exact hone path (parent_of_stop hroot hstop)
      · rw [not_or, not_or] at hstop
        have hlength := length_headTail_lt hstop.2.1
        have hhead := ih (headTail path).1 (by omega)
        have hnull : hasNull path = hasNull (headTail path).1 := by
          rw [hasNull_headTail path, hdot]
          exact Bool.or_false _
        have hsame : location path = location (headTail path).1 := by
          have hpush := location_headTail path
          rw [hdot] at hpush
          simpa [push, Silent] using hpush
        revert hhead
        generalize makeAll t (toMake t n (headTail path).1) = result
        intro hhead
        cases hhead with
        | null made hn hclear => exact .null made (hnull.trans hn) hclear
        | made made hn hclear hmade hthere =>
            exact .made made (hnull.trans hn) hclear hmade (hsame ▸ hthere)
        | broken e made he hclear => exact .broken e made he hclear
      · rw [not_or, not_or] at hstop
        have hlength := length_headTail_lt hstop.2.1
        have hhead := ih (headTail path).1 (by omega)
        rw [makeAll]
        revert hhead
        generalize makeAll t (toMake t n (headTail path).1) = result
        intro hhead
        cases hhead with
        | null made hn hclear =>
            have hnull : hasNull path = true := by
              rw [hasNull_headTail path, hn, Bool.true_or]
            exact .null made hnull ((clear_cons_of_hasNull hnull).mpr hclear)
        | made made hn hclear hmade hthere =>
            refine making_cons hclear hmade (Or.inl ?_)
            exact isDirectory_above hthere (dropLast_location_headTail path)
        | broken e made he hclear =>
            refine .broken e made he fun h => hclear fun g hg => ?_
            exact h g (List.mem_cons_of_mem path hg)

theorem making_makedirs (hroot : t.isDirectory [] = true) (path : Text) :
    Making t path (toMake t path.length path) (makedirs t path) :=
  making_makeAll hroot path.length path le_rfl

/-! ### Opening -/

/-- The call ended with an `OSError` other than the one for a missing file. -/
def Broke {α : Type*} (result : Except Raised α) : Prop := ∃ e, result = .error e ∧ Breaks e

@[simp] theorem broke_ok {α : Type*} (a : α) : Broke (.ok a) ↔ False := by simp [Broke]

@[simp] theorem broke_error {α : Type*} (e : Raised) : Broke (.error e : Except Raised α) ↔ Breaks e := by
  simp [Broke]

theorem not_breaks_null : ¬Breaks .nullCharacter := fun h => h.1 rfl

/-- The path fits and is no directory's, no regular file is on the way to it, and as the path of a
regular file it does not end as a directory's. -/
structure Readable (t : Tree β) (path : Text) : Prop where
  fits : tooLong t path = false
  notDirectory : t.isDirectory (location path) = false
  noFileAbove : ∀ q, q <+: location path → q ≠ location path → t.isFile q = false
  plainEnd : t.isFile (location path) = true → endsAsDirectory path = false

theorem readable_of_isFile {b : β} (hlong : tooLong t path = false)
    (hfile : t.get (location path) = some (.file b)) :
    Readable t path ↔ endsAsDirectory path = false := by
  have hisfile : t.isFile (location path) = true := by
    simp [DirectoryTree.isFile, DirectoryTree.file?, hfile]
  refine ⟨fun h => h.plainEnd hisfile, fun hends => ⟨hlong, ?_, fun q hq hne => ?_, fun _ => hends⟩⟩
  · simp [DirectoryTree.isDirectory, hfile]
  · have hdir : t.get q = some .directory := t.closed _ _ hfile q hq hne
    simp [DirectoryTree.isFile, DirectoryTree.file?, hdir]

theorem readable_of_missing (hlong : tooLong t path = false) (hnone : t.get (location path) = none) :
    Readable t path ↔ NoFile t path := by
  have hnotfile : t.isFile (location path) = false := by
    simp [DirectoryTree.isFile, DirectoryTree.file?, hnone]
  constructor
  · intro h q hq
    by_cases hself : q = location path
    · rw [hself]
      exact hnotfile
    · exact h.noFileAbove q hq hself
  · intro h
    refine ⟨hlong, by simp [DirectoryTree.isDirectory, hnone], fun q hq _ => h q hq, fun hfile => ?_⟩
    rw [hnotfile] at hfile
    cases hfile

/-- What breaks a read is a path that has no null character and is too long, or leads to a directory or
past a regular file. -/
theorem broke_openRead_iff : Broke (openRead t path) ↔ hasNull path = false ∧ ¬Readable t path := by
  unfold openRead
  by_cases hnull : hasNull path = true
  · rw [if_pos hnull, broke_error, hnull]
    exact iff_of_false not_breaks_null (by simp)
  · rw [if_neg hnull, and_iff_right (by simpa using hnull)]
    by_cases hlong : tooLong t path = true
    · rw [if_pos hlong, broke_error]
      refine iff_of_true ⟨by decide, by decide⟩ fun h => ?_
      rw [h.fits] at hlong
      cases hlong
    · rw [if_neg hlong]
      rw [Bool.not_eq_true] at hlong
      unfold DirectoryTree.read
      cases hnode : t.get (location path) with
      | none =>
          dsimp only
          rw [broke_error, readable_of_missing hlong hnode, noFile_iff, DirectoryTree.missing]
          cases (location path).inits.any t.isFile with
          | false => exact iff_of_false (fun h => h.2 rfl) (by simp)
          | true => exact iff_of_true ⟨by decide, by decide⟩ (by simp)
      | some node =>
          cases node with
          | directory =>
              dsimp only
              rw [broke_error]
              refine iff_of_true ⟨by decide, by decide⟩ fun h => ?_
              have hdir := DirectoryTree.isDirectory_iff.mpr hnode
              rw [h.notDirectory] at hdir
              cases hdir
          | file b =>
              dsimp only
              rw [readable_of_isFile hlong hnode]
              cases endsAsDirectory path with
              | false => simp
              | true => exact iff_of_true ((broke_error _).mpr ⟨by decide, by decide⟩) (by simp)

/-- In a directory, what breaks a write is a path without a null character that is too long, ends as a
directory's or is that of a directory. -/
theorem broke_openWrite_iff {b : β} (hparent : t.isDirectory (location path).dropLast = true) :
    Broke (openWrite t path b) ↔ hasNull path = false ∧
      ¬(Fits path ∧ endsAsDirectory path = false ∧ t.isDirectory (location path) = false) := by
  unfold openWrite
  by_cases hnull : hasNull path = true
  · rw [if_pos hnull, broke_error, hnull]
    exact iff_of_false not_breaks_null (by simp)
  · rw [if_neg hnull, and_iff_right (by simpa using hnull)]
    by_cases hlong : tooLong t path = true
    · rw [if_pos hlong, broke_error]
      refine iff_of_true ⟨by decide, by decide⟩ fun h => ?_
      rw [not_tooLong_of_fits h.1] at hlong
      cases hlong
    · rw [if_neg hlong, and_iff_right (fits_of_not_tooLong hparent (by simpa using hlong))]
      cases endsAsDirectory path with
      | true =>
          rw [if_pos rfl, broke_error]
          refine iff_of_true ?_ (by simp)
          cases t.isFile (location path) with
          | false => exact ⟨by decide, by decide⟩
          | true => exact ⟨by decide, by decide⟩
      | false =>
          rw [if_neg (by decide), DirectoryTree.write]
          by_cases hdir : t.isDirectory (location path) = true
          · rw [dif_pos hdir, hdir]
            exact iff_of_true ((broke_error _).mpr ⟨by decide, by decide⟩) (by simp)
          · rw [dif_neg hdir, dif_pos hparent]
            exact iff_of_false (fun h => (broke_ok _).mp h) (by simpa using hdir)

/-- A directory is removed unless its path ends in a dot. -/
theorem rmtree_of_isdir (h : isdir t path = true) :
    (rmtree t path).1 = .ok () ↔ endsInDot path = false := by
  obtain ⟨hnull, hlong, hdir⟩ := isdir_iff.mp h
  obtain ⟨emptied, hemptied⟩ : ∃ emptied, t.rmtree (location path) = .ok emptied := by
    unfold DirectoryTree.rmtree
    rw [if_pos hdir]
    exact ⟨_, rfl⟩
  unfold rmtree
  rw [hnull, hlong, hemptied]
  simp only [Bool.false_eq_true, if_false]
  cases endsInDot path with
  | false => simp
  | true =>
      rw [if_pos rfl]
      cases emptied.makedirs (location path) with
      | error e => simp
      | ok kept => simp

/-- What is a directory is listed. -/
theorem listdir_of_isdir (h : isdir t path = true) : ∃ names, listdir t path = .ok names := by
  obtain ⟨hnull, hlong, hdir⟩ := isdir_iff.mp h
  rw [listdir, hnull, hlong, DirectoryTree.listdir, DirectoryTree.isDirectory_iff.mp hdir]
  exact ⟨_, rfl⟩

theorem statvfs_ne_null (hnull : hasNull path = false) : statvfs t path ≠ .error .nullCharacter := by
  unfold statvfs
  rw [hnull, if_neg (by decide)]
  cases tooLong t path with
  | true => simp
  | false =>
      rw [if_neg (by decide)]
      cases t.get (location path) with
      | none => simp
      | some node =>
          cases node with
          | directory => simp
          | file b => cases endsAsDirectory path <;> simp

theorem statvfs_of_isdir (h : isdir t path = true) : statvfs t path = .ok () := by
  obtain ⟨hnull, hlong, hdir⟩ := isdir_iff.mp h
  rw [statvfs, hnull, hlong, DirectoryTree.isDirectory_iff.mp hdir]
  rfl

end PosixFiles
