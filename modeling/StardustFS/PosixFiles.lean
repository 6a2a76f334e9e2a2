import StardustFS.DirectoryTree
import StardustFS.PosixPath

/-! The calls of Python's `os` and `open` on the text of a path, over a directory tree. A relative path
is taken from the root. A path that ends in a slash or in `"."` can only be a directory's. -/

namespace PosixFiles

/-- What a call raises: an `OSError` of the tree, the ones for a removal of `"."` and for a path or a name
that is too long, or the `ValueError` for a null character in the path. -/
inductive Raised where
  | os (e : DirectoryTree.Error)
  | invalidArgument
  | nameTooLong
  | nullCharacter
  deriving DecidableEq, Repr

abbrev Tree (β : Type*) := DirectoryTree Text β

variable {β : Type*}

def hasNull (path : Text) : Bool := path.contains '\x00'

/-- The length of a text in UTF-8. -/
def byteSize (s : Text) : Nat := (s.map Char.utf8Size).sum

/-- `NAME_MAX` -/
def nameMax : Nat := 255

/-- `PATH_MAX`, which counts the null at the end. -/
def pathMax : Nat := 4096

/-- A path is refused for its own length, and for that of a name that is looked up in a directory. -/
def tooLong (t : Tree β) (path : Text) : Bool :=
  decide (pathMax ≤ byteSize path) || (Text.location path).inits.any fun q =>
    (q.getLast?.any fun name => decide (nameMax < byteSize name)) && t.isDirectory q.dropLast

/-- The last part of the path is no name. -/
def endsAsDirectory (path : Text) : Bool := decide (Text.Silent ((path.splitOn '/').getLast?.getD []))

/-- The last name of the path is `"."`. -/
def endsInDot (path : Text) : Bool :=
  ((path.splitOn '/').filter (· ≠ [])).getLast? == some ['.']

/-- `os.path.isdir`. -/
def isdir (t : Tree β) (path : Text) : Bool :=
  !hasNull path && !tooLong t path && t.isDirectory (Text.location path)

/-- `os.path.isfile`. -/
def isfile (t : Tree β) (path : Text) : Bool :=
  !hasNull path && !tooLong t path && !endsAsDirectory path && t.isFile (Text.location path)

/-- `os.path.exists`. -/
def pathExists (t : Tree β) (path : Text) : Bool := isdir t path || isfile t path

/-- `os.listdir`. -/
def listdir (t : Tree β) (path : Text) : Except Raised (List Text) :=
  if hasNull path then .error .nullCharacter
  else if tooLong t path then .error .nameTooLong
  else (t.listdir (Text.location path)).mapError .os

/-- `os.statvfs`, as far as it raises. -/
def statvfs (t : Tree β) (path : Text) : Except Raised Unit :=
  if hasNull path then .error .nullCharacter
  else if tooLong t path then .error .nameTooLong
  else match t.get (Text.location path) with
    | some .directory => .ok ()
    | some (.file _) => if endsAsDirectory path then .error (.os .notADirectory) else .ok ()
    | none => .error (.os (t.missing (Text.location path)))

/-- `open(path, "rb").read()`. -/
def openRead (t : Tree β) (path : Text) : Except Raised β :=
  if hasNull path then .error .nullCharacter
  else if tooLong t path then .error .nameTooLong
  else match t.read (Text.location path) with
    | .ok b => if endsAsDirectory path then .error (.os .notADirectory) else .ok b
    | .error e => .error (.os e)

/-- `open(path, "wb").write(contents)`. -/
def openWrite (t : Tree β) (path : Text) (b : β) : Except Raised (Tree β) :=
  if hasNull path then .error .nullCharacter
  else if tooLong t path then .error .nameTooLong
  else if endsAsDirectory path then
    .error (.os (if t.isFile (Text.location path) then .notADirectory else .isADirectory))
  else (t.write (Text.location path) b).mapError .os

/-- `os.mkdir`, passing over a directory that is there. -/
def mkdir (t : Tree β) (path : Text) : Except Raised (Tree β) :=
  if hasNull path then .error .nullCharacter
  else if tooLong t path then .error .nameTooLong
  else if t.isDirectory (Text.location path).dropLast then
    (t.makedirs (Text.location path)).mapError .os
  else .error (.os (t.missing (Text.location path)))

/-- `path.split` as `os.makedirs` applies it: once more where the path ends in a slash. -/
def headTail (path : Text) : Text × Text :=
  if Text.basename path = [] then
    (Text.dirname (Text.dirname path), Text.basename (Text.dirname path))
  else (Text.dirname path, Text.basename path)

/-- The directories that `os.makedirs` makes, the path first and then upwards to the first head that is
there. A last part `"."` is made with its head. Every head is shorter, so the length of the path bounds
them. -/
def toMake (t : Tree β) : Nat → Text → List Text
  | 0, path => [path]
  | n + 1, path =>
      let (head, tail) := headTail path
      if head = [] ∨ tail = [] ∨ pathExists t head then [path]
      else if tail = ['.'] then toMake t n head
      else path :: toMake t n head

/-- The last directory of the list is made first. What has been made stays where a later one fails. -/
def makeAll (t : Tree β) : List Text → Except Raised Unit × Tree β
  | [] => (.ok (), t)
  | path :: above =>
      match makeAll t above with
      | (.error e, made) => (.error e, made)
      | (.ok _, made) =>
          match mkdir made path with
          | .error e => (.error e, made)
          | .ok made => (.ok (), made)

/-- `os.makedirs(path, exist_ok=True)`, with the tree it leaves. -/
def makedirs (t : Tree β) (path : Text) : Except Raised Unit × Tree β :=
  makeAll t (toMake t path.length path)

/-- `os.remove`. -/
def remove (t : Tree β) (path : Text) : Except Raised (Tree β) :=
  if hasNull path then .error .nullCharacter
  else if tooLong t path then .error .nameTooLong
  else if endsAsDirectory path && t.isFile (Text.location path) then .error (.os .notADirectory)
  else (t.remove (Text.location path)).mapError .os

/-- `shutil.rmtree`, with the tree it leaves. What a path ending in `"."` names is emptied and stays. -/
def rmtree (t : Tree β) (path : Text) : Except Raised Unit × Tree β :=
  if hasNull path then (.error .nullCharacter, t)
  else if tooLong t path then (.error .nameTooLong, t)
  else match t.rmtree (Text.location path) with
    | .error e => (.error (.os e), t)
    | .ok emptied =>
        if endsInDot path then
          match emptied.makedirs (Text.location path) with
          | .ok kept => (.error .invalidArgument, kept)
          | .error e => (.error (.os e), emptied)
        else (.ok (), emptied)

/-! ### Lengths -/

/-- Whether a path is too long depends on the directories alone. -/
theorem tooLong_congr {t t' : Tree β} (h : ∀ q, t'.isDirectory q = t.isDirectory q) (path : Text) :
    tooLong t' path = tooLong t path := by
  unfold tooLong
  simp only [h]

theorem isdir_iff {t : Tree β} {path : Text} : isdir t path = true ↔
    hasNull path = false ∧ tooLong t path = false ∧ t.isDirectory (Text.location path) = true := by
  simp [isdir, and_assoc]

theorem isfile_iff {t : Tree β} {path : Text} : isfile t path = true ↔
    hasNull path = false ∧ tooLong t path = false ∧ endsAsDirectory path = false ∧
      t.isFile (Text.location path) = true := by
  simp [isfile, and_assoc]

/-! ### Reading what was written -/

/-- A write makes no directory and removes none. -/
theorem isDirectory_write {t t' : Tree β} {p : List Text} {b : β} (h : t.write p b = .ok t')
    (q : List Text) : t'.isDirectory q = t.isDirectory q := by
  have hnot : t.isDirectory p = false := by
    unfold DirectoryTree.write at h
    split_ifs at h with hdir
    simpa using hdir
  unfold DirectoryTree.isDirectory at hnot ⊢
  rw [DirectoryTree.get_write h]
  split_ifs with hq
  · rw [hq]
    exact hnot.symm
  · rfl

theorem openRead_of_openWrite {t t' : Tree β} {path : Text} {b : β}
    (h : openWrite t path b = .ok t') : openRead t' path = .ok b := by
  unfold openWrite at h
  split_ifs at h with hnull hlong hends
  cases hwrite : t.write (Text.location path) b with
  | error e =>
      rw [hwrite] at h
      cases h
  | ok t₁ =>
      rw [hwrite] at h
      obtain rfl : t₁ = t' := Except.ok.inj h
      have hget : t₁.read (Text.location path) = .ok b := by
        rw [DirectoryTree.read_eq_ok_iff, DirectoryTree.get_write hwrite, if_pos rfl]
      rw [openRead, if_neg hnull, tooLong_congr (isDirectory_write hwrite), if_neg hlong, hget]
      simp only [hends, Bool.false_eq_true, if_false]

/-- A path that ends as a directory's is never written. -/
theorem openWrite_of_endsAsDirectory {path : Text} (h : endsAsDirectory path = true) (t t' : Tree β)
    (b : β) : openWrite t path b ≠ .ok t' := by
  unfold openWrite
  rw [if_pos h]
  split_ifs <;> exact fun heq => nomatch heq

/-! ### What there is to make and to remove -/

/-- Above a directory are directories. -/
theorem isDirectory_above {t : Tree β} {p q : List Text} (h : t.isDirectory p = true)
    (hq : q <+: p) : t.isDirectory q = true := by
  by_cases hqp : q = p
  · rw [hqp]
    exact h
  · exact DirectoryTree.isDirectory_iff.mpr (t.closed p _ (DirectoryTree.isDirectory_iff.mp h) q hq hqp)

theorem dropLast_prefix_dropLast {p q : List Text} (h : q <+: p) : q.dropLast <+: p.dropLast := by
  refine List.prefix_of_prefix_length_le ((List.dropLast_prefix q).trans h) (List.dropLast_prefix p) ?_
  have := h.length_le
  rw [List.length_dropLast, List.length_dropLast]
  omega

/-- What `os.mkdir` has made is a directory: a name that is too long for it would have been looked up in
its parent. -/
theorem isdir_of_mkdir {t t' : Tree β} {path : Text} (h : mkdir t path = .ok t') :
    isdir t' path = true := by
  unfold mkdir at h
  split_ifs at h with hnull hlong hparent
  cases hmake : t.makedirs (Text.location path) with
  | error e =>
      rw [hmake] at h
      cases h
  | ok made =>
      rw [hmake] at h
      obtain rfl : made = t' := Except.ok.inj h
      refine isdir_iff.mpr ⟨by simpa using hnull, ?_, DirectoryTree.isDirectory_makedirs hmake⟩
      by_contra htoo
      apply hlong
      rw [Bool.not_eq_false, tooLong, Bool.or_eq_true, List.any_eq_true] at htoo
      rw [tooLong, Bool.or_eq_true, List.any_eq_true]
      refine htoo.imp_right ?_
      rintro ⟨q, hq, hname⟩
      refine ⟨q, hq, ?_⟩
      rw [Bool.and_eq_true] at hname ⊢
      refine ⟨hname.1, isDirectory_above hparent ?_⟩
      exact dropLast_prefix_dropLast ((List.mem_inits _ _).mp hq)

/-- The first of the directories to make is the path, or one that is not there. -/
theorem toMake_cases (t : Tree β) (n : Nat) (path : Text) :
    ∃ first above, toMake t n path = first :: above ∧ (first = path ∨ pathExists t first = false) := by
  induction n generalizing path with
  | zero => exact ⟨path, [], rfl, Or.inl rfl⟩
  | succ n ih =>
      unfold toMake
      dsimp only
      split_ifs with hstop hdot
      · exact ⟨path, [], rfl, Or.inl rfl⟩
      · obtain ⟨first, above, hmake, rfl | hmissing⟩ := ih (headTail path).1
        · refine ⟨_, above, hmake, Or.inr ?_⟩
          rw [not_or, not_or] at hstop
          simpa using hstop.2.2
        · exact ⟨first, above, hmake, Or.inr hmissing⟩
      · exact ⟨path, _, rfl, Or.inl rfl⟩

/-- Where `os.makedirs` changes nothing, the directory is there. -/
theorem isdir_of_makedirs {t : Tree β} {path : Text} (h : makedirs t path = (.ok (), t)) :
    isdir t path = true := by
  obtain ⟨first, above, hmake, hfirst⟩ := toMake_cases t path.length path
  have hthere : isdir t first = true := by
    rw [makedirs, hmake, makeAll] at h
    rcases habove : makeAll t above with ⟨e | _, made⟩
    · rw [habove] at h
      cases h
    · rw [habove] at h
      simp only at h
      cases hmkdir : mkdir made first with
      | error e =>
          rw [hmkdir] at h
          cases h
      | ok t' =>
          rw [hmkdir] at h
          obtain rfl : t' = t := (Prod.mk.inj h).2
          exact isdir_of_mkdir hmkdir
  rcases hfirst with rfl | hmissing
  · exact hthere
  · rw [pathExists, hthere] at hmissing
    cases hmissing

theorem rmtree_ne_null {t : Tree β} {path : Text} (h : isdir t path = true) :
    (rmtree t path).1 ≠ .error .nullCharacter := by
  obtain ⟨hnull, hlong, -⟩ := isdir_iff.mp h
  unfold rmtree
  rw [hnull, hlong]
  intro heq
  simp only [Bool.false_eq_true, if_false] at heq
  split at heq
  · cases heq
  · split_ifs at heq
    split at heq <;> cases heq

theorem remove_of_isfile {t : Tree β} {path : Text} (h : isfile t path = true) :
    ∃ t', remove t path = .ok t' := by
  obtain ⟨hnull, hlong, hends, hfile⟩ := isfile_iff.mp h
  obtain ⟨b, hb⟩ := Option.isSome_iff_exists.mp hfile
  obtain ⟨t', hremove⟩ := DirectoryTree.exists_remove (DirectoryTree.file?_eq_some_iff.mp hb)
  refine ⟨t', ?_⟩
  rw [remove, hnull, hlong, hends, hremove]
  rfl

/-- Removing a directory as a file is an error that is neither a missing file nor one of the text. -/
theorem remove_of_isdir {t : Tree β} {path : Text} (h : isdir t path = true) :
    remove t path = .error (.os .isADirectory) := by
  obtain ⟨hnull, hlong, hdir⟩ := isdir_iff.mp h
  have hget := DirectoryTree.isDirectory_iff.mp hdir
  have hnofile : t.isFile (Text.location path) = false := by
    simp [DirectoryTree.isFile, DirectoryTree.file?, hget]
  have hremove : t.remove (Text.location path) = .error .isADirectory := by
    unfold DirectoryTree.remove
    split
    · rename_i heq
      rw [hget] at heq
      cases heq
    · rfl
    · rename_i heq
      rw [hget] at heq
      cases heq
  rw [remove, hnull, hlong, hnofile, hremove, Bool.and_false]
  rfl

/-- A relative path without a step ends as a directory's, from wherever it is taken. -/
theorem endsAsDirectory_joinPath {p : Text} (hrel : p.head? ≠ some '/') (hsteps : Text.steps p = [])
    (root : Text) : endsAsDirectory (Text.joinPath root p) = true := by
  have hlast : (p.splitOn '/').getLast? = some ((p.splitOn '/').getLast (List.splitOn_ne_nil '/' p)) :=
    List.getLast?_eq_some_getLast _
  have hsilent : Text.Silent ((p.splitOn '/').getLast (List.splitOn_ne_nil '/' p)) := by
    have hall := List.filter_eq_nil_iff.mp hsteps _ (List.getLast_mem (List.splitOn_ne_nil '/' p))
    simpa using hall
  have hjoin : ((Text.joinPath root p).splitOn '/').getLast? = (p.splitOn '/').getLast? := by
    by_cases hroot : root = []
    · rw [hroot, Text.joinPath, if_neg hrel, if_pos (Or.inl rfl), List.nil_append]
    · obtain ⟨names, hsplit, -⟩ := Text.splitOn_joinPath hroot hrel
      rw [hsplit, List.getLast?_append, hlast]
      rfl
  rw [endsAsDirectory, hjoin, hlast]
  exact decide_eq_true hsilent

end PosixFiles
