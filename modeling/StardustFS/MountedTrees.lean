import StardustFS.MakeDirectories
import StardustFS.ServedSources
import StardustFS.Subtrees

/-! A source on the file system of its device beside a source with a tree of its own. Below the data root
both hold the same, and every call on a path of names ends alike on both. -/

namespace StardustFS

open Text

/-- What is raised on the disk for what the tree raises. -/
def SourceError.raised : SourceError → SourceRaised
  | .os e => .file (.os e)
  | .inactive => .inactive
  | .insufficientSpace => .insufficientSpace

namespace StorageSource

theorem val_resolve {p : Text} (h : Tidy p) : (resolve p).map Subtype.val = p.splitOn '/' := by
  unfold resolve
  rw [List.map_filterMap]
  have hproper : ∀ name ∈ p.splitOn '/', name ≠ [] ∧ name ≠ ['.'] ∧ '/' ∉ name := by
    intro name hname
    obtain ⟨hsilent, -, hslash⟩ := h name hname
    exact ⟨fun hnil => hsilent (Or.inl hnil), fun hdot => hsilent (Or.inr hdot), hslash⟩
  revert hproper
  generalize p.splitOn '/' = names
  intro hproper
  induction names with
  | nil => rfl
  | cons name names ih =>
      obtain ⟨hname, hrest⟩ := List.forall_mem_cons.mp hproper
      rw [List.filterMap_cons, dif_pos hname]
      exact congrArg (List.cons name) (ih hrest)

theorem resolve_ne_nil {p : Text} (h : Tidy p) : resolve p ≠ [] := by
  intro hnil
  have hval := val_resolve h
  rw [hnil] at hval
  exact List.splitOn_ne_nil '/' p hval.symm

theorem resolve_append_slashes (p : Text) (k : Nat) :
    resolve (p ++ List.replicate k '/') = resolve p := by
  induction k with
  | zero => rw [List.replicate_zero, List.append_nil]
  | succ k ih =>
      rw [List.replicate_succ', ← List.append_assoc, resolve_append_slash, ih]
      exact List.append_nil _

end StorageSource

namespace Mount

open PosixFiles (Fits hasNull)
open DirectoryTree (Holds Alike)

abbrev root (m : Mount) : Text := m.source.sourceDataRoot

def kind (m : Mount) : SourceKind :=
  match m.source with
  | .directory _ => .directory
  | .loopback _ => .loopback m.sizeBytes

/-- The source with a tree of its own is what the one on the disk knows and holds. -/
structure Mirrors (m : Mount) (t : PosixFiles.Tree Bytes) (s : StorageSource) : Prop where
  kind : s.kind = m.kind
  isActive : s.isActive = m.isActive
  usedBytes : s.kind ≠ .directory → s.usedBytes = m.usedBytes
  holds : Holds Subtype.val (location m.root) t s.tree

/-- A path of names below the data root; slashes may follow. -/
structure Takes (m : Mount) (p : Text) (k : Nat) : Prop where
  rooted : location m.root ≠ []
  plain : Plain m.root
  tidy : Tidy p
  fits : Fits (joinPath m.root p ++ List.replicate k '/')
  null : hasNull (joinPath m.root p) = false

/-- The call on the disk ends like the one on the tree, and leaves what the source holds after it. -/
structure Refines {α : Type} (e : Effect α) (r : Except SourceError α × StorageSource) : Prop where
  result : e.1 = r.1.mapError SourceError.raised
  mirrors : e.2.1.Mirrors e.2.2 r.2

/-- How `os.makedirs` ends beside the call on the tree: with what the source holds after it, or with the
same error and nothing made. -/
inductive Makes (m : Mount) (t : PosixFiles.Tree Bytes) :
    Except PosixFiles.Raised Unit × PosixFiles.Tree Bytes →
      Except DirectoryTree.Error (DirectoryTree FileName Bytes) → Prop
  | done {made : PosixFiles.Tree Bytes} {tree : DirectoryTree FileName Bytes}
      (h : Holds Subtype.val (location m.root) made tree) : Makes m t (.ok (), made) (.ok tree)
  | failed (e : DirectoryTree.Error) : Makes m t (.error (.os e), t) (.error e)

section

variable {m : Mount} {t : PosixFiles.Tree Bytes} {s : StorageSource} {p : Text} {k : Nat}

namespace Takes

variable (h : m.Takes p k)
include h

theorem location_eq : location (joinPath m.root p) =
    location m.root ++ (StorageSource.resolve p).map Subtype.val := by
  rw [location_joinPath h.tidy.relative h.tidy.plain, h.tidy.steps_eq, StorageSource.val_resolve h.tidy]

theorem fits_path : Fits (joinPath m.root p) := by
  refine h.fits.above (List.prefix_append _ _) ?_
  rw [PosixFiles.location_append_slashes]

/-- Where the directory part of the path leads. -/
theorem location_dirname : location (dirname (joinPath m.root p)) =
    location m.root ++ (StorageSource.resolve p).dropLast.map Subtype.val := by
  have hname := PosixFiles.location_of_name (PosixFiles.properName_basename m.root h.tidy)
  have hne : (StorageSource.resolve p).map Subtype.val ≠ [] := by
    rw [StorageSource.val_resolve h.tidy]
    exact List.splitOn_ne_nil '/' p
  have hdrop := congrArg List.dropLast (hname.symm.trans h.location_eq)
  rwa [List.dropLast_concat, List.dropLast_append_of_ne_nil hne, ← List.map_dropLast] at hdrop

theorem fits_dirname : Fits (dirname (joinPath m.root p)) := by
  refine h.fits_path.above (PosixFiles.dirname_above _) ?_
  rw [PosixFiles.location_of_name (PosixFiles.properName_basename m.root h.tidy)]
  exact List.prefix_append _ _

theorem null_dirname : hasNull (dirname (joinPath m.root p)) = false :=
  PosixFiles.hasNull_of_above (PosixFiles.dirname_above _) h.null

end Takes

namespace Mirrors

variable (h : m.Mirrors t s)
include h

theorem isDirectory_root (hroot : location m.root ≠ []) : t.isDirectory [] = true :=
  h.holds.above [] List.nil_prefix hroot.symm

theorem isFile_above {q : List Text} (hq : q <+: location m.root) : t.isFile q = false := by
  by_cases hne : q = location m.root
  · have hfile : t.isFile (location m.root ++ ([] : List FileName).map Subtype.val) = s.tree.isFile [] :=
      h.holds.isFile
    rw [List.map_nil, List.append_nil, h.holds.noFile] at hfile
    rw [hne, hfile]
  · exact h.holds.isFile_above hq hne

theorem failed (e : DirectoryTree.Error) (spared : Bool) :
    (m.failed (.os e) spared).Mirrors t (s.raised e spared) := by
  obtain ⟨source, sizeBytes, active, used⟩ := m
  obtain ⟨kind, isActive, usedBytes, tree⟩ := s
  obtain ⟨hkind, hactive, hused, hholds⟩ := h
  cases source with
  | loopback path =>
      obtain rfl : kind = .loopback sizeBytes := hkind
      exact ⟨rfl, hactive, hused, hholds⟩
  | directory path =>
      obtain rfl : kind = .directory := hkind
      simp only [Mount.failed, StorageSource.raised, Bool.and_eq_true, decide_eq_true_eq,
        PosixFiles.Raised.os.injEq, reduceCtorEq, false_or]
      split_ifs
      · exact ⟨rfl, hactive, hused, hholds⟩
      · exact ⟨rfl, rfl, fun hne => absurd rfl hne, hholds⟩

theorem with_tree {t' : PosixFiles.Tree Bytes} {tree : DirectoryTree FileName Bytes}
    (hholds : Holds Subtype.val (location m.root) t' tree) : m.Mirrors t' { s with tree } :=
  ⟨h.kind, h.isActive, h.usedBytes, hholds⟩

/-- A source out of service refuses on both sides. -/
theorem refines_active {α : Type} {large : Effect α} {small : Except SourceError α × StorageSource}
    (hrefines : Refines large small) :
    Refines (if !m.isActive then (.error .inactive, m, t) else large)
      (if !s.isActive then (.error .inactive, s) else small) := by
  have hsame := h.isActive
  by_cases hactive : m.isActive = true
  · have hlarge : ¬(!m.isActive) = true := by simp [hactive]
    have hsmall : ¬(!s.isActive) = true := by simp [hsame, hactive]
    rw [if_neg hlarge, if_neg hsmall]
    exact hrefines
  · have hlarge : (!m.isActive) = true := by simpa using hactive
    have hsmall : (!s.isActive) = true := by rw [hsame]; exact hlarge
    rw [if_pos hlarge, if_pos hsmall]
    exact ⟨rfl, h⟩

theorem refines_failed {α : Type} (e : DirectoryTree.Error) (spared : Bool) :
    Refines ((.error (.file (.os e)), m.failed (.os e) spared, t) : Effect α)
      (.error (.os e), s.raised e spared) := ⟨rfl, h.failed e spared⟩

/-- `open(path, "rb").read()` below the data root. -/
theorem openRead (hp : m.Takes p 0) : PosixFiles.openRead t (m.source.resolve p) =
    (s.tree.read (StorageSource.resolve p)).mapError .os := by
  have hends := PosixFiles.endsAsDirectory_of_name (PosixFiles.properName_basename m.root hp.tidy)
  rw [LocalSource.resolve_eq, PosixFiles.openRead, hp.null, PosixFiles.not_tooLong_of_fits hp.fits_path, hends,
    hp.location_eq, h.holds.read]
  cases s.tree.read (StorageSource.resolve p) with
  | ok data => rfl
  | error e => rfl

theorem read (hp : m.Takes p 0) : Refines (m.read t p) (s.read p) := by
  refine h.refines_active ?_
  rw [h.openRead hp]
  cases s.tree.read (StorageSource.resolve p) with
  | ok data => exact ⟨rfl, h⟩
  | error e => exact h.refines_failed e true

theorem isfile (hp : m.Takes p 0) : PosixFiles.isfile t (m.source.resolve p) =
    s.tree.isFile (StorageSource.resolve p) := by
  have hends := PosixFiles.endsAsDirectory_of_name (PosixFiles.properName_basename m.root hp.tidy)
  rw [LocalSource.resolve_eq, PosixFiles.isfile, hp.null, PosixFiles.not_tooLong_of_fits hp.fits_path, hends,
    hp.location_eq, h.holds.isFile]
  rfl

theorem isdir (hp : m.Takes p k) : PosixFiles.isdir t (m.source.resolve (p ++ List.replicate k '/')) =
    s.tree.isDirectory (StorageSource.resolve p) := by
  rw [LocalSource.resolve_eq, joinPath_append_slashes hp.tidy, PosixFiles.isdir,
    PosixFiles.hasNull_append_slashes, hp.null, PosixFiles.not_tooLong_of_fits hp.fits,
    PosixFiles.location_append_slashes, hp.location_eq, h.holds.isDirectory]
  rfl

theorem fileSize (hp : m.Takes p 0) : Mount.fileSize t (m.source.resolve p) =
    ((s.tree.file? (StorageSource.resolve p)).map List.length).getD 0 := by
  rw [Mount.fileSize, h.isfile hp, LocalSource.resolve_eq, hp.location_eq, h.holds.file?]
  split_ifs with hfile
  · rfl
  · rw [DirectoryTree.isFile, Bool.not_eq_true, Option.isSome_eq_false_iff, Option.isNone_iff_eq_none] at hfile
    rw [hfile]
    rfl

theorem pathExists (hp : m.Takes p 0) :
    m.pathExists t p = (s.exists p).mapError SourceError.raised := by
  unfold Mount.pathExists StorageSource.exists
  have hnode : (PosixFiles.isdir t (m.source.resolve p) || PosixFiles.isfile t (m.source.resolve p)) =
      s.tree.exists? (StorageSource.resolve p) := by
    have hdir := h.isdir hp
    rw [List.replicate_zero, List.append_nil] at hdir
    rw [hdir, h.isfile hp, DirectoryTree.isDirectory, DirectoryTree.isFile, DirectoryTree.file?,
      DirectoryTree.exists?]
    cases s.tree.get (StorageSource.resolve p) with
    | none => rfl
    | some node =>
        cases node with
        | directory => rfl
        | file b => rfl
  rw [h.isActive, PosixFiles.pathExists, hnode]
  cases m.isActive with
  | false => rfl
  | true => rfl

/-- What one call on the larger tree makes, the source holds. -/
theorem makes_of_tree (path : List FileName) {made tree : PosixFiles.Tree Bytes}
    (htree : t.makedirs (location m.root ++ path.map Subtype.val) = .ok tree)
    (hmade : ∀ q, made.get q = tree.get q) : Makes m t (.ok (), made) (s.tree.makedirs path) := by
  have halike := h.holds.makedirs Subtype.val_injective (p := path)
  rw [htree] at halike
  generalize s.tree.makedirs path = result at halike
  cases halike with
  | done hholds =>
      refine .done (hholds.of_get (fun q _ _ => hmade q) hholds.noFile fun q => ?_)
      rw [hmade, hholds.get]

theorem makedirs (hp : m.Takes p k) : Makes m t
    (PosixFiles.makedirs t (m.source.resolve (p ++ List.replicate k '/')))
    (s.tree.makedirs (StorageSource.resolve p)) := by
  rw [LocalSource.resolve_eq, joinPath_append_slashes hp.tidy]
  rcases PosixFiles.makedirs_below (h.isDirectory_root hp.rooted) (fun q hq => h.isFile_above hq) hp.plain
    hp.tidy hp.fits hp.null with ⟨made, tree, hmakedirs, htree, hmade⟩ | ⟨e, hmakedirs, htree⟩
  · rw [hmakedirs]
    rw [hp.location_eq] at htree
    exact h.makes_of_tree _ htree hmade
  · have halike := h.holds.makedirs Subtype.val_injective (p := StorageSource.resolve p)
    rw [hp.location_eq] at htree
    rw [htree] at halike
    rw [hmakedirs]
    generalize s.tree.makedirs (StorageSource.resolve p) = result at halike
    cases halike with
    | failed => exact .failed e

/-- The directory of a file. -/
theorem makeParent (hp : m.Takes p 0) : Makes m t
    (PosixFiles.makedirs t (dirname (m.source.resolve p)))
    (s.tree.makedirs (StorageSource.resolve p).dropLast) := by
  rcases not_mem_or_split '/' p with hnone | ⟨a, b, rfl, hb⟩
  · -- one name: its directory is the data root, where no file is in the way
    have hroot : (StorageSource.resolve p).dropLast = [] := by
      have hval := StorageSource.val_resolve hp.tidy
      rw [List.splitOn_eq_singleton hnone, List.map_eq_singleton_iff] at hval
      obtain ⟨name, hname, -⟩ := hval
      rw [hname]
      rfl
    have hlocation := hp.location_dirname
    rw [hroot, List.map_nil, List.append_nil] at hlocation
    have hplain := PosixFiles.plain_dirname (plain_joinPath hp.plain hp.tidy.plain)
    obtain ⟨made, tree, hmakedirs, htree, hmade⟩ := PosixFiles.makedirs_clear
      (h.isDirectory_root hp.rooted) hplain hp.fits_dirname hp.null_dirname
      fun q hq => h.isFile_above (hlocation ▸ hq)
    rw [LocalSource.resolve_eq, hmakedirs, hroot]
    rw [hlocation, ← List.append_nil (location m.root)] at htree
    exact h.makes_of_tree [] htree hmade
  · obtain ⟨ha, hname⟩ := Tidy.append_iff.mp hp.tidy
    have hdir := PosixFiles.dirname_joinPath_append m.root ha hb
    have hfits := hp.fits_dirname
    have hnull := hp.null_dirname
    rw [hdir] at hfits hnull
    have hmake := h.makedirs (p := a) (k := 0) ⟨hp.rooted, hp.plain, ha, by simpa using hfits, hnull⟩
    have hresolve : (StorageSource.resolve (a ++ '/' :: b)).dropLast = StorageSource.resolve a := by
      have hval := congrArg List.dropLast (StorageSource.val_resolve hp.tidy)
      rw [List.splitOn_append_cons_self, List.splitOn_eq_singleton hb, List.dropLast_concat,
        ← StorageSource.val_resolve ha, ← List.map_dropLast] at hval
      exact List.map_injective_iff.mpr Subtype.val_injective hval
    rw [List.replicate_zero, List.append_nil, LocalSource.resolve_eq] at hmake
    rw [LocalSource.resolve_eq, hdir, hresolve]
    exact hmake

theorem isdir_dirname (hp : m.Takes p 0) : PosixFiles.isdir t (dirname (m.source.resolve p)) =
    s.tree.isDirectory (StorageSource.resolve p).dropLast := by
  rw [LocalSource.resolve_eq, PosixFiles.isdir, hp.null_dirname,
    PosixFiles.not_tooLong_of_fits hp.fits_dirname, hp.location_dirname, h.holds.isDirectory]
  rfl

/-- A directory source makes the directory of a file only where it is not there. -/
theorem makeParent_missing (hp : m.Takes p 0) : Makes m t
    (if dirname (m.source.resolve p) ≠ [] ∧ PosixFiles.isdir t (dirname (m.source.resolve p)) = false then
      PosixFiles.makedirs t (dirname (m.source.resolve p))
    else (.ok (), t))
    (s.tree.makedirs (StorageSource.resolve p).dropLast) := by
  split_ifs with hmissing
  · exact h.makeParent hp
  · have hdir : s.tree.isDirectory (StorageSource.resolve p).dropLast = true := by
      rw [not_and_or, not_not] at hmissing
      rcases hmissing with hnil | hthere
      · have hlocation := hp.location_dirname
        rw [← LocalSource.resolve_eq, hnil] at hlocation
        exact absurd (List.append_eq_nil_iff.mp hlocation.symm).1 hp.rooted
      · rw [h.isdir_dirname hp] at hthere
        simpa using hthere
    obtain ⟨tree, htree, hsame⟩ := DirectoryTree.makedirs_of_isDirectory (h.holds.isDirectory.trans hdir)
    exact h.makes_of_tree _ htree fun q => (hsame q).symm

/-- `open(path, "wb").write(contents)` below the data root. -/
theorem openWrite (hp : m.Takes p 0) (data : Bytes) :
    (∃ t' tree, PosixFiles.openWrite t (m.source.resolve p) data = .ok t' ∧
      s.tree.write (StorageSource.resolve p) data = .ok tree ∧
        Holds Subtype.val (location m.root) t' tree) ∨
    ∃ e, PosixFiles.openWrite t (m.source.resolve p) data = .error (.os e) ∧
      s.tree.write (StorageSource.resolve p) data = .error e := by
  have hends := PosixFiles.endsAsDirectory_of_name (PosixFiles.properName_basename m.root hp.tidy)
  have hopen : PosixFiles.openWrite t (m.source.resolve p) data =
      (t.write (location m.root ++ (StorageSource.resolve p).map Subtype.val) data).mapError .os := by
    rw [LocalSource.resolve_eq, PosixFiles.openWrite, hp.null, PosixFiles.not_tooLong_of_fits hp.fits_path,
      hends, hp.location_eq]
    rfl
  rw [hopen]
  have halike := h.holds.write Subtype.val_injective (StorageSource.resolve_ne_nil hp.tidy) (b := data)
  revert halike
  generalize t.write (location m.root ++ (StorageSource.resolve p).map Subtype.val) data = large
  generalize s.tree.write (StorageSource.resolve p) data = small
  intro halike
  cases halike with
  | done hholds => exact Or.inl ⟨_, _, rfl, rfl, hholds⟩
  | failed e => exact Or.inr ⟨e, rfl, rfl⟩

/-- The removal of a file below the data root. -/
theorem remove (hp : m.Takes p 0) :
    (∃ t' tree, PosixFiles.remove t (m.source.resolve p) = .ok t' ∧
      s.tree.remove (StorageSource.resolve p) = .ok tree ∧
        Holds Subtype.val (location m.root) t' tree) ∨
    ∃ e, PosixFiles.remove t (m.source.resolve p) = .error (.os e) ∧
      s.tree.remove (StorageSource.resolve p) = .error e := by
  have hends := PosixFiles.endsAsDirectory_of_name (PosixFiles.properName_basename m.root hp.tidy)
  have hremove : PosixFiles.remove t (m.source.resolve p) =
      (t.remove (location m.root ++ (StorageSource.resolve p).map Subtype.val)).mapError .os := by
    rw [LocalSource.resolve_eq, PosixFiles.remove, hp.null, PosixFiles.not_tooLong_of_fits hp.fits_path,
      hends, hp.location_eq]
    rfl
  rw [hremove]
  have halike := h.holds.remove Subtype.val_injective (p := StorageSource.resolve p)
  revert halike
  generalize t.remove (location m.root ++ (StorageSource.resolve p).map Subtype.val) = large
  generalize s.tree.remove (StorageSource.resolve p) = small
  intro halike
  cases halike with
  | done hholds => exact Or.inl ⟨_, _, rfl, rfl, hholds⟩
  | failed e => exact Or.inr ⟨e, rfl, rfl⟩

/-- The removal of a directory below the data root, or of the root. -/
theorem rmtree (hp : m.Takes p k) :
    (∃ t' tree, PosixFiles.rmtree t (m.source.resolve (p ++ List.replicate k '/')) = (.ok (), t') ∧
      s.tree.rmtree (StorageSource.resolve p) = .ok tree ∧
        Holds Subtype.val (location m.root) t' tree) ∨
    ∃ e, PosixFiles.rmtree t (m.source.resolve (p ++ List.replicate k '/')) = (.error (.os e), t) ∧
      s.tree.rmtree (StorageSource.resolve p) = .error e := by
  have halike := h.holds.rmtree Subtype.val_injective (p := StorageSource.resolve p)
  have hfits := hp.fits
  rw [LocalSource.resolve_eq, joinPath_append_slashes hp.tidy, PosixFiles.rmtree,
    PosixFiles.hasNull_append_slashes, hp.null, PosixFiles.not_tooLong_of_fits hp.fits,
    PosixFiles.location_append_slashes, hp.location_eq]
  simp only [Bool.false_eq_true, if_false]
  revert halike
  generalize t.rmtree (location m.root ++ (StorageSource.resolve p).map Subtype.val) = large
  generalize s.tree.rmtree (StorageSource.resolve p) = small
  intro halike
  cases halike with
  | done hholds =>
      refine Or.inl ⟨_, _, ?_, rfl, hholds⟩
      have hdot := PosixFiles.endsInDot_of_name (PosixFiles.properName_basename m.root hp.tidy) k
      simp only [hdot, Bool.false_eq_true, if_false]
  | failed e => exact Or.inr ⟨e, rfl, rfl⟩

theorem kind_of_directory {path : Text} (hsource : m.source = .directory path) : s.kind = .directory := by
  rw [h.kind, Mount.kind, hsource]

theorem kind_of_loopback {path : Text} (hsource : m.source = .loopback path) :
    s.kind = .loopback m.sizeBytes := by
  rw [h.kind, Mount.kind, hsource]

theorem usedBytes_of_loopback {path : Text} (hsource : m.source = .loopback path) :
    s.usedBytes = m.usedBytes := by
  refine h.usedBytes ?_
  rw [h.kind_of_loopback hsource]
  exact SourceKind.noConfusion

/-- A write that has found room: the directory is made, then the file. -/
theorem write_rest (hp : m.Takes p 0) (data : Bytes) (used : Int) (m' : Mount)
    {making : Except PosixFiles.Raised Unit × PosixFiles.Tree Bytes}
    (hmakes : Makes m t making (s.tree.makedirs (StorageSource.resolve p).dropLast))
    (hdone : ∀ made tree, m.Mirrors made { s with tree } →
      m'.Mirrors made { s with tree, usedBytes := used }) :
    Refines (match making with
      | (.error e, made) => (.error (.file e), m.failed e true, made)
      | (.ok _, made) =>
          match PosixFiles.openWrite made (m.source.resolve p) data with
          | .error e => (.error (.file e), m.failed e true, made)
          | .ok written => (.ok (), m', written))
      (match s.tree.makedirs (StorageSource.resolve p).dropLast with
      | .error e => (.error (.os e), s.raised e true)
      | .ok tree =>
          match tree.write (StorageSource.resolve p) data with
          | .error e => (.error (.os e), { s with tree }.raised e true)
          | .ok tree => (.ok (), { s with tree, usedBytes := used })) := by
  revert hmakes
  generalize s.tree.makedirs (StorageSource.resolve p).dropLast = small
  intro hmakes
  cases hmakes with
  | failed e => exact h.refines_failed e true
  | done hholds =>
      rename_i made tree
      have hmade : m.Mirrors made { s with tree } := h.with_tree hholds
      dsimp only
      rcases hmade.openWrite hp data with ⟨t', tree', hopen, htree, hwritten⟩ | ⟨e, hopen, htree⟩
      · rw [hopen]
        dsimp only at htree ⊢
        rw [htree]
        exact ⟨rfl, hdone t' tree' (h.with_tree hwritten)⟩
      · rw [hopen]
        dsimp only at htree ⊢
        rw [htree]
        exact hmade.refines_failed e true

theorem write (hp : m.Takes p 0) (data : Bytes) : Refines (m.write t p data) (s.write p data) := by
  refine h.refines_active ?_
  rw [← h.fileSize hp]
  split
  · rename_i path hsource
    have hkind := h.kind_of_directory hsource
    have hroom : ¬(!s.hasRoom (Mount.fileSize t (m.source.resolve p)) data.length) = true := by
      simp [StorageSource.hasRoom, hkind]
    rw [if_neg hroom]
    refine h.write_rest hp data _ m (h.makeParent_missing hp) fun made tree hmade => ?_
    exact ⟨hmade.kind, hmade.isActive, fun hne => absurd hkind hne, hmade.holds⟩
  · rename_i path hsource
    have hkind := h.kind_of_loopback hsource
    have hused := h.usedBytes_of_loopback hsource
    have hroom : (!s.hasRoom (Mount.fileSize t (m.source.resolve p)) data.length) = true ↔
        0 < (data.length : Int) - Mount.fileSize t (m.source.resolve p) ∧
          m.sizeBytes - m.usedBytes < (data.length : Int) - Mount.fileSize t (m.source.resolve p) := by
      simp [StorageSource.hasRoom, hkind, hused]
    by_cases hfull : (!s.hasRoom (Mount.fileSize t (m.source.resolve p)) data.length) = true
    · dsimp only
      rw [if_pos hfull, if_pos (hroom.mp hfull)]
      exact ⟨rfl, h⟩
    · dsimp only
      rw [if_neg hfull, if_neg fun hneeded => hfull (hroom.mpr hneeded)]
      have hfailed : ∀ e spared, m.failed e spared = m := by
        intro e spared
        rw [Mount.failed, hsource]
      have hrest := h.write_rest hp data
        (s.usedBytes + (data.length - Mount.fileSize t (m.source.resolve p)))
        { m with usedBytes := m.usedBytes + (data.length - Mount.fileSize t (m.source.resolve p)) }
        (h.makeParent hp)
        fun made tree hmade => ⟨hmade.kind, hmade.isActive, fun _ => by rw [hused], hmade.holds⟩
      simp only [hfailed] at hrest
      exact hrest

theorem delete (hp : m.Takes p 0) : Refines (m.delete t p) (s.delete p) := by
  refine h.refines_active ?_
  split
  · rename_i path hsource
    have hkind := h.kind_of_directory hsource
    rcases h.remove hp with ⟨t', tree, hremove, htree, hholds⟩ | ⟨e, hremove, htree⟩
    · rw [hremove, htree]
      exact ⟨rfl, h.kind, h.isActive, fun hne => absurd hkind hne, hholds⟩
    · rw [hremove, htree]
      dsimp only
      rw [hkind]
      exact h.refines_failed e true
  · rename_i path hsource
    have hkind := h.kind_of_loopback hsource
    have hused := h.usedBytes_of_loopback hsource
    rw [h.isfile hp, h.fileSize hp]
    rcases h.remove hp with ⟨t', tree, hremove, htree, hholds⟩ | ⟨e, hremove, htree⟩
    · rw [if_pos (DirectoryTree.remove_eq_ok_iff.mp ⟨tree, htree⟩), hremove, htree]
      exact ⟨rfl, h.kind, h.isActive, fun _ => by rw [hused], hholds⟩
    · rw [hremove, htree]
      dsimp only
      rw [hkind]
      split_ifs with hfile
      · obtain ⟨tree, hok⟩ := DirectoryTree.remove_eq_ok_iff.mpr hfile
        rw [htree] at hok
        cases hok
      · exact ⟨rfl, h⟩

theorem mkdir (hp : m.Takes p k) :
    Refines (m.mkdir t (p ++ List.replicate k '/')) (s.mkdir (p ++ List.replicate k '/')) := by
  refine h.refines_active ?_
  have hmakes := h.makedirs hp
  rw [StorageSource.resolve_append_slashes]
  revert hmakes
  generalize PosixFiles.makedirs t (m.source.resolve (p ++ List.replicate k '/')) = large
  generalize s.tree.makedirs (StorageSource.resolve p) = small
  intro hmakes
  cases hmakes with
  | done hholds => exact ⟨rfl, h.with_tree hholds⟩
  | failed e => exact h.refines_failed e false

theorem rmdir (hp : m.Takes p k) :
    Refines (m.rmdir t (p ++ List.replicate k '/')) (s.rmdir (p ++ List.replicate k '/')) := by
  refine h.refines_active ?_
  rw [StorageSource.resolve_append_slashes]
  split
  · rename_i path hsource
    have hkind := h.kind_of_directory hsource
    rcases h.rmtree hp with ⟨t', tree, hremove, htree, hholds⟩ | ⟨e, hremove, htree⟩
    · rw [hremove, htree]
      exact ⟨rfl, h.with_tree hholds⟩
    · rw [hremove, htree]
      dsimp only
      rw [hkind]
      exact h.refines_failed e false
  · rename_i path hsource
    have hkind := h.kind_of_loopback hsource
    rw [h.isdir hp]
    rcases h.rmtree hp with ⟨t', tree, hremove, htree, hholds⟩ | ⟨e, hremove, htree⟩
    · rw [if_pos (DirectoryTree.isDirectory_of_rmtree htree), hremove, htree]
      exact ⟨rfl, h.with_tree hholds⟩
    · rw [hremove, htree]
      dsimp only
      rw [hkind]
      split_ifs with hdir
      · obtain ⟨tree, hok⟩ := DirectoryTree.exists_rmtree hdir
        rw [htree] at hok
        cases hok
      · exact ⟨rfl, h⟩

end Mirrors

end

end Mount

end StardustFS
