import StardustFS.DirectoryTree
import StardustFS.MetadataStore

/-! Storage sources: a local directory, or the companion directory of a loopback file with its size
limit. A directory source takes itself out of service when an operation raises an `OSError`. -/

namespace StardustFS

/-- A name in a directory: not empty, not the directory itself and without a separator. -/
abbrev FileName := { name : Text // name ≠ [] ∧ name ≠ ['.'] ∧ '/' ∉ name }

inductive SourceKind where
  | directory
  | loopback (sizeBytes : Nat)
  deriving DecidableEq, Repr

inductive SourceError where
  | os (e : DirectoryTree.Error)
  | inactive
  | insufficientSpace
  deriving DecidableEq, Repr

/-- A local source. `usedBytes` is the counter a loopback source keeps. -/
structure StorageSource where
  kind : SourceKind
  isActive : Bool := true
  usedBytes : Int := 0
  tree : DirectoryTree FileName Bytes := DirectoryTree.root

namespace StorageSource

/-- `_resolve`: the names on the way from the source root to the physical path. -/
def resolve (physicalPath : Text) : List FileName :=
  (physicalPath.splitOn '/').filterMap fun name =>
    if h : name ≠ [] ∧ name ≠ ['.'] ∧ '/' ∉ name then some ⟨name, h⟩ else none

/-- The source after an operation raised. A directory source deactivates itself; where `spared`, a
missing file is passed on without that. -/
def raised (s : StorageSource) (e : DirectoryTree.Error) (spared : Bool) : StorageSource :=
  match s.kind with
  | .directory => if spared && e = .fileNotFound then s else { s with isActive := false }
  | .loopback _ => s

def read (s : StorageSource) (physicalPath : Text) : Except SourceError Bytes × StorageSource :=
  if !s.isActive then (.error .inactive, s)
  else match s.tree.read (resolve physicalPath) with
    | .ok data => (.ok data, s)
    | .error e => (.error (.os e), s.raised e true)

/-- The check of a loopback source before it writes: a file may grow by what is left of the size. -/
def hasRoom (s : StorageSource) (existingSize newSize : Nat) : Bool :=
  match s.kind with
  | .directory => true
  | .loopback sizeBytes =>
      let needed : Int := newSize - existingSize
      !(0 < needed && sizeBytes - s.usedBytes < needed)

/-- Parent directories are made, then the file is written; a loopback source checks its size first
and counts afterwards. -/
def write (s : StorageSource) (physicalPath : Text) (data : Bytes) :
    Except SourceError Unit × StorageSource :=
  let path := resolve physicalPath
  let existingSize := ((s.tree.file? path).map List.length).getD 0
  if !s.isActive then (.error .inactive, s)
  else if !s.hasRoom existingSize data.length then (.error .insufficientSpace, s)
  else match s.tree.makedirs path.dropLast with
    | .error e => (.error (.os e), s.raised e true)
    | .ok tree =>
        match tree.write path data with
        | .error e => (.error (.os e), { s with tree }.raised e true)
        | .ok tree =>
            (.ok (), { s with tree, usedBytes := s.usedBytes + (data.length - existingSize) })

/-- A loopback source deletes regular files only and is silent otherwise. -/
def delete (s : StorageSource) (physicalPath : Text) : Except SourceError Unit × StorageSource :=
  let path := resolve physicalPath
  if !s.isActive then (.error .inactive, s)
  else match s.tree.remove path with
    | .ok tree =>
        (.ok (), { s with
          tree
          usedBytes := max 0 (s.usedBytes - ((s.tree.file? path).map List.length).getD 0) })
    | .error e =>
        match s.kind with
        | .directory => (.error (.os e), s.raised e true)
        | .loopback _ => (.ok (), s)

def «exists» (s : StorageSource) (physicalPath : Text) : Except SourceError Bool :=
  if !s.isActive then .error .inactive else .ok (s.tree.exists? (resolve physicalPath))

def mkdir (s : StorageSource) (physicalPath : Text) : Except SourceError Unit × StorageSource :=
  if !s.isActive then (.error .inactive, s)
  else match s.tree.makedirs (resolve physicalPath) with
    | .ok tree => (.ok (), { s with tree })
    | .error e => (.error (.os e), s.raised e false)

/-- The directory with everything below it. A loopback source is silent where there is none. -/
def rmdir (s : StorageSource) (physicalPath : Text) : Except SourceError Unit × StorageSource :=
  if !s.isActive then (.error .inactive, s)
  else match s.tree.rmtree (resolve physicalPath) with
    | .ok tree => (.ok (), { s with tree })
    | .error e =>
        match s.kind with
        | .directory => (.error (.os e), s.raised e false)
        | .loopback _ => (.ok (), s)

def listPhysicalFiles (s : StorageSource) : Except SourceError (List Text) :=
  if !s.isActive then .error .inactive else .ok (s.tree.rootFiles.map Subtype.val)

/-- `diskFree` is what the operating system reports for the disk of a directory source. -/
def getAvailableSpace (s : StorageSource) (diskFree : Nat) : Nat :=
  match s.kind with
  | .directory => diskFree
  | .loopback sizeBytes => (sizeBytes - s.usedBytes).toNat

/-! ### What the operations leave -/

/-- The bytes stored under a physical path. -/
def contents (s : StorageSource) (physicalPath : Text) : Option Bytes :=
  s.tree.file? (resolve physicalPath)

@[simp] theorem raised_kind (s : StorageSource) (e : DirectoryTree.Error) (spared : Bool) :
    (s.raised e spared).kind = s.kind := by
  unfold raised
  split
  · split_ifs <;> rfl
  · rfl

@[simp] theorem raised_tree (s : StorageSource) (e : DirectoryTree.Error) (spared : Bool) :
    (s.raised e spared).tree = s.tree := by
  unfold raised
  cases s.kind with
  | directory =>
      dsimp only
      split_ifs <;> rfl
  | loopback _ => rfl

theorem read_eq_ok_iff {s : StorageSource} {p : Text} {data : Bytes} :
    (s.read p).1 = .ok data ↔ s.isActive = true ∧ s.contents p = some data := by
  unfold read contents
  cases s.isActive with
  | false => simp
  | true =>
      rw [DirectoryTree.file?_eq_some_iff, ← DirectoryTree.read_eq_ok_iff]
      cases s.tree.read (resolve p) with
      | ok b => simp
      | error e => simp

theorem read_of_ok {s : StorageSource} {p : Text} {data : Bytes} (h : (s.read p).1 = .ok data) :
    s.read p = (.ok data, s) := by
  unfold read at h ⊢
  cases hact : s.isActive with
  | false => simp [hact] at h
  | true =>
      cases hr : s.tree.read (resolve p) with
      | ok b => simpa [hact, hr] using h
      | error e => simp [hact, hr] at h

/-- A name resolves to itself. -/
theorem resolve_name (name : FileName) : resolve name.val = [name] := by
  have hsplit : name.val.splitOn '/' = [name.val] := List.splitOn_eq_singleton name.property.2.2
  rw [resolve, hsplit, List.filterMap_cons, dif_pos name.property]
  rfl

theorem resolve_append_slash (a b : Text) : resolve (a ++ '/' :: b) = resolve a ++ resolve b := by
  unfold resolve
  rw [List.splitOn_append_cons_self, List.filterMap_append]

end StorageSource

end StardustFS
