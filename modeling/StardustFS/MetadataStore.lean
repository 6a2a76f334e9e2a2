import StardustFS.KeyedTable
import StardustFS.LikePattern

/-! The metadata database of a device: the `files` table, one row per virtual path with its version,
synchronisation status and tombstone flag, and the `directories` table. Every method commits its own
statement, so the store is the committed tables. Clock readings are whole seconds. -/

namespace StardustFS

abbrev SourceId := String
abbrev DeviceId := String
abbrev Time := Int
abbrev Bytes := List UInt8

inductive SyncStatus where
  | synced
  | pending
  | conflict
  deriving DecidableEq, Repr

inductive ReplicationStatus where
  | none
  | pending
  | replicated
  deriving DecidableEq, Repr

/-- The columns of a row of `files` other than its key, the virtual path. -/
structure FileRow where
  sourceId : SourceId
  physicalPath : Text
  fileSize : Nat
  createdAt : Time
  modifiedAt : Time
  version : Int := 1
  deviceId : Option DeviceId := .none
  syncStatus : SyncStatus := .synced
  deleted : Bool := false
  replicationStatus : ReplicationStatus := .none
  deriving DecidableEq, Repr

/-- Where the bytes of a file are: the owner, the source and the physical path. -/
structure Place where
  deviceId : Option DeviceId
  sourceId : SourceId
  physicalPath : Text
  deriving DecidableEq, Repr

def FileRow.place (r : FileRow) : Place := ⟨r.deviceId, r.sourceId, r.physicalPath⟩

structure EntryInfo where
  name : Text
  isDirectory : Bool
  fileSize : Nat
  createdAt : Time
  modifiedAt : Time
  deriving DecidableEq, Repr

/-- The `files` table, which is also what an uploaded snapshot holds for a merge to read. -/
abbrev Files := Table Text FileRow

structure MetadataStore where
  files : Files
  directories : Table Text Time
  deriving DecidableEq

namespace MetadataStore

/-- The database just after `initialize` on an empty file. -/
def initial : MetadataStore := ⟨Table.empty, Table.empty⟩

/-- The row at the path, tombstones included. -/
def lookupAny (s : MetadataStore) (virtualPath : Text) : Option FileRow :=
  s.files.get virtualPath

/-- The row at the path; a tombstone counts as absent. -/
def lookup (s : MetadataStore) (virtualPath : Text) : Option FileRow :=
  (s.lookupAny virtualPath).filter fun r => !r.deleted

/-- What `insert` writes over an existing row, in practice a tombstone: the row is reactivated at a
version above the deletion's. The replication status is not among the columns it sets. -/
def reactivated (r : FileRow) (sourceId : SourceId) (physicalPath : Text) (fileSize : Nat)
    (createdAt modifiedAt : Time) (deviceId : Option DeviceId) : FileRow :=
  { r with
    sourceId := sourceId
    physicalPath := physicalPath
    fileSize := fileSize
    createdAt := createdAt
    modifiedAt := modifiedAt
    version := r.version + 1
    syncStatus := .pending
    deleted := false
    deviceId := deviceId }

def insert (s : MetadataStore) (virtualPath : Text) (sourceId : SourceId) (physicalPath : Text)
    (fileSize : Nat) (createdAt modifiedAt : Time) (deviceId : Option DeviceId) : MetadataStore :=
  match s.lookupAny virtualPath with
  | some _ =>
      { s with files := s.files.update virtualPath fun r =>
          reactivated r sourceId physicalPath fileSize createdAt modifiedAt deviceId }
  | none =>
      { s with
        files := s.files.insert virtualPath
          { sourceId, physicalPath, fileSize, createdAt, modifiedAt, version := 1, deviceId,
            syncStatus := .pending, deleted := false } }

/-- The columns `update` sets; an argument that is absent leaves its column alone. -/
def edited (r : FileRow) (fileSize : Nat) (modifiedAt : Time) (deviceId : Option DeviceId)
    (sourceId : Option SourceId) (physicalPath : Option Text) : FileRow :=
  { r with
    fileSize := fileSize
    modifiedAt := modifiedAt
    version := r.version + 1
    syncStatus := .pending
    deviceId := deviceId <|> r.deviceId
    sourceId := sourceId.getD r.sourceId
    physicalPath := physicalPath.getD r.physicalPath }

def update (s : MetadataStore) (virtualPath : Text) (fileSize : Nat) (modifiedAt : Time)
    (deviceId : Option DeviceId) (sourceId : Option SourceId) (physicalPath : Option Text) :
    MetadataStore :=
  { s with files := s.files.update virtualPath fun r =>
      edited r fileSize modifiedAt deviceId sourceId physicalPath }

def setSyncStatus (s : MetadataStore) (virtualPath : Text) (status : SyncStatus) :
    MetadataStore :=
  { s with files := s.files.update virtualPath fun r => { r with syncStatus := status } }

def setReplicationStatus (s : MetadataStore) (virtualPath : Text) (status : ReplicationStatus) :
    MetadataStore :=
  { s with files := s.files.update virtualPath fun r => { r with replicationStatus := status } }

def getReplicationStatus (s : MetadataStore) (virtualPath : Text) : Option ReplicationStatus :=
  (s.lookupAny virtualPath).map (·.replicationStatus)

/-- The rows with status pending, tombstones included. -/
def getPendingFiles (s : MetadataStore) : List (Text × FileRow) :=
  s.files.rows.filter fun x => x.2.syncStatus = .pending

/-- The columns a soft delete sets. -/
def tombstone (r : FileRow) (now : Time) : FileRow :=
  { r with deleted := true, version := r.version + 1, syncStatus := .pending, modifiedAt := now }

def delete (s : MetadataStore) (virtualPath : Text) (now : Time) : MetadataStore :=
  { s with files := s.files.update virtualPath fun r => tombstone r now }

/-- The row is a tombstone older than the retention period. -/
def expired (r : FileRow) (now retentionSeconds : Time) : Bool :=
  r.deleted && decide (r.modifiedAt < now - retentionSeconds)

def purgeExpiredTombstones (s : MetadataStore) (now retentionSeconds : Time) : MetadataStore :=
  { s with files := s.files.deleteWhere fun _ r => expired r now retentionSeconds }

/-- The `(source_id, physical_path)` pairs orphan collection keeps: those of the live rows owned by
the device or by nobody. -/
def livePhysicalPathsForDevice (s : MetadataStore) (deviceId : DeviceId) : List (SourceId × Text) :=
  (s.files.rows.filter fun x =>
    !x.2.deleted && (x.2.deviceId == some deviceId || x.2.deviceId == none)).map
      fun x => (x.2.sourceId, x.2.physicalPath)

def insertDirectory (s : MetadataStore) (virtualPath : Text) (createdAt : Time) : MetadataStore :=
  { s with directories := s.directories.insert virtualPath createdAt }

def lookupDirectory (s : MetadataStore) (virtualPath : Text) : Bool :=
  (s.directories.get virtualPath).isSome

def deleteDirectoryEntry (s : MetadataStore) (virtualPath : Text) : MetadataStore :=
  { s with directories := s.directories.deleteWhere fun k _ => k = virtualPath }

/-- The directory path with a slash at its end. -/
def withSlash (directoryPath : Text) : Text :=
  if Text.endsWith directoryPath '/' then directoryPath else directoryPath ++ ['/']

/-- What one live file row adds to a listing: itself, or the directory it lies below. -/
def listFile (directoryPath : Text) (results : Table Text EntryInfo) (x : Text × FileRow) :
    Table Text EntryInfo :=
  let relative := x.1.drop directoryPath.length
  if relative = [] then results
  else if '/' ∉ relative then
    results.put relative ⟨relative, false, x.2.fileSize, x.2.createdAt, x.2.modifiedAt⟩
  else
    let dirName := relative.takeWhile (· != '/')
    results.insert dirName ⟨dirName, true, 0, x.2.createdAt, x.2.modifiedAt⟩

/-- What one registered directory adds to a listing. -/
def listSubdirectory (directoryPath : Text) (results : Table Text EntryInfo) (x : Text × Time) :
    Table Text EntryInfo :=
  let relative := x.1.drop directoryPath.length
  if relative = [] then results
  else
    let relative := Text.rstrip '/' relative
    if '/' ∉ relative then results.insert relative ⟨relative, true, 0, x.2, x.2⟩ else results

/-- The direct entries of a directory. Rows are selected with `LIKE directory_path || '%'`. -/
def listEntries (s : MetadataStore) (directoryPath : Text) : List EntryInfo :=
  let directoryPath := withSlash directoryPath
  let files := s.files.rows.filter fun x =>
    LikePattern.likePrefix directoryPath x.1 && !x.2.deleted
  let dirs := s.directories.rows.filter fun x => LikePattern.likePrefix directoryPath x.1
  let results := files.foldl (listFile directoryPath) Table.empty
  ((dirs.foldl (listSubdirectory directoryPath) results).rows).map Prod.snd

/-- `UPDATE files SET virtual_path = new WHERE virtual_path = old`; `none` is the violated unique
key. -/
def renamePath (s : MetadataStore) (oldPath newPath : Text) : Option MetadataStore :=
  (s.files.rename? oldPath newPath).map fun files => { s with files }

/-- The path a row moves to when the prefix of its directory changes:
`new_prefix || SUBSTR(virtual_path, len(old_prefix) + 1)`. -/
def moved (oldPrefix newPrefix : Text) (virtualPath : Text) : Text :=
  newPrefix ++ virtualPath.drop oldPrefix.length

/-- The two statements of `rename_directory`. Where the second is refused, the first has been
executed and its effect is visible on the connection. -/
def renameDirectory (s : MetadataStore) (oldPrefix newPrefix : Text) : MetadataStore × Bool :=
  match s.files.renameWhere? (LikePattern.likePrefix oldPrefix) (moved oldPrefix newPrefix) with
  | none => (s, false)
  | some files =>
      match s.directories.renameWhere? (LikePattern.likePrefix oldPrefix)
          (moved oldPrefix newPrefix) with
      | none => ({ s with files }, false)
      | some directories => ({ s with files, directories }, true)

/-! ### What the statements leave at a path -/

theorem lookup_eq_some_iff {s : MetadataStore} {p : Text} {r : FileRow} :
    s.lookup p = some r ↔ s.lookupAny p = some r ∧ r.deleted = false := by
  simp [lookup, Option.filter_eq_some_iff]

theorem lookup_eq_none_iff {s : MetadataStore} {p : Text} :
    s.lookup p = none ↔ ∀ r, s.lookupAny p = some r → r.deleted = true := by
  simp [lookup, Option.filter_eq_none_iff]

@[simp] theorem lookupAny_update_self (s : MetadataStore) (p : Text) (fs : Nat) (m : Time)
    (d : Option DeviceId) (src : Option SourceId) (ph : Option Text) :
    (s.update p fs m d src ph).lookupAny p =
      (s.lookupAny p).map fun r => edited r fs m d src ph :=
  Table.get_update_self _ _ _

theorem lookupAny_update_of_ne (s : MetadataStore) {p q : Text} (fs : Nat) (m : Time)
    (d : Option DeviceId) (src : Option SourceId) (ph : Option Text) (h : q ≠ p) :
    (s.update p fs m d src ph).lookupAny q = s.lookupAny q :=
  Table.get_update_of_ne _ _ h

@[simp] theorem lookupAny_delete_self (s : MetadataStore) (p : Text) (now : Time) :
    (s.delete p now).lookupAny p = (s.lookupAny p).map fun r => tombstone r now :=
  Table.get_update_self _ _ _

theorem lookupAny_delete_of_ne (s : MetadataStore) {p q : Text} (now : Time) (h : q ≠ p) :
    (s.delete p now).lookupAny q = s.lookupAny q :=
  Table.get_update_of_ne _ _ h

@[simp] theorem lookupAny_setSyncStatus_self (s : MetadataStore) (p : Text) (st : SyncStatus) :
    (s.setSyncStatus p st).lookupAny p =
      (s.lookupAny p).map fun r => { r with syncStatus := st } :=
  Table.get_update_self _ _ _

theorem lookupAny_setSyncStatus_of_ne (s : MetadataStore) {p q : Text} (st : SyncStatus)
    (h : q ≠ p) : (s.setSyncStatus p st).lookupAny q = s.lookupAny q :=
  Table.get_update_of_ne _ _ h

theorem lookupAny_setSyncStatus (s : MetadataStore) (p q : Text) (st : SyncStatus) :
    (s.setSyncStatus p st).lookupAny q =
      if q = p then (s.lookupAny q).map fun r => { r with syncStatus := st }
      else s.lookupAny q :=
  Table.get_update _ _ _ _

theorem lookupAny_setReplicationStatus (s : MetadataStore) (p q : Text) (st : ReplicationStatus) :
    (s.setReplicationStatus p st).lookupAny q =
      if q = p then (s.lookupAny q).map fun r => { r with replicationStatus := st }
      else s.lookupAny q :=
  Table.get_update _ _ _ _

theorem lookupAny_insert_self (s : MetadataStore) (p : Text) (src : SourceId) (ph : Text)
    (fs : Nat) (c m : Time) (d : Option DeviceId) :
    (s.insert p src ph fs c m d).lookupAny p = some
      (match s.lookupAny p with
      | some r => reactivated r src ph fs c m d
      | none => { sourceId := src, physicalPath := ph, fileSize := fs, createdAt := c,
                  modifiedAt := m, version := 1, deviceId := d, syncStatus := .pending,
                  deleted := false }) := by
  unfold insert
  cases h : s.lookupAny p with
  | some r =>
      have hg : s.files.get p = some r := h
      simp [lookupAny, hg]
  | none => exact Table.get_insert_self h

theorem lookupAny_insert_of_ne (s : MetadataStore) {p q : Text} (src : SourceId) (ph : Text)
    (fs : Nat) (c m : Time) (d : Option DeviceId) (hq : q ≠ p) :
    (s.insert p src ph fs c m d).lookupAny q = s.lookupAny q := by
  unfold insert
  cases s.lookupAny p with
  | some r => exact Table.get_update_of_ne _ _ hq
  | none => exact Table.get_insert_of_ne _ _ hq

@[simp] theorem lookupAny_purgeExpiredTombstones (s : MetadataStore) (now ret : Time) (p : Text) :
    (s.purgeExpiredTombstones now ret).lookupAny p =
      (s.lookupAny p).filter fun r => !expired r now ret :=
  Table.get_deleteWhere _ _ _

theorem mem_getPendingFiles {s : MetadataStore} {p : Text} {r : FileRow} :
    (p, r) ∈ s.getPendingFiles ↔ s.lookupAny p = some r ∧ r.syncStatus = .pending := by
  simp only [getPendingFiles, List.mem_filter, lookupAny, Table.get_eq_some_iff, decide_eq_true_eq]

theorem renamePath_eq_none_iff {s : MetadataStore} {p q : Text} :
    s.renamePath p q = none ↔
      (∃ r, s.lookupAny p = some r) ∧ (∃ r, s.lookupAny q = some r) ∧ p ≠ q := by
  rw [renamePath, Option.map_eq_none_iff, Table.rename?_eq_none_iff, Table.mem_keys_iff,
    Table.mem_keys_iff]
  rfl

theorem renamePath_of_free {s : MetadataStore} (p : Text) {q : Text} (hq : s.lookupAny q = none) :
    ∃ s', s.renamePath p q = some s' := by
  obtain ⟨files, h⟩ := Table.rename?_eq_some s.files p hq
  exact ⟨_, by rw [renamePath, h, Option.map_some]⟩

theorem lookupAny_renamePath {s s' : MetadataStore} {p q : Text} {r : FileRow}
    (hr : s.lookupAny p = some r) (hne : p ≠ q) (h : s.renamePath p q = some s') (k : Text) :
    s'.lookupAny k = if k = q then some r else if k = p then none else s.lookupAny k := by
  rw [renamePath, Option.map_eq_some_iff] at h
  obtain ⟨files, hfiles, rfl⟩ := h
  exact Table.get_rename? hr hne hfiles k

end MetadataStore

/-! ### Local changes -/

/-- The arguments of one call of `MetadataStore.update`. -/
structure Edit where
  fileSize : Nat
  modifiedAt : Time
  deviceId : Option DeviceId := none
  sourceId : Option SourceId := none
  physicalPath : Option Text := none

/-- A change of one path through the store: `insert`, `update` or `delete` with its arguments. -/
inductive LocalOp where
  | insert (virtualPath : Text) (sourceId : SourceId) (physicalPath : Text) (fileSize : Nat)
      (createdAt modifiedAt : Time) (deviceId : Option DeviceId)
  | update (virtualPath : Text) (e : Edit)
  | delete (virtualPath : Text) (now : Time)

namespace LocalOp

def path : LocalOp → Text
  | insert p .. => p
  | update p _ => p
  | delete p _ => p

def apply (op : LocalOp) (s : MetadataStore) : MetadataStore :=
  match op with
  | insert p src ph fs c m d => s.insert p src ph fs c m d
  | update p e => s.update p e.fileSize e.modifiedAt e.deviceId e.sourceId e.physicalPath
  | delete p now => s.delete p now

theorem lookupAny_apply_of_ne (op : LocalOp) (s : MetadataStore) {q : Text} (hq : q ≠ op.path) :
    (op.apply s).lookupAny q = s.lookupAny q := by
  cases op with
  | insert p src ph fs c m d => exact s.lookupAny_insert_of_ne src ph fs c m d hq
  | update p e =>
      exact s.lookupAny_update_of_ne e.fileSize e.modifiedAt e.deviceId e.sourceId e.physicalPath hq
  | delete p now => exact s.lookupAny_delete_of_ne now hq

/-- A change leaves its path alone, where there is nothing to change, or the row there is pending one
version above the old one. -/
theorem lookupAny_apply_self (op : LocalOp) (s : MetadataStore) :
    (s.lookupAny op.path = none ∧ (op.apply s).lookupAny op.path = none) ∨
      ∃ r, (op.apply s).lookupAny op.path = some r ∧ r.syncStatus = .pending ∧
        r.version = ((s.lookupAny op.path).map FileRow.version).getD 0 + 1 := by
  cases op with
  | insert p src ph fs c m d =>
      right
      show ∃ r, (s.insert p src ph fs c m d).lookupAny p = some r ∧ _
      rw [MetadataStore.lookupAny_insert_self]
      refine ⟨_, rfl, ?_⟩
      show _ ∧ _ = ((s.lookupAny p).map FileRow.version).getD 0 + 1
      cases s.lookupAny p with
      | none => exact ⟨rfl, rfl⟩
      | some r => exact ⟨rfl, rfl⟩
  | update p e =>
      show (s.lookupAny p = none ∧ (s.update p _ _ _ _ _).lookupAny p = none) ∨
        ∃ r, (s.update p _ _ _ _ _).lookupAny p = some r ∧ _ ∧
          _ = ((s.lookupAny p).map FileRow.version).getD 0 + 1
      rw [MetadataStore.lookupAny_update_self]
      cases s.lookupAny p with
      | none => exact Or.inl ⟨rfl, rfl⟩
      | some r => exact Or.inr ⟨_, rfl, rfl, rfl⟩
  | delete p now =>
      show (s.lookupAny p = none ∧ (s.delete p now).lookupAny p = none) ∨
        ∃ r, (s.delete p now).lookupAny p = some r ∧ _ ∧
          _ = ((s.lookupAny p).map FileRow.version).getD 0 + 1
      rw [MetadataStore.lookupAny_delete_self]
      cases s.lookupAny p with
      | none => exact Or.inl ⟨rfl, rfl⟩
      | some r => exact Or.inr ⟨_, rfl, rfl, rfl⟩

end LocalOp

end StardustFS
