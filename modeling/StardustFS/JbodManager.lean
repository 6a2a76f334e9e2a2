import StardustFS.StorageSource

/-! The JBOD volume: the metadata database over the local sources of one device. A call that raises
leaves what it has done so far, so every operation answers its result together with the volume
after it. -/

namespace StardustFS

/-- The encryption of file contents. The initialisation vector is an argument; decryption takes back
what encryption made. -/
structure EncryptionEngine where
  encrypt : Bytes → Bytes → Bytes
  decrypt : Bytes → Option Bytes
  decrypt_encrypt : ∀ iv data, decrypt (encrypt iv data) = some data

inductive JbodError where
  | fileNotFound
  | sourceInactive
  | remoteUnavailable
  | insufficientStorage
  | decryptionFailed
  | integrity
  | recursionLimit
  | source (e : SourceError)
  deriving DecidableEq, Repr

/-- What one call reads from outside: the clock, a fresh UUID in hexadecimal, a random
initialisation vector and the free space of the disks. -/
structure Reading where
  now : Time
  uuid : Text
  iv : Bytes := []
  diskFree : SourceId → Nat

/-- The ciphertext another device serves for a source id and a physical path; `none` while that
device is not mounted or not reachable. -/
abbrev RemoteRead := DeviceId → SourceId → Text → Option Bytes

/-- The local sources are keyed by their ids. Proxies of other devices are not among them: they are
never selected, swept or scanned. -/
structure JbodManager where
  metadataStore : MetadataStore
  sources : Table SourceId StorageSource
  encryptionEngine : Option EncryptionEngine := none
  deviceId : Option DeviceId := none
  gcNeeded : Bool := false

namespace JbodManager

abbrev Result (α : Type) := Except JbodError α × JbodManager

/-- An operation on one source, and the volume after it. -/
def onSource {α : Type} (j : JbodManager) (sourceId : SourceId) (s : StorageSource)
    (op : StorageSource → Except SourceError α × StorageSource) :
    Except SourceError α × JbodManager :=
  let (result, s) := op s
  (result, { j with sources := j.sources.update sourceId fun _ => s })

/-- The most available space wins, the first of several equal ones. -/
def selectSource (j : JbodManager) (diskFree : SourceId → Nat) (fileSize : Nat) :
    Option SourceId :=
  let best := j.sources.rows.foldl (fun (best : Option (SourceId × Nat)) x =>
    if !x.2.isActive then best
    else
      let available := x.2.getAvailableSpace (diskFree x.1)
      if fileSize ≤ available && (best.map fun b => decide (b.2 < available)).getD true then
        some (x.1, available)
      else best) none
  best.map Prod.fst

/-- The directories of the virtual path are kept and the file name gets the UUID in front. -/
def generatePhysicalPath (uuid virtualPath : Text) : Text :=
  let parts := (Text.strip '/' virtualPath).splitOn '/'
  let filePart := uuid ++ '_' :: parts.getLast?.getD []
  if 1 < parts.length then ['/'].intercalate parts.dropLast ++ '/' :: filePart else filePart

/-- The record is owned by another device. -/
def ownedElsewhere (j : JbodManager) (row : FileRow) : Bool :=
  row.deviceId.isSome && row.deviceId != j.deviceId

def encrypt (j : JbodManager) (iv data : Bytes) : Bytes :=
  match j.encryptionEngine with
  | some engine => engine.encrypt iv data
  | none => data

def decrypt (j : JbodManager) (data : Bytes) : Except JbodError Bytes :=
  match j.encryptionEngine with
  | some engine =>
      match engine.decrypt data with
      | some plain => .ok plain
      | none => .error .decryptionFailed
  | none => .ok data

def readLocal (j : JbodManager) (metadata : FileRow) : Result Bytes :=
  match j.sources.get metadata.sourceId with
  | none => (.error .sourceInactive, j)
  | some s =>
      if !s.isActive then (.error .sourceInactive, j)
      else match j.onSource metadata.sourceId s (·.read metadata.physicalPath) with
        | (.ok data, j) => (j.decrypt data, j)
        | (.error e, j) => (.error (.source e), j)

def readRemote (j : JbodManager) (remote : RemoteRead) (device : DeviceId) (metadata : FileRow) :
    Result Bytes :=
  match remote device metadata.sourceId metadata.physicalPath with
  | none => (.error .remoteUnavailable, j)
  | some data => (j.decrypt data, j)

def readFile (j : JbodManager) (remote : RemoteRead) (virtualPath : Text) : Result Bytes :=
  match j.metadataStore.lookup virtualPath with
  | none => (.error .fileNotFound, j)
  | some metadata =>
      match metadata.deviceId with
      | none => j.readLocal metadata
      | some owner =>
          if some owner = j.deviceId then j.readLocal metadata
          else j.readRemote remote owner metadata

/-- What is left of a file whose write failed is removed; the exceptions of doing so come first. -/
def discardPartial (j : JbodManager) (sourceId : SourceId) (physicalPath : Text) (e : JbodError) :
    Result Unit :=
  match j.sources.get sourceId with
  | none => (.error e, j)
  | some s =>
      match s.exists physicalPath with
      | .error e' => (.error (.source e'), j)
      | .ok false => (.error e, j)
      | .ok true =>
          match j.onSource sourceId s (·.delete physicalPath) with
          | (.error e', j) => (.error (.source e'), j)
          | (.ok _, j) => (.error e, j)

/-- A full loopback source is reported as missing storage. -/
def storageError (e : SourceError) : JbodError :=
  if e = .insufficientSpace then .insufficientStorage else .source e

def takeoverWrite (j : JbodManager) (reading : Reading) (virtualPath : Text) (encrypted : Bytes)
    (plainSize : Nat) : Result Unit :=
  match j.selectSource reading.diskFree encrypted.length with
  | none => (.error .insufficientStorage, j)
  | some sourceId =>
      let newPhysicalPath := generatePhysicalPath reading.uuid virtualPath
      match j.sources.get sourceId with
      | none => (.error .insufficientStorage, j)
      | some s =>
          match j.onSource sourceId s (·.write newPhysicalPath encrypted) with
          | (.error e, j) => j.discardPartial sourceId newPhysicalPath (storageError e)
          | (.ok _, j) =>
              (.ok (), { j with
                metadataStore := j.metadataStore.update virtualPath plainSize reading.now
                  j.deviceId (some sourceId) (some newPhysicalPath)
                gcNeeded := true })

/-- The write of a file whose record is this device's, or nobody's: in place. -/
def overwrite (j : JbodManager) (reading : Reading) (virtualPath : Text) (existing : FileRow)
    (encrypted : Bytes) (plainSize : Nat) : Result Unit :=
  match j.sources.get existing.sourceId with
  | none => (.error .sourceInactive, j)
  | some s =>
      if !s.isActive then (.error .sourceInactive, j)
      else match j.onSource existing.sourceId s (·.write existing.physicalPath encrypted) with
        | (.error e, j) => (.error (storageError e), j)
        | (.ok _, j) =>
            (.ok (), { j with
              metadataStore := j.metadataStore.update virtualPath plainSize reading.now
                j.deviceId none none })

/-- The write of a file without a live record. -/
def createFile (j : JbodManager) (reading : Reading) (virtualPath : Text) (encrypted : Bytes)
    (plainSize : Nat) : Result Unit :=
  match j.selectSource reading.diskFree encrypted.length with
  | none => (.error .insufficientStorage, j)
  | some sourceId =>
      let physicalPath := generatePhysicalPath reading.uuid virtualPath
      match j.sources.get sourceId with
      | none => (.error .insufficientStorage, j)
      | some s =>
          match j.onSource sourceId s (·.write physicalPath encrypted) with
          | (.error e, j) => j.discardPartial sourceId physicalPath (.source e)
          | (.ok _, j) =>
              (.ok (), { j with
                metadataStore := j.metadataStore.insert virtualPath sourceId physicalPath plainSize
                  reading.now reading.now j.deviceId })

def writeFile (j : JbodManager) (reading : Reading) (virtualPath : Text) (data : Bytes) :
    Result Unit :=
  let encrypted := j.encrypt reading.iv data
  match j.metadataStore.lookup virtualPath with
  | some existing =>
      if j.ownedElsewhere existing then
        j.takeoverWrite reading virtualPath encrypted data.length
      else j.overwrite reading virtualPath existing encrypted data.length
  | none => j.createFile reading virtualPath encrypted data.length

/-- The metadata of a file becomes a tombstone; the stored bytes go with it where the file is this
device's and its source is in service. -/
def deleteFile (j : JbodManager) (now : Time) (virtualPath : Text) : Result Unit :=
  match j.metadataStore.lookup virtualPath with
  | none => (.error .fileNotFound, j)
  | some metadata =>
      let buried (j : JbodManager) : JbodManager :=
        { j with metadataStore := j.metadataStore.delete virtualPath now }
      if j.ownedElsewhere metadata then (.ok (), buried j)
      else match j.sources.get metadata.sourceId with
        | none => (.ok (), buried j)
        | some s =>
            if !s.isActive then (.ok (), buried j)
            else match j.onSource metadata.sourceId s (·.delete metadata.physicalPath) with
              | (.ok _, j) => (.ok (), buried j)
              | (.error (.os .fileNotFound), j) => (.ok (), buried j)
              | (.error e, j) => (.error (.source e), j)

def moveFile (j : JbodManager) (srcPath dstPath : Text) : Result Unit :=
  match j.metadataStore.lookup srcPath with
  | none => (.error .fileNotFound, j)
  | some _ =>
      match j.metadataStore.renamePath srcPath dstPath with
      | none => (.error .integrity, j)
      | some metadataStore => (.ok (), { j with metadataStore })

def copyFile (j : JbodManager) (remote : RemoteRead) (reading : Reading) (srcPath dstPath : Text) :
    Result Unit :=
  match j.readFile remote srcPath with
  | (.error e, j) => (.error e, j)
  | (.ok data, j) => j.writeFile reading dstPath data

/-- An operation that every active source is asked for, its failures logged. -/
def onEverySource (j : JbodManager) (op : StorageSource → StorageSource) : JbodManager :=
  { j with sources := j.sources.mapRows fun _ s => if s.isActive then op s else s }

def createDirectory (j : JbodManager) (now : Time) (virtualPath : Text) : JbodManager :=
  let physicalPath := Text.lstrip '/' virtualPath
  let j := j.onEverySource fun s => (s.mkdir physicalPath).2
  { j with
    metadataStore := j.metadataStore.insertDirectory (Text.rstrip '/' virtualPath) now }

/-- `_MANAGED_FILE_RE`: 32 digits of a lower case hexadecimal number and an underscore. -/
def isManagedFile (name : Text) : Bool :=
  (name.take 32).all (fun c => c.isDigit || (decide ('a' ≤ c) && decide (c ≤ 'f'))) &&
    name[32]? == some '_'

/-- What the scan does with one file: a managed file that is not among the kept ones is deleted. -/
def sweepFile (live : List (SourceId × Text)) (sourceId : SourceId) (acc : Nat × StorageSource)
    (name : Text) : Nat × StorageSource :=
  if !isManagedFile name || live.contains (sourceId, name) then acc
  else match acc.2.delete name with
    | (.ok _, s) => (acc.1 + 1, s)
    | (.error _, s) => (acc.1, s)

/-- The scan of one source over the files of its root. -/
def sweep (live : List (SourceId × Text)) (sourceId : SourceId) (s : StorageSource) :
    Nat × StorageSource :=
  match s.listPhysicalFiles with
  | .error _ => (0, s)
  | .ok names => names.foldl (sweepFile live sourceId) (0, s)

def gcOrphanFiles (j : JbodManager) : Nat × JbodManager :=
  match j.deviceId with
  | none => (0, j)
  | some deviceId =>
      let live := j.metadataStore.livePhysicalPathsForDevice deviceId
      ((j.sources.rows.map fun x => (sweep live x.1 x.2).1).sum,
        { j with sources := j.sources.mapRows fun sourceId s => (sweep live sourceId s).2 })

def gcOrphanFilesIfNeeded (j : JbodManager) : Nat × JbodManager :=
  if !j.gcNeeded then (0, j) else { j with gcNeeded := false }.gcOrphanFiles

theorem metadataStore_gcOrphanFiles (j : JbodManager) :
    j.gcOrphanFiles.2.metadataStore = j.metadataStore := by
  unfold gcOrphanFiles
  split <;> rfl

theorem metadataStore_gcOrphanFilesIfNeeded (j : JbodManager) :
    j.gcOrphanFilesIfNeeded.2.metadataStore = j.metadataStore := by
  unfold gcOrphanFilesIfNeeded
  split_ifs
  · rfl
  · exact metadataStore_gcOrphanFiles _

/-- The recursion over the entries of a directory; `depth` is what the interpreter's stack has
left. An exception other than a missing file ends the whole call. -/
def deleteDirectory (now : Time) : Nat → JbodManager → Text → Result Unit
  | 0, j, _ => (.error .recursionLimit, j)
  | depth + 1, j, virtualPath =>
      let entries := j.metadataStore.listEntries virtualPath
      let child := entries.foldl (fun (acc : Result Unit) entry =>
        match acc with
        | (.error e, j) => (.error e, j)
        | (.ok _, j) =>
            let childPath := Text.rstrip '/' virtualPath ++ '/' :: entry.name
            if entry.isDirectory then deleteDirectory now depth j childPath
            else match j.deleteFile now childPath with
              | (.error .fileNotFound, j) => (.ok (), j)
              | result => result) (.ok (), j)
      match child with
      | (.error e, j) => (.error e, j)
      | (.ok _, j) =>
          let j := j.onEverySource fun s => (s.rmdir (Text.lstrip '/' virtualPath)).2
          (.ok (), { j with
            metadataStore := j.metadataStore.deleteDirectoryEntry (Text.rstrip '/' virtualPath) })

/-- The physical half of a directory move on one source: the target is made, the old directory is
deleted. -/
def moveSourceDirectory (srcPhysical dstPhysical : Text) (s : StorageSource) : StorageSource :=
  match s.mkdir dstPhysical with
  | (.error _, s) => s
  | (.ok _, s) =>
      match s.exists srcPhysical with
      | .ok true => (s.rmdir srcPhysical).2
      | _ => s

def moveDirectory (j : JbodManager) (srcPath dstPath : Text) : Result Unit :=
  let oldPrefix := MetadataStore.withSlash srcPath
  let newPrefix := MetadataStore.withSlash dstPath
  match j.metadataStore.renameDirectory oldPrefix newPrefix with
  | (metadataStore, false) => (.error .integrity, { j with metadataStore })
  | (metadataStore, true) =>
      match metadataStore.directories.rename? (Text.rstrip '/' srcPath)
          (Text.rstrip '/' dstPath) with
      | none => (.error .integrity, { j with metadataStore })
      | some directories =>
          let j := { j with metadataStore := { metadataStore with directories } }
          (.ok (), j.onEverySource
            (moveSourceDirectory (Text.lstrip '/' srcPath) (Text.lstrip '/' dstPath)))

end JbodManager

end StardustFS
