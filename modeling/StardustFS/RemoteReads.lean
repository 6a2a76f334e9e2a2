import StardustFS.DiskRefinement
import StardustFS.Turns

/-! Reads across devices. A device merges the snapshot of another one and asks that device's server for the
files it owns; what it reads is what the owner reads itself, from the disk that the owner's commands left. -/

namespace StardustFS

open Text

namespace Hosts

/-- The payload of `read_from_source`. -/
def sourceOnly (sourceId : SourceId) (physicalPath : Text) : Body :=
  pathOnly physicalPath ++ [("source_id".toList, .str sourceId.toList)]

/-- What the proxies of a device are answered for the reads of `_read_remote`; `answers` is false for a
device that is not mounted or not reachable. -/
def remoteRead (peer : Peer) (net : Hosts) (answers : DeviceId → Bool) : RemoteRead :=
  fun device sourceId physicalPath =>
    match (net.p2pRequest peer device (answers device) .read (sourceOnly sourceId physicalPath)).1 with
    | .ok v => (decodeAnswer v).toOption
    | .error _ => none

end Hosts

/-- The server of the device has the sources of the disk, each under its id. -/
structure P2PHost.Serves (h : P2PHost) (d : Disk) : Prop where
  tree : h.tree = d.tree
  served : ∀ id m, d.mounts.get id = some m → ∃ i, h.getSourceById id.toList = some i ∧
    h.sources[i]? = some (id.toList, .local m)

namespace Hosts

variable {net : Hosts} {owner : DeviceId} {id : SourceId} {m : Mount} {s : StorageSource} {place : Text}

theorem get_sourceOnly (id : SourceId) (place : Text) :
    Body.get (sourceOnly id place) "source_id" = .str id.toList := rfl

theorem physicalPath_sourceOnly (id : SourceId) (place : Text) :
    P2PServer.physicalPath (sourceOnly id place) = .str place := rfl

/-- The server finds the source by its id. -/
theorem selectSource_sourceOnly {i : Nat} (hid : id ≠ "")
    (hfind : (net owner).getSourceById id.toList = some i) :
    (net owner).selectSourceOrError (sourceOnly id place) = some (.ok i) := by
  have htruthy : (Json.str id.toList : Value).truthy = true := by
    simp [Json.truthy, hid]
  unfold P2PHost.selectSourceOrError
  dsimp only
  rw [get_sourceOnly, if_pos htruthy]
  simp only [hfind]

theorem checkedPath_sourceOnly {i : Nat} (hi : (net owner).sources[i]? = some (id.toList, .local m))
    (habsolute : m.root.head? = some '/') (hplace : m.Takes place 0) (hturn : Plain (turnBackslashes place)) :
    net.checkedPath owner i (sourceOnly id place) = some (.ok place) := by
  have hroot : net.rootAt owner i = m.root := by
    rw [rootAt, hi]
    rfl
  have hvalid := P2PServer.validatePathErr_eq_none habsolute hplace.rooted hplace.tidy.ne_nil
    hplace.tidy.relative hturn
  unfold checkedPath
  dsimp only
  rw [physicalPath_sourceOnly, hroot, hvalid]
  cases (Json.str place : Value).truthy with
  | false => rfl
  | true => rfl

/-- What the server answers to the read of a source. -/
theorem opRead_sourceOnly (peer : Peer) {i : Nat} (hid : id ≠ "")
    (hfind : (net owner).getSourceById id.toList = some i)
    (hi : (net owner).sources[i]? = some (id.toList, .local m)) (h : m.Mirrors (net owner).tree s)
    (habsolute : m.root.head? = some '/') (hplace : m.Takes place 0) (hturn : Plain (turnBackslashes place)) :
    (net.opRead peer owner (sourceOnly id place)).1 =
      match (s.read place).1 with
      | .ok data => some ⟨200, .dict [("data".toList, .str (Base64.b64encode data))]⟩
      | .error e => if e.raised.isFileNotFound then some (errorResponse 404 "File not found") else none := by
  unfold opRead onSelected
  rw [selectSource_sourceOnly hid hfind]
  dsimp only
  rw [withPath, checkedPath_sourceOnly hi habsolute hplace hturn]
  dsimp only
  rw [sourceRead, onServed, hi]
  dsimp only
  have hread := (h.read hplace).result
  rw [hread]
  cases (s.read place).1 with
  | ok data => rfl
  | error e => rfl

theorem decodeAnswer_encoded (data : Bytes) :
    decodeAnswer (.dict [("data".toList, .str (Base64.b64encode data))]) = .ok data := by
  have htext : ((Json.members?
      (.dict [("data".toList, .str (Base64.b64encode data))] : Value)).map fun body =>
      Body.get body "data").bind Json.str? = some (Base64.b64encode data) := rfl
  unfold decodeAnswer
  rw [htext]
  dsimp only
  rw [Base64.b64decode_b64encode]

/-- **A read across devices** answers what the source itself reads. -/
theorem remoteRead_eq (reports : Reports) (hops : Nat) {answers : DeviceId → Bool}
    (hanswers : answers owner = true) {d : Disk} (hserves : (net owner).Serves d) (hid : id ≠ "")
    (hm : d.mounts.get id = some m) (h : m.Mirrors d.tree s) (habsolute : m.root.head? = some '/')
    (hplace : m.Takes place 0) (hturn : Plain (turnBackslashes place)) :
    net.remoteRead (serve reports hops) answers owner id place = (s.read place).1.toOption := by
  obtain ⟨i, hfind, hi⟩ := hserves.served id m hm
  rw [← hserves.tree] at h
  obtain ⟨peer, hserve⟩ : ∃ peer, serve reports hops .read net owner (sourceOnly id place) =
      net.opRead peer owner (sourceOnly id place) := by
    cases hops with
    | zero => exact ⟨_, rfl⟩
    | succ hops => exact ⟨_, rfl⟩
  have hanswer := opRead_sourceOnly peer hid hfind hi h habsolute hplace hturn
  unfold remoteRead p2pRequest
  rw [hanswers, hserve]
  obtain ⟨answer, net', hop⟩ : ∃ answer net',
      net.opRead peer owner (sourceOnly id place) = (answer, net') := ⟨_, _, rfl⟩
  rw [hop] at hanswer ⊢
  dsimp only at hanswer ⊢
  rw [hanswer]
  cases (s.read place).1 with
  | ok data =>
      show (decodeAnswer (.dict [("data".toList, .str (Base64.b64encode data))])).toOption = some data
      rw [decodeAnswer_encoded]
      rfl
  | error e =>
      dsimp only
      cases e.raised.isFileNotFound with
      | true => rfl
      | false => rfl

end Hosts

namespace SyncClient

/-! ### The engine of a device that merges -/

theorem engine_deletePhysical (c : SyncClient) (p : Text) :
    (c.deletePhysical p).jbod.encryptionEngine = c.jbod.encryptionEngine := by
  unfold deletePhysical
  split
  · rfl
  · split
    · rfl
    · split_ifs
      · rfl
      · rfl

theorem engine_detectOwnershipLoss (c : SyncClient) (localRec serverRec : FileRow) :
    (c.detectOwnershipLoss localRec serverRec).jbod.encryptionEngine = c.jbod.encryptionEngine := by
  unfold detectOwnershipLoss
  split_ifs
  · rfl
  · rfl

theorem engine_updateFromServer (c : SyncClient) (p : Text) (rec : FileRow) :
    (c.updateFromServer p rec).jbod.encryptionEngine = c.jbod.encryptionEngine := by
  show (if rec.deleted && c.jbodAttached then c.deletePhysical p else c).jbod.encryptionEngine = _
  split_ifs
  · exact c.engine_deletePhysical p
  · rfl

theorem engine_handleConflict (c : SyncClient) (timestamp p : Text) (rec : FileRow) :
    (c.handleConflict timestamp p rec).jbod.encryptionEngine = c.jbod.encryptionEngine := by
  unfold handleConflict
  split
  · rfl
  · rfl

theorem engine_mergeRecord (timestamp : Text → Text) (c : SyncClient) (x : Text × FileRow) :
    (mergeRecord timestamp c x).jbod.encryptionEngine = c.jbod.encryptionEngine := by
  unfold mergeRecord
  dsimp only
  split
  · rfl
  · rfl
  · exact c.engine_handleConflict _ _ _
  · rw [engine_updateFromServer]
    split
    · exact c.engine_detectOwnershipLoss _ _
    · rfl

theorem engine_mergeServerMetadata (c : SyncClient) (timestamp : Text → Text) (snapshot : Files) :
    (c.mergeServerMetadata timestamp snapshot).jbod.encryptionEngine = c.jbod.encryptionEngine := by
  unfold mergeServerMetadata
  induction snapshot.rows generalizing c with
  | nil => rfl
  | cons x rest ih =>
      rw [List.foldl_cons, ih]
      exact c.engine_mergeRecord timestamp x

end SyncClient

namespace Disk

open Simulation (after)

variable {d : Disk} {j : JbodManager} {commands : List CliPaths.Command} {s : CliPaths.Session}

/-- The device reads its own file from the source of the record. -/
theorem readFile_own {owner : DeviceId} {p : Text} {row : FileRow}
    (hrow : j.metadataStore.lookup p = some row) (howner : row.deviceId = some owner)
    (hself : j.deviceId = some owner) {source : StorageSource}
    (hsource : j.sources.get row.sourceId = some source) (remote : RemoteRead) (data : Bytes) :
    (j.readFile remote p).1 = .ok data ↔
      ∃ encrypted, (source.read row.physicalPath).1.toOption = some encrypted ∧
        j.decrypt encrypted = .ok data := by
  have hlocal : j.readFile remote p = j.readLocal row := by
    unfold JbodManager.readFile
    rw [hrow]
    dsimp only
    rw [howner]
    dsimp only
    rw [if_pos hself.symm]
  rw [hlocal, JbodManager.readLocal, hsource]
  dsimp only
  cases hactive : source.isActive with
  | false =>
      have hread : (source.read row.physicalPath).1 = .error .inactive := by
        rw [StorageSource.read, hactive]
        rfl
      simp [hread, Except.toOption]
  | true =>
      simp only [Bool.not_true, Bool.false_eq_true, if_false, JbodManager.onSource]
      rcases source.read row.physicalPath with ⟨e | encrypted, source'⟩
      · simp [Except.toOption]
      · simp only [Except.toOption, Option.some_inj, exists_eq_left']
        rfl

/-- The device reads the file of another one by its proxy. -/
theorem readFile_remote {owner : DeviceId} {p : Text} {row : FileRow}
    (hrow : j.metadataStore.lookup p = some row) (howner : row.deviceId = some owner)
    (hother : j.deviceId ≠ some owner) (remote : RemoteRead) (data : Bytes) :
    (j.readFile remote p).1 = .ok data ↔
      ∃ encrypted, remote owner row.sourceId row.physicalPath = some encrypted ∧
        j.decrypt encrypted = .ok data := by
  have hremote : j.readFile remote p = j.readRemote remote owner row := by
    unfold JbodManager.readFile
    rw [hrow]
    dsimp only
    rw [howner]
    dsimp only
    rw [if_neg hother.symm]
  rw [hremote, JbodManager.readRemote]
  cases remote owner row.sourceId row.physicalPath with
  | none => simp
  | some encrypted =>
      simp only [Option.some_inj, exists_eq_left']

/-- A device that has merged the snapshot of another one has its live records. -/
theorem exists_merged {b : SyncClient} {files : Files} (hb : Account.Behind b.store files)
    (timestamp : Text → Text) {p : Text} {row : FileRow} (hrow : files.get p = some row)
    (hlive : row.deleted = false) : ∃ r, (b.mergeServerMetadata timestamp files).store.lookup p = some r ∧
      r.place = row.place := by
  obtain ⟨hlevel, -⟩ := Account.level_mergeServerMetadata timestamp hb
  cases hany : (b.mergeServerMetadata timestamp files).store.lookupAny p with
  | none =>
      have hdeleted := hlevel.missing p row hany hrow
      rw [hlive] at hdeleted
      cases hdeleted
  | some r =>
      obtain ⟨-, rec, hrec, hsame⟩ := hlevel.row p r hany
      obtain rfl := Option.some_inj.mp (hrow.symm.trans hrec)
      refine ⟨r, ?_, hsame.2.2.1⟩
      rw [MetadataStore.lookup, hany, Option.filter_eq_some_iff, hsame.2.1, hlive]
      exact ⟨rfl, rfl⟩

theorem decrypt_congr {j j' : JbodManager} (h : j'.encryptionEngine = j.encryptionEngine) :
    j'.decrypt = j.decrypt := by
  funext data
  rw [JbodManager.decrypt, JbodManager.decrypt, h]

/-- The laptop is registered, and nothing is in its volume. -/
def laptopJbod : JbodManager := { CliPaths.freshSession.jbod with deviceId := some "laptop" }

/-- The server of the laptop after `docsCalls`. -/
def laptopHosts : Hosts := fun _ =>
  { sources := [("disk".toList, .local { source := .directory "/data".toList })]
    tree := (after Disk.call laptopDisk docsCalls).tree }

/-- Another device of the account, which has no record yet. -/
def phone : SyncClient where
  jbod := { CliPaths.freshSession.jbod with deviceId := some "phone" }
  deviceName := "phone".toList

def allReachable : DeviceId → Bool := fun _ => true

def docsPlace : Place :=
  ⟨some "laptop", "disk", "docs/".toList ++ List.replicate 32 'a' ++ "_a.txt".toList⟩

end Disk

end StardustFS
