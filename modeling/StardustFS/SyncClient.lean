import StardustFS.ConflictResolver
import StardustFS.JbodManager

/-! The sync client of a device: record-by-record merge of a server snapshot, the upload under
compare-and-swap, and the re-baselining of a device that was away for longer than the retention
period. The server keeps one opaque snapshot and its version; a request meets a fate on the way. -/

namespace StardustFS

/-- The server's copy of the database. Without metadata its version is 0. A PUT with a base version
is accepted at that version only, one without is always accepted. -/
structure Server where
  version : Nat := 0
  metadata : Option Files := none
  retentionDays : Option Nat := none

namespace Server

/-- What `GET /sync/metadata/status` answers: the version, absent without metadata, and the
retention policy. -/
def status (server : Server) : Option Nat × Option Nat :=
  (server.metadata.map fun _ => server.version, server.retentionDays)

/-- `PUT /sync/metadata`: the new version, or `none` for 409. -/
def put (server : Server) (base : Option Nat) (snapshot : Files) : Option Nat × Server :=
  if base.getD server.version = server.version then
    (some (server.version + 1),
      { server with version := server.version + 1, metadata := some snapshot })
  else (none, server)

end Server

/-- What becomes of a request: it is answered; the server acts on it and the answer is lost; or it
never gets there, or is turned down with an error status. -/
inductive Fate where
  | ok
  | unanswered
  | lost
  deriving DecidableEq, Repr

/-- What a device does towards the server that a run is judged by. -/
inductive Event where
  | forcePut
  | put (base : Nat)
  | rebaselined
  deriving DecidableEq, Repr

/-- The server as a device reaches it: the fates of the coming requests, all answered where the list
is exhausted, and the events so far. -/
structure Net where
  server : Server
  fates : List Fate := []
  log : List Event := []

namespace Net

def request {α : Type} (net : Net) (act : Server → α × Server) : Option α × Net :=
  match net.fates with
  | [] => (some (act net.server).1, { net with server := (act net.server).2 })
  | .ok :: fates => (some (act net.server).1, { net with server := (act net.server).2, fates })
  | .unanswered :: fates => (none, { net with server := (act net.server).2, fates })
  | .lost :: fates => (none, { net with fates })

def record (net : Net) (e : Event) : Net := { net with log := net.log ++ [e] }

end Net

/-- A sync client over the metadata store of a volume. Where the volume itself is not attached, the
client neither deletes physical files nor collects orphans. -/
structure SyncClient where
  jbod : JbodManager
  jbodAttached : Bool := true
  deviceName : Text
  lastSyncedVersion : Nat := 0
  retentionSeconds : Time := 30 * 86400
  lastSyncAt : Option Time := none

/-- What one call reads from the clock: the time, and the text of the time at which the record of a
path is handled. -/
structure SyncReading where
  now : Time
  timestamp : Text → Text

/-- What a merge does with a server record. -/
inductive MergeAction where
  | skip
  | insert
  | conflict
  | update
  deriving DecidableEq, Repr

namespace SyncClient

abbrev store (c : SyncClient) : MetadataStore := c.jbod.metadataStore

def setStore (c : SyncClient) (metadataStore : MetadataStore) : SyncClient :=
  { c with jbod := { c.jbod with metadataStore } }

/-! ### The merge of one record -/

/-- The version a row is taken to have been synchronised at. -/
def localBaseVersion (localRec : FileRow) : Int :=
  if localRec.syncStatus = .pending then localRec.version - 1 else localRec.version

def mergeAction (localRec : Option FileRow) (serverRec : FileRow) : MergeAction :=
  match localRec with
  | none => if serverRec.deleted then .skip else .insert
  | some localRec =>
      if localBaseVersion localRec < serverRec.version ∧
          localBaseVersion localRec < localRec.version then .conflict
      else if localRec.version < serverRec.version then .update
      else .skip

/-- The row `_insert_from_server` makes where there is none. -/
def insertedRow (serverRec : FileRow) : FileRow :=
  { serverRec with syncStatus := .synced, replicationStatus := .none }

/-- The columns `_insert_from_server` sets in an existing row. -/
def overwrittenRow (serverRec localRec : FileRow) : FileRow :=
  { serverRec with syncStatus := .synced, replicationStatus := localRec.replicationStatus }

/-- The columns `_update_from_server` sets; the creation time stays. -/
def updatedRow (serverRec localRec : FileRow) : FileRow :=
  { serverRec with
    createdAt := localRec.createdAt
    syncStatus := .synced
    replicationStatus := localRec.replicationStatus }

def insertFromServer (s : MetadataStore) (virtualPath : Text) (serverRec : FileRow) :
    MetadataStore :=
  match s.lookupAny virtualPath with
  | some _ => { s with files := s.files.update virtualPath (overwrittenRow serverRec) }
  | none => { s with files := s.files.insert virtualPath (insertedRow serverRec) }

/-- The conflict copy is made and the server record takes the path. Where the copy cannot be made,
the exception is logged and the merge goes on. -/
def handleConflict (c : SyncClient) (timestamp virtualPath : Text) (serverRec : FileRow) :
    SyncClient :=
  match ConflictResolver.resolveConflict c.store c.deviceName timestamp virtualPath with
  | (s, some _) => c.setStore (insertFromServer s virtualPath serverRec)
  | (s, none) => c.setStore s

/-- A record this device owned has gone to another one: its physical file is an orphan now. -/
def detectOwnershipLoss (c : SyncClient) (localRec serverRec : FileRow) : SyncClient :=
  if c.jbodAttached && c.jbod.deviceId.isSome && !serverRec.deleted &&
      localRec.deviceId == c.jbod.deviceId && serverRec.deviceId != c.jbod.deviceId then
    { c with jbod := { c.jbod with gcNeeded := true } }
  else c

/-- The physical file of a live row is deleted before a tombstone takes its place. -/
def deletePhysical (c : SyncClient) (virtualPath : Text) : SyncClient :=
  match c.store.lookup virtualPath with
  | none => c
  | some localRec =>
      match c.jbod.sources.get localRec.sourceId with
      | none => c
      | some s =>
          if !s.isActive then c
          else { c with
            jbod := (c.jbod.onSource localRec.sourceId s (·.delete localRec.physicalPath)).2 }

def updateFromServer (c : SyncClient) (virtualPath : Text) (serverRec : FileRow) : SyncClient :=
  let c := if serverRec.deleted && c.jbodAttached then c.deletePhysical virtualPath else c
  c.setStore { c.store with files := c.store.files.update virtualPath (updatedRow serverRec) }

def mergeRecord (timestamp : Text → Text) (c : SyncClient) (x : Text × FileRow) : SyncClient :=
  let localRec := c.store.lookupAny x.1
  match mergeAction localRec x.2 with
  | .skip => c
  | .insert => c.setStore (insertFromServer c.store x.1 x.2)
  | .conflict => c.handleConflict (timestamp x.1) x.1 x.2
  | .update =>
      let c := match localRec with
        | some localRec => c.detectOwnershipLoss localRec x.2
        | none => c
      c.updateFromServer x.1 x.2

def mergeServerMetadata (c : SyncClient) (timestamp : Text → Text) (snapshot : Files) :
    SyncClient :=
  snapshot.rows.foldl (mergeRecord timestamp) c

/-! ### Exchanges with the server -/

def gcTombstones (c : SyncClient) (now : Time) : SyncClient :=
  c.setStore (c.store.purgeExpiredTombstones now c.retentionSeconds)

def recordSyncSuccess (c : SyncClient) (now : Time) : SyncClient :=
  { c with lastSyncAt := some now }

/-- A retention policy of the server takes the place of the client's. -/
def setRetention (c : SyncClient) (days : Option Nat) : SyncClient :=
  match days with
  | some days => if 0 < days then { c with retentionSeconds := days * 86400 } else c
  | none => c

/-- The pending rows of the list are marked synced, each by its path. -/
def markSynced (s : MetadataStore) (paths : List Text) : MetadataStore :=
  paths.foldl (fun s p => s.setSyncStatus p .synced) s

def pendingPaths (c : SyncClient) : List Text := c.store.getPendingFiles.map Prod.fst

/-- After an accepted PUT. -/
def accepted (c : SyncClient) (now : Time) (version : Nat) (paths : List Text) : SyncClient :=
  ({ c with lastSyncedVersion := version }.setStore (markSynced c.store paths)).recordSyncSuccess
    now

def forceUpload (c : SyncClient) (now : Time) (net : Net) : SyncClient × Net :=
  match (net.record .forcePut).request fun server => server.put none c.store.files with
  | (some (some version), net) => (c.accepted now version c.pendingPaths, net)
  | (_, net) => (c, net)

def downloadAndMerge (c : SyncClient) (r : SyncReading) (net : Net) : SyncClient × Net :=
  match net.request fun server => (server.status, server) with
  | (none, net) => (c, net)
  | (some (version, days), net) =>
      let c := c.setRetention days
      match version with
      | none => c.forceUpload r.now net
      | some version =>
          if version ≤ c.lastSyncedVersion then (c, net)
          else match net.request fun server => (server.metadata, server) with
            | (some (some snapshot), net) =>
                let c := c.mergeServerMetadata r.timestamp snapshot
                ((({ c with lastSyncedVersion := version }).gcTombstones r.now).recordSyncSuccess
                  r.now, net)
            | (_, net) => (c, net)

/-- The attempts of an upload: the pending list, the blob and the PUT; on 409 the server's changes are
merged and the next attempt follows. -/
def uploadAttempts (r : SyncReading) : Nat → SyncClient → Net → SyncClient × Net
  | 0, c, net => (c, net)
  | attempts + 1, c, net =>
      let pending := c.pendingPaths
      if pending = [] then (c, net)
      else match (net.record (.put c.lastSyncedVersion)).request
          fun server => server.put (some c.lastSyncedVersion) c.store.files with
        | (some (some version), net) => (c.accepted r.now version pending, net)
        | (some none, net) =>
            let (c, net) := c.downloadAndMerge r net
            uploadAttempts r attempts c net
        | (none, net) => (c, net)

/-- `_MAX_CAS_RETRIES`. -/
def maxCasRetries : Nat := 5

def uploadMetadata (c : SyncClient) (r : SyncReading) (net : Net) : SyncClient × Net :=
  if c.pendingPaths = [] then (c, net)
  else uploadAttempts r maxCasRetries (c.gcTombstones r.now) net

/-- The start-up download. It leaves the base version of the next upload as it is. -/
def initialSync (c : SyncClient) (r : SyncReading) (net : Net) : SyncClient × Net :=
  match net.request fun server => (server.metadata, server) with
  | (none, net) => (c, net)
  | (some none, net) => c.forceUpload r.now net
  | (some (some snapshot), net) =>
      let c := c.mergeServerMetadata r.timestamp snapshot
      if c.jbodAttached then ({ c with jbod := c.jbod.gcOrphanFiles.2 }, net) else (c, net)

/-! ### Re-baselining -/

/-- More than the retention period has passed since the last success; a device that never
synchronised is not stale. -/
def isStale (c : SyncClient) (now : Time) : Bool :=
  match c.lastSyncAt with
  | none => false
  | some lastSyncAt => decide (c.retentionSeconds < now - lastSyncAt)

def fetchRetentionDays (c : SyncClient) (net : Net) : SyncClient × Net :=
  match net.request fun server => (server.status, server) with
  | (some (_, days), net) => (c.setRetention days, net)
  | (none, net) => (c, net)

/-- A pending change is moved to a conflict path, where it stays pending; a rename that is refused is
logged and the change stays where it is. The number of moved ones goes with it. -/
def isolate (timestamp : Text → Text) (acc : SyncClient × Nat) (x : Text × FileRow) :
    SyncClient × Nat :=
  let (c, isolated) := acc
  if x.2.deleted then acc
  else
    let conflictPath :=
      ConflictResolver.generateConflictName c.store c.deviceName (timestamp x.1) x.1
    match c.store.renamePath x.1 conflictPath with
    | some s => (c.setStore (s.setSyncStatus conflictPath .pending), isolated + 1)
    | none => acc

def isolatePending (c : SyncClient) (timestamp : Text → Text) : SyncClient × Nat :=
  c.store.getPendingFiles.foldl (isolate timestamp) (c, 0)

def reconcileIfStale (c : SyncClient) (r : SyncReading) (net : Net) : Bool × SyncClient × Net :=
  let (c, net) := c.fetchRetentionDays net
  if !c.isStale r.now then (false, c, net)
  else
    let (c, isolated) := c.isolatePending r.timestamp
    let (c, net) := { c with lastSyncedVersion := 0 }.initialSync r net
    let net := net.record .rebaselined
    let (c, net) := if 0 < isolated then c.uploadMetadata r net else (c, net)
    (true, c, net)

end SyncClient

end StardustFS
