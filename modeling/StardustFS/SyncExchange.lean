import StardustFS.SyncMerge

/-! Exchanges whose requests are all answered: what an upload, a download and the tombstone collection
do to the tables of a device and to the server. -/

namespace StardustFS

theorem Server.put_none (server : Server) (snapshot : Files) :
    server.put none snapshot = (some (server.version + 1),
      { server with version := server.version + 1, metadata := some snapshot }) := by
  rw [Server.put, Option.getD_none, if_pos rfl]

theorem Server.put_some (server : Server) (base : Nat) (snapshot : Files) :
    server.put (some base) snapshot =
      if base = server.version then (some (server.version + 1),
        { server with version := server.version + 1, metadata := some snapshot })
      else (none, server) := by
  rw [Server.put, Option.getD_some]

namespace Net

theorem request_of_answered {α : Type} {net : Net} (h : net.fates = [])
    (act : Server → α × Server) :
    net.request act = (some (act net.server).1, { net with server := (act net.server).2 }) := by
  rw [Net.request, h]

/-- The fate of the next request. -/
def nextFate (net : Net) : Fate := net.fates.head?.getD .ok

theorem request_fst {α : Type} (net : Net) (act : Server → α × Server) :
    (net.request act).1 = if net.nextFate = .ok then some (act net.server).1 else none := by
  obtain ⟨server, fates, log⟩ := net
  rcases fates with - | ⟨- | - | -, fates⟩ <;> rfl

theorem fates_request {α : Type} (net : Net) (act : Server → α × Server) :
    (net.request act).2.fates = net.fates.tail := by
  obtain ⟨server, fates, log⟩ := net
  rcases fates with - | ⟨- | - | -, fates⟩ <;> rfl

theorem server_request_of_reads {α : Type} (net : Net) (f : Server → α) :
    (net.request fun server => (f server, server)).2.server = net.server := by
  obtain ⟨server, fates, log⟩ := net
  rcases fates with - | ⟨- | - | -, fates⟩ <;> rfl

/-- A refused PUT leaves the server as it is. -/
theorem server_request_of_refused {net net' : Net} {base : Option Nat} {snapshot : Files}
    (h : (net.request fun server => server.put base snapshot) = (some none, net')) :
    net'.server = net.server := by
  have hfst := net.request_fst fun server => server.put base snapshot
  rw [h] at hfst
  split_ifs at hfst with hfate
  have hnone : (net.server.put base snapshot).1 = none := (Option.some_inj.mp hfst).symm
  have hsame : (net.server.put base snapshot).2 = net.server := by
    unfold Server.put at hnone ⊢
    split_ifs at hnone ⊢
    rfl
  have hserver : (net.request fun server => server.put base snapshot).2.server =
      (net.server.put base snapshot).2 := by
    obtain ⟨server, fates, log⟩ := net
    rcases fates with - | ⟨- | - | -, fates⟩ <;> first | rfl | exact nomatch hfate
  rw [h] at hserver
  exact hserver.trans hsame

@[simp] theorem log_request {α : Type} (net : Net) (act : Server → α × Server) :
    (net.request act).2.log = net.log := by
  unfold request
  split <;> rfl

end Net

namespace SyncClient

/-! ### What stays as it is -/

/-- The parts of a client that a merge does not touch. -/
structure SameDevice (c c' : SyncClient) : Prop where
  deviceName : c'.deviceName = c.deviceName
  lastSyncedVersion : c'.lastSyncedVersion = c.lastSyncedVersion
  retentionSeconds : c'.retentionSeconds = c.retentionSeconds
  lastSyncAt : c'.lastSyncAt = c.lastSyncAt
  jbodAttached : c'.jbodAttached = c.jbodAttached
  deviceId : c'.jbod.deviceId = c.jbod.deviceId

theorem SameDevice.refl (c : SyncClient) : SameDevice c c := ⟨rfl, rfl, rfl, rfl, rfl, rfl⟩

theorem SameDevice.trans {a b c : SyncClient} (h : SameDevice a b) (h' : SameDevice b c) :
    SameDevice a c :=
  ⟨h'.deviceName.trans h.deviceName, h'.lastSyncedVersion.trans h.lastSyncedVersion,
    h'.retentionSeconds.trans h.retentionSeconds, h'.lastSyncAt.trans h.lastSyncAt,
    h'.jbodAttached.trans h.jbodAttached, h'.deviceId.trans h.deviceId⟩

theorem sameDevice_setStore (c : SyncClient) (s : MetadataStore) : SameDevice c (c.setStore s) :=
  ⟨rfl, rfl, rfl, rfl, rfl, rfl⟩

theorem sameDevice_deletePhysical (c : SyncClient) (p : Text) : SameDevice c (c.deletePhysical p) := by
  unfold deletePhysical
  split
  · exact SameDevice.refl c
  · split
    · exact SameDevice.refl c
    · split_ifs
      · exact SameDevice.refl c
      · exact ⟨rfl, rfl, rfl, rfl, rfl, rfl⟩

theorem sameDevice_detectOwnershipLoss (c : SyncClient) (localRec serverRec : FileRow) :
    SameDevice c (c.detectOwnershipLoss localRec serverRec) := by
  unfold detectOwnershipLoss
  split_ifs
  · exact ⟨rfl, rfl, rfl, rfl, rfl, rfl⟩
  · exact SameDevice.refl c

theorem sameDevice_updateFromServer (c : SyncClient) (p : Text) (rec : FileRow) :
    SameDevice c (c.updateFromServer p rec) := by
  unfold updateFromServer
  dsimp only
  refine SameDevice.trans ?_ (sameDevice_setStore _ _)
  split_ifs
  · exact sameDevice_deletePhysical c p
  · exact SameDevice.refl c

theorem sameDevice_handleConflict (c : SyncClient) (timestamp p : Text) (rec : FileRow) :
    SameDevice c (c.handleConflict timestamp p rec) := by
  unfold handleConflict
  split <;> exact sameDevice_setStore c _

theorem sameDevice_mergeRecord (timestamp : Text → Text) (c : SyncClient) (x : Text × FileRow) :
    SameDevice c (mergeRecord timestamp c x) := by
  unfold mergeRecord
  dsimp only
  split
  · exact SameDevice.refl c
  · exact sameDevice_setStore c _
  · exact sameDevice_handleConflict c _ _ _
  · refine SameDevice.trans ?_ (sameDevice_updateFromServer _ _ _)
    split
    · exact sameDevice_detectOwnershipLoss c _ _
    · exact SameDevice.refl c

theorem sameDevice_foldl_mergeRecord (timestamp : Text → Text) (c : SyncClient)
    (rows : List (Text × FileRow)) : SameDevice c (rows.foldl (mergeRecord timestamp) c) := by
  induction rows generalizing c with
  | nil => exact SameDevice.refl c
  | cons x rest ih => exact (sameDevice_mergeRecord timestamp c x).trans (ih _)

theorem sameDevice_mergeServerMetadata (c : SyncClient) (timestamp : Text → Text)
    (snapshot : Files) : SameDevice c (c.mergeServerMetadata timestamp snapshot) :=
  sameDevice_foldl_mergeRecord timestamp c snapshot.rows

@[simp] theorem jbod_setRetention (c : SyncClient) (days : Option Nat) :
    (c.setRetention days).jbod = c.jbod := by
  unfold setRetention
  split
  · split_ifs <;> rfl
  · rfl

theorem store_setRetention (c : SyncClient) (days : Option Nat) :
    (c.setRetention days).store = c.store :=
  congrArg JbodManager.metadataStore (c.jbod_setRetention days)

@[simp] theorem deviceName_setRetention (c : SyncClient) (days : Option Nat) :
    (c.setRetention days).deviceName = c.deviceName := by
  unfold setRetention
  split
  · split_ifs <;> rfl
  · rfl

@[simp] theorem lastSyncedVersion_setRetention (c : SyncClient) (days : Option Nat) :
    (c.setRetention days).lastSyncedVersion = c.lastSyncedVersion := by
  unfold setRetention
  split
  · split_ifs <;> rfl
  · rfl

/-! ### The tables -/

theorem lookupAny_markSynced (s : MetadataStore) (paths : List Text) (p : Text) :
    (markSynced s paths).lookupAny p =
      if p ∈ paths then (s.lookupAny p).map fun r => { r with syncStatus := .synced }
      else s.lookupAny p := by
  unfold markSynced
  induction paths generalizing s with
  | nil => rfl
  | cons q paths ih =>
      rw [List.foldl_cons, ih, MetadataStore.lookupAny_setSyncStatus]
      by_cases hq : p = q
      · simp [hq, Function.comp_def]
      · simp [hq]

theorem mem_pendingPaths {c : SyncClient} {p : Text} :
    p ∈ c.pendingPaths ↔ ∃ r, c.store.lookupAny p = some r ∧ r.syncStatus = .pending := by
  simp only [pendingPaths, List.mem_map, Prod.exists, exists_and_right, exists_eq_right,
    MetadataStore.mem_getPendingFiles]

theorem pendingPaths_ne_nil_iff {c : SyncClient} :
    c.pendingPaths ≠ [] ↔ ∃ p l, c.store.lookupAny p = some l ∧ l.syncStatus = .pending := by
  constructor
  · intro h
    obtain ⟨p, hp⟩ := List.exists_mem_of_ne_nil _ h
    exact ⟨p, mem_pendingPaths.mp hp⟩
  · rintro ⟨p, hp⟩
    exact List.ne_nil_of_mem (mem_pendingPaths.mpr hp)

/-- Nothing is pending. -/
def Quiet (c : SyncClient) : Prop :=
  ∀ p l, c.store.lookupAny p = some l → l.syncStatus ≠ .pending

theorem quiet_iff {c : SyncClient} : Quiet c ↔ c.pendingPaths = [] := by
  rw [← not_iff_not, ← ne_eq, pendingPaths_ne_nil_iff, Quiet]
  push Not
  rfl

theorem uploadMetadata_of_quiet {c : SyncClient} (h : Quiet c) (r : SyncReading) (net : Net) :
    c.uploadMetadata r net = (c, net) := by
  rw [uploadMetadata, if_pos (quiet_iff.mp h)]

/-- The row after an upload. -/
def uploadedRow (r : FileRow) : FileRow :=
  if r.syncStatus = .pending then { r with syncStatus := .synced } else r

@[simp] theorem version_uploadedRow (r : FileRow) : (uploadedRow r).version = r.version := by
  unfold uploadedRow
  split_ifs <;> rfl

@[simp] theorem deleted_uploadedRow (r : FileRow) : (uploadedRow r).deleted = r.deleted := by
  unfold uploadedRow
  split_ifs <;> rfl

@[simp] theorem place_uploadedRow (r : FileRow) : (uploadedRow r).place = r.place := by
  unfold uploadedRow
  split_ifs <;> rfl

@[simp] theorem fileSize_uploadedRow (r : FileRow) : (uploadedRow r).fileSize = r.fileSize := by
  unfold uploadedRow
  split_ifs <;> rfl

theorem sameRecord_uploadedRow (r : FileRow) : SameRecord (uploadedRow r) r := by
  unfold uploadedRow
  split_ifs <;> exact ⟨rfl, rfl, rfl, rfl, rfl⟩

theorem syncStatus_uploadedRow (r : FileRow) : (uploadedRow r).syncStatus ≠ .pending := by
  unfold uploadedRow
  split_ifs with h
  · exact SyncStatus.noConfusion
  · exact h

theorem lookupAny_accepted (c : SyncClient) (now : Time) (version : Nat) (p : Text) :
    (c.accepted now version c.pendingPaths).store.lookupAny p =
      (c.store.lookupAny p).map uploadedRow := by
  show (markSynced c.store c.pendingPaths).lookupAny p = _
  rw [lookupAny_markSynced]
  cases hr : c.store.lookupAny p with
  | none => simp
  | some r =>
      have hiff : p ∈ c.pendingPaths ↔ r.syncStatus = .pending := by
        rw [mem_pendingPaths]
        exact ⟨fun ⟨r', hr', h⟩ => (Option.some_inj.mp (hr.symm.trans hr')) ▸ h,
          fun h => ⟨r, hr, h⟩⟩
      by_cases hp : r.syncStatus = .pending
      · simp [hiff, hp, uploadedRow]
      · simp [hiff, hp, uploadedRow]

theorem lookupAny_gcTombstones (c : SyncClient) (now : Time) (p : Text) :
    (c.gcTombstones now).store.lookupAny p =
      (c.store.lookupAny p).filter fun r => !MetadataStore.expired r now c.retentionSeconds :=
  MetadataStore.lookupAny_purgeExpiredTombstones _ _ _ _

theorem expired_of_live {l : FileRow} (h : l.deleted = false) (now retention : Time) :
    MetadataStore.expired l now retention = false := by
  rw [MetadataStore.expired, h, Bool.false_and]

/-- What is not an expired tombstone is not collected. -/
theorem lookupAny_gcTombstones_of_kept {c : SyncClient} {now : Time} {p : Text} {r : FileRow}
    (h : c.store.lookupAny p = some r)
    (hkept : MetadataStore.expired r now c.retentionSeconds = false) :
    (c.gcTombstones now).store.lookupAny p = some r := by
  rw [lookupAny_gcTombstones, h, Option.filter_eq_some_iff, hkept]
  exact ⟨rfl, rfl⟩

/-- A collection adds no row. -/
theorem lookupAny_of_gcTombstones {c : SyncClient} {now : Time} {p : Text} {r : FileRow}
    (h : (c.gcTombstones now).store.lookupAny p = some r) : c.store.lookupAny p = some r := by
  rw [lookupAny_gcTombstones] at h
  exact (Option.filter_eq_some_iff.mp h).1

/-! ### Uploads and downloads -/

theorem fetchRetentionDays_fst (c : SyncClient) (net : Net) :
    (c.fetchRetentionDays net).1 =
      if net.nextFate = .ok then c.setRetention net.server.retentionDays else c := by
  have h := net.request_fst fun server => (server.status, server)
  unfold fetchRetentionDays
  split
  · rename_i hreq
    rw [hreq] at h
    split_ifs at h ⊢
    exact congrArg c.setRetention (Prod.mk.inj (Option.some_inj.mp h)).2
  · rename_i hreq
    rw [hreq] at h
    split_ifs at h ⊢
    rfl

theorem fetchRetentionDays_snd (c : SyncClient) (net : Net) :
    (c.fetchRetentionDays net).2 = (net.request fun server => (server.status, server)).2 := by
  unfold fetchRetentionDays
  split <;> simp_all only

theorem forceUpload_of_answered (c : SyncClient) (now : Time) {net : Net} (h : net.fates = []) :
    c.forceUpload now net = (c.accepted now (net.server.version + 1) c.pendingPaths,
      { net with
        server := { net.server with
          version := net.server.version + 1, metadata := some c.store.files }
        log := net.log ++ [.forcePut] }) := by
  unfold forceUpload
  rw [Net.request_of_answered (show (net.record .forcePut).fates = [] from h)]
  simp only [Net.record, Server.put_none]

/-- The device after a download: the merge, the new base version, the collection of tombstones. -/
def adopt (c : SyncClient) (r : SyncReading) (version : Nat) (snapshot : Files) : SyncClient :=
  (({ c.mergeServerMetadata r.timestamp snapshot with
      lastSyncedVersion := version }).gcTombstones r.now).recordSyncSuccess r.now

/-- A download finds a server without metadata, or one that is not ahead, or merges its snapshot. -/
theorem downloadAndMerge_cases (c : SyncClient) (r : SyncReading) {net : Net}
    (h : net.fates = []) :
    (net.server.metadata = none ∧ c.downloadAndMerge r net =
      (c.setRetention net.server.retentionDays).forceUpload r.now net) ∨
    (∃ snapshot, net.server.metadata = some snapshot ∧
      net.server.version ≤ c.lastSyncedVersion ∧
      c.downloadAndMerge r net = (c.setRetention net.server.retentionDays, net)) ∨
    (∃ snapshot, net.server.metadata = some snapshot ∧
      c.lastSyncedVersion < net.server.version ∧
      c.downloadAndMerge r net =
        ((c.setRetention net.server.retentionDays).adopt r net.server.version snapshot, net)) := by
  unfold downloadAndMerge
  rw [Net.request_of_answered h]
  cases hmeta : net.server.metadata with
  | none =>
      left
      refine ⟨rfl, ?_⟩
      simp [Server.status, hmeta]
  | some snapshot =>
      right
      by_cases hle : net.server.version ≤ c.lastSyncedVersion
      · left
        refine ⟨snapshot, rfl, hle, ?_⟩
        simp [Server.status, hmeta, hle]
      · right
        refine ⟨snapshot, rfl, Nat.lt_of_not_le hle, ?_⟩
        simp only [Server.status, hmeta, Option.map_some, lastSyncedVersion_setRetention, hle,
          if_false, Net.request_of_answered h]
        rfl

theorem fates_downloadAndMerge (c : SyncClient) (r : SyncReading) {net : Net} (h : net.fates = []) :
    (c.downloadAndMerge r net).2.fates = [] := by
  rcases c.downloadAndMerge_cases r h with ⟨-, hcall⟩ | ⟨_, -, -, hcall⟩ | ⟨_, -, -, hcall⟩
  · rw [hcall, forceUpload_of_answered _ _ h]
    exact h
  · rw [hcall]
    exact h
  · rw [hcall]
    exact h

/-! ### Re-baselining -/

/-- The adoption of the server's copy: the unsent changes are isolated, the base version is forgotten,
and the snapshot is merged. -/
def adoptServerCopy (c : SyncClient) (r : SyncReading) (net : Net) : SyncClient × Net :=
  { (c.isolatePending r.timestamp).1 with lastSyncedVersion := 0 }.initialSync r net

theorem reconcileIfStale_of_stale {c : SyncClient} {r : SyncReading} {net : Net}
    (h : (c.fetchRetentionDays net).1.isStale r.now = true) :
    c.reconcileIfStale r net = (true,
      if 0 < ((c.fetchRetentionDays net).1.isolatePending r.timestamp).2 then
        ((c.fetchRetentionDays net).1.adoptServerCopy r (c.fetchRetentionDays net).2).1.uploadMetadata r
          (((c.fetchRetentionDays net).1.adoptServerCopy r
            (c.fetchRetentionDays net).2).2.record .rebaselined)
      else
        (((c.fetchRetentionDays net).1.adoptServerCopy r (c.fetchRetentionDays net).2).1,
          ((c.fetchRetentionDays net).1.adoptServerCopy r
            (c.fetchRetentionDays net).2).2.record .rebaselined)) := by
  unfold reconcileIfStale adoptServerCopy
  simp only [h, Bool.not_true, Bool.false_eq_true, if_false]

theorem reconcileIfStale_of_fresh {c : SyncClient} {r : SyncReading} {net : Net}
    (h : (c.fetchRetentionDays net).1.isStale r.now = false) :
    c.reconcileIfStale r net = (false, c.fetchRetentionDays net) := by
  unfold reconcileIfStale
  simp only [h, Bool.not_false, if_true]

/-- What has been logged before makes no difference to a download. -/
theorem downloadAndMerge_log (c : SyncClient) (r : SyncReading) (server : Server)
    (log : List Event) :
    (c.downloadAndMerge r { server, log }).1 = (c.downloadAndMerge r { server }).1 ∧
      (c.downloadAndMerge r { server, log }).2.server =
        (c.downloadAndMerge r { server }).2.server := by
  have h : ∀ log : List Event, ({ server, log } : Net).fates = [] := fun _ => rfl
  rcases c.downloadAndMerge_cases r (h []) with
    ⟨hm, hcall⟩ | ⟨s, hm, hle, hcall⟩ | ⟨s, hm, hlt, hcall⟩
  all_goals
    rcases c.downloadAndMerge_cases r (h log) with
      ⟨hm', hcall'⟩ | ⟨s', hm', hle', hcall'⟩ | ⟨s', hm', hlt', hcall'⟩
  all_goals simp_all [forceUpload_of_answered]
  all_goals omega

end SyncClient

end StardustFS
