import StardustFS.JbodOperations
import StardustFS.MergeCoverage

/-! Devices that take turns against one abstract map from virtual paths to places. A turn merges,
changes at most one path and uploads. The map says where the last write to each path put its bytes;
the tables carry it through versions and tombstones, as long as no device that lacks the row of a
tombstone is the one to upload. -/

namespace StardustFS

/-- The abstract namespace of an account. -/
abbrev NameMap := Text → Option Place

/-- The change of a turn. -/
inductive TurnOp where
  | write (virtualPath : Text) (data : Bytes)
  | delete (virtualPath : Text)

structure Turn (ι : Type*) where
  device : ι
  timestamp : Text → Text
  reading : Reading
  op : Option TurnOp

/-- The devices and the server, and the abstract map the turns so far have made. -/
structure Account (ι : Type*) where
  devices : ι → SyncClient
  server : Server
  ideal : NameMap

namespace TurnOp

/-- The call on the volume; `none` where it raises. -/
def apply (c : SyncClient) (reading : Reading) : TurnOp → Option SyncClient
  | write p data => match c.jbod.writeFile reading p data with
      | (.ok _, jbod) => some { c with jbod }
      | _ => none
  | delete p => match c.jbod.deleteFile reading.now p with
      | (.ok _, jbod) => some { c with jbod }
      | _ => none

/-- What the turn does to the abstract map. A file of the device itself, or of nobody, stays at its
place; any other goes to a new place on the source the device selects. -/
def effect (j : JbodManager) (reading : Reading) (ideal : NameMap) : TurnOp → NameMap
  | write p data =>
      let new := (j.selectSource reading.diskFree (j.encrypt reading.iv data).length).map
        fun sourceId => ⟨j.deviceId, sourceId, JbodManager.generatePhysicalPath reading.uuid p⟩
      Function.update ideal p (match ideal p with
        | some place =>
            if place.deviceId = none ∨ place.deviceId = j.deviceId then
              some { place with deviceId := j.deviceId }
            else new
        | none => new)
  | delete p => Function.update ideal p none

end TurnOp

namespace Account

variable {ι : Type*} [DecidableEq ι]

/-- None of the tombstones is older than the retention period. -/
def noneExpired (files : Files) (now retention : Time) : Bool :=
  files.rows.all fun x => !MetadataStore.expired x.2 now retention

/-- The merge at the start of a turn. -/
def merged (a : Account ι) (i : ι) (r : SyncReading) : SyncClient × Net :=
  (a.devices i).downloadAndMerge r { server := a.server }

/-- The merge as a step of its own. It is not enabled where a tombstone of the snapshot expires. -/
def download (a : Account ι) (i : ι) (r : SyncReading) : Option (Account ι) :=
  let (c, net) := a.merged i r
  if (a.server.metadata.map fun snapshot =>
      noneExpired snapshot r.now c.retentionSeconds).getD true then
    some { a with devices := Function.update a.devices i c, server := net.server }
  else none

/-- The change and the upload after it. Not enabled where the call raises or a tombstone expires. -/
def publish (a : Account ι) (i : ι) (r : SyncReading) (reading : Reading) (op : TurnOp) :
    Option (Account ι) :=
  (op.apply (a.devices i) reading).bind fun c =>
    if noneExpired c.store.files r.now c.retentionSeconds then
      let (c, net) := c.uploadMetadata r { server := a.server }
      some { devices := Function.update a.devices i c, server := net.server,
             ideal := op.effect (a.devices i).jbod reading a.ideal }
    else none

/-- A turn. Without a change there is nothing to upload (`uploadMetadata_of_level`). -/
def turn (a : Account ι) (t : Turn ι) : Option (Account ι) :=
  let r : SyncReading := ⟨t.reading.now, t.timestamp⟩
  (a.download t.device r).bind fun a =>
    match t.op with
    | none =>
        let (c, net) := (a.devices t.device).uploadMetadata r { server := a.server }
        some { a with devices := Function.update a.devices t.device c, server := net.server }
    | some op => a.publish t.device r t.reading op

/-- The condition on a turn: one that changes something is made by a device that has a row for every
tombstone of the server's snapshot. -/
def KnowsTombstones (a : Account ι) (t : Turn ι) : Prop :=
  t.op.isSome → ∀ snapshot, a.server.metadata = some snapshot → ∀ p rec,
    snapshot.get p = some rec → rec.deleted = true →
    (a.devices t.device).store.lookupAny p ≠ none

/-- An account before its first turn: registered devices with empty tables. -/
structure Fresh (a : Account ι) : Prop where
  noMetadata : a.server.metadata = none
  registered : ∀ i, (a.devices i).jbod.deviceId ≠ none
  versions : ∀ i, (a.devices i).lastSyncedVersion = 0
  empty : ∀ i p, (a.devices i).store.lookupAny p = none
  ideal : ∀ p, a.ideal p = none

/-! ### Tables and snapshots -/

/-- A table between turns: every row is synced, and the snapshot has its record or a newer one. -/
def Behind (s : MetadataStore) (snapshot : Files) : Prop :=
  ∀ p r, s.lookupAny p = some r → r.syncStatus = .synced ∧
    ∃ rec, snapshot.get p = some rec ∧ (r.version < rec.version ∨ SameRecord r rec)

/-- A table that has applied the snapshot: only tombstones may be missing. -/
structure Level (s : MetadataStore) (snapshot : Files) : Prop where
  row : ∀ p r, s.lookupAny p = some r → r.syncStatus = .synced ∧
    ∃ rec, snapshot.get p = some rec ∧ SameRecord r rec
  missing : ∀ p rec, s.lookupAny p = none → snapshot.get p = some rec → rec.deleted = true

/-- The live records of a snapshot and their places. -/
def liveMap (files : Files) : NameMap :=
  fun p => ((files.get p).filter fun r => !r.deleted).map FileRow.place

theorem Level.behind {s : MetadataStore} {snapshot : Files} (h : Level s snapshot) :
    Behind s snapshot := by
  intro p r hr
  obtain ⟨hsynced, rec, hrec, hsame⟩ := h.row p r hr
  exact ⟨hsynced, rec, hrec, Or.inr hsame⟩

/-- Tables that agree on what is live have the same map. -/
theorem Level.liveMap_eq {s : MetadataStore} {snapshot : Files} (h : Level s snapshot) :
    liveMap s.files = liveMap snapshot := by
  funext p
  show ((s.lookupAny p).filter _).map _ = ((snapshot.get p).filter _).map _
  cases hr : s.lookupAny p with
  | none =>
      cases hrec : snapshot.get p with
      | none => rfl
      | some rec => simp [h.missing p rec hr hrec]
  | some r =>
      obtain ⟨-, rec, hrec, hsame⟩ := h.row p r hr
      rw [hrec]
      simp [Option.filter, hsame.2.1, apply_ite, hsame.2.2.1]

/-! ### The merge of a turn -/

theorem Behind.quiet {c : SyncClient} {snapshot : Files} (h : Behind c.store snapshot) : c.Quiet := by
  intro p r hr hpending
  have hsynced := (h p r hr).1
  rw [hpending] at hsynced
  cases hsynced

/-- A row of such a table has the record of the snapshot after the merge. -/
theorem Behind.row_after {c : SyncClient} {snapshot : Files} (h : Behind c.store snapshot)
    (timestamp : Text → Text) {p : Text} {l : FileRow} (hl : c.store.lookupAny p = some l) :
    ∃ r rec, (c.mergeServerMetadata timestamp snapshot).store.lookupAny p = some r ∧
      r.syncStatus = .synced ∧ snapshot.get p = some rec ∧ SameRecord r rec := by
  obtain ⟨hsynced, rec, hrec, hversion⟩ := h p l hl
  have hafter : (c.mergeServerMetadata timestamp snapshot).store.lookupAny p =
      some (SyncClient.afterMerge snapshot p l) :=
    SyncClient.lookupAny_mergeServerMetadata_of_sent hl (h.quiet p l hl)
  rw [SyncClient.afterMerge, hrec] at hafter
  dsimp only at hafter
  by_cases hlt : l.version < rec.version
  · rw [if_pos hlt] at hafter
    exact ⟨_, rec, hafter, rfl, hrec, rfl, rfl, rfl, rfl, rfl⟩
  · rw [if_neg hlt] at hafter
    exact ⟨l, rec, hafter, hsynced, hrec, hversion.resolve_left hlt⟩

/-- **The merge of a turn**: a table behind the snapshot is level with it, and no row is lost. -/
theorem level_mergeServerMetadata {c : SyncClient} {snapshot : Files} (timestamp : Text → Text)
    (h : Behind c.store snapshot) :
    Level (c.mergeServerMetadata timestamp snapshot).store snapshot ∧
      ∀ p, c.store.lookupAny p ≠ none →
        (c.mergeServerMetadata timestamp snapshot).store.lookupAny p ≠ none := by
  have hunknown : ∀ p, c.store.lookupAny p = none →
      (c.mergeServerMetadata timestamp snapshot).store.lookupAny p =
        ((snapshot.get p).filter fun rec => !rec.deleted).map SyncClient.insertedRow :=
    fun _ => SyncClient.lookupAny_mergeServerMetadata_of_unknown h.quiet timestamp
  refine ⟨⟨fun p r hr => ?_, fun p rec hnone hrec => ?_⟩, fun p hp => ?_⟩
  · cases hl : c.store.lookupAny p with
    | none =>
        rw [hunknown p hl, Option.map_eq_some_iff] at hr
        obtain ⟨rec, hrec, rfl⟩ := hr
        exact ⟨rfl, rec, (Option.filter_eq_some_iff.mp hrec).1, rfl, rfl, rfl, rfl, rfl⟩
    | some l =>
        obtain ⟨r', rec, hr', hrow⟩ := h.row_after timestamp hl
        obtain rfl := Option.some_inj.mp (hr.symm.trans hr')
        exact ⟨hrow.1, rec, hrow.2⟩
  · cases hl : c.store.lookupAny p with
    | none =>
        rw [hunknown p hl, hrec, Option.map_eq_none_iff, Option.filter_eq_none_iff] at hnone
        simpa using hnone rec rfl
    | some l =>
        obtain ⟨r', -, hr', -⟩ := h.row_after timestamp hl
        rw [hnone] at hr'
        cases hr'
  · obtain ⟨l, hl⟩ := Option.ne_none_iff_exists'.mp hp
    obtain ⟨r', -, hr', -⟩ := h.row_after timestamp hl
    rw [hr']
    exact Option.some_ne_none r'

/-! ### One turn -/

/-- Between turns: the server's snapshot has the abstract map, every table is behind the snapshot, and
that of a device with the server's version is level with it. -/
structure Inv (a : Account ι) : Prop where
  registered : ∀ i, (a.devices i).jbod.deviceId ≠ none
  versions : ∀ i, (a.devices i).lastSyncedVersion ≤ a.server.version
  behind : ∀ snapshot, a.server.metadata = some snapshot → ∀ i, Behind (a.devices i).store snapshot
  level : ∀ snapshot, a.server.metadata = some snapshot → ∀ i,
    (a.devices i).lastSyncedVersion = a.server.version → Level (a.devices i).store snapshot
  live : ∀ snapshot, a.server.metadata = some snapshot → liveMap snapshot = a.ideal
  unstarted : a.server.metadata = none → (∀ i p, (a.devices i).store.lookupAny p = none) ∧
    ∀ p, a.ideal p = none

omit [DecidableEq ι] in
theorem inv_of_fresh {a : Account ι} (h : Fresh a) : Inv a := by
  have hno : ∀ snapshot, a.server.metadata ≠ some snapshot := by
    intro snapshot hs
    rw [h.noMetadata] at hs
    cases hs
  refine ⟨h.registered, fun i => ?_, fun s hs => absurd hs (hno s), fun s hs => absurd hs (hno s),
    fun s hs => absurd hs (hno s), fun _ => ⟨h.empty, h.ideal⟩⟩
  rw [h.versions i]
  exact Nat.zero_le _

theorem noneExpired_iff {files : Files} {now retention : Time} :
    noneExpired files now retention = true ↔
      ∀ p r, files.get p = some r → MetadataStore.expired r now retention = false := by
  simp only [noneExpired, List.all_eq_true, Bool.not_eq_true', Prod.forall, Table.get_eq_some_iff]

/-- A collection that finds no expired tombstone changes nothing. -/
theorem gcTombstones_of_noneExpired (c : SyncClient) (now : Time)
    (h : noneExpired c.store.files now c.retentionSeconds = true) : c.gcTombstones now = c := by
  unfold SyncClient.gcTombstones MetadataStore.purgeExpiredTombstones
  rw [Table.deleteWhere_of_none]
  · rfl
  · rintro ⟨p, r⟩ hmem
    exact noneExpired_iff.mp h p r (Table.get_of_mem_rows hmem)

/-- Collected tombstones are not live. -/
theorem liveMap_gcTombstones (c : SyncClient) (now : Time) :
    liveMap (c.gcTombstones now).store.files = liveMap c.store.files := by
  funext p
  show (((c.gcTombstones now).store.lookupAny p).filter _).map _ =
    ((c.store.lookupAny p).filter _).map _
  rw [SyncClient.lookupAny_gcTombstones]
  cases c.store.lookupAny p with
  | none => rfl
  | some r =>
      unfold MetadataStore.expired
      cases hdel : r.deleted with
      | false => simp [Option.filter, hdel]
      | true => by_cases h : r.modifiedAt < now - c.retentionSeconds <;> simp [Option.filter, hdel, h]

/-- A device after the merge of its turn, the server it has merged from and that server's snapshot. Its
table is level with the snapshot where no tombstone expired on the way. -/
structure Merged (a : Account ι) (i : ι) (now : Time) (c : SyncClient) (server : Server)
    (snapshot : Files) : Prop where
  metadata : server.metadata = some snapshot
  registered : c.jbod.deviceId ≠ none
  version : c.lastSyncedVersion = server.version
  versions : ∀ j, (a.devices j).lastSyncedVersion ≤ server.version
  behind : ∀ j, Behind (a.devices j).store snapshot
  others : ∀ j, (a.devices j).lastSyncedVersion = server.version →
    Level (a.devices j).store snapshot
  live : liveMap snapshot = a.ideal
  liveLocal : liveMap c.store.files = a.ideal
  level : (a.server.metadata.map fun snapshot =>
      noneExpired snapshot now c.retentionSeconds).getD true = true →
    Level c.store snapshot ∧
      ∀ p, (a.devices i).store.lookupAny p ≠ none → c.store.lookupAny p ≠ none
  source : ∀ p rec, snapshot.get p = some rec → a.server.metadata = some snapshot

omit [DecidableEq ι] in
/-- The first turn of all: the empty table becomes the server's snapshot. -/
theorem merged_of_unstarted {a : Account ι} (h : Inv a) (i : ι) (r : SyncReading)
    (hnone : a.server.metadata = none)
    (hcall : (a.devices i).downloadAndMerge r { server := a.server } =
      ((a.devices i).setRetention a.server.retentionDays).forceUpload r.now { server := a.server }) :
    ∃ snapshot, Merged a i r.now (a.merged i r).1 (a.merged i r).2.server snapshot := by
  rw [SyncClient.forceUpload_of_answered _ _ rfl] at hcall
  unfold merged
  rw [hcall]
  obtain ⟨hempty, hideal⟩ := h.unstarted hnone
  have hno : ∀ p, ((a.devices i).setRetention a.server.retentionDays).store.files.get p = none := by
    intro p
    rw [SyncClient.store_setRetention]
    exact hempty i p
  have haccepted : ∀ version p, (((a.devices i).setRetention a.server.retentionDays).accepted r.now
      version ((a.devices i).setRetention a.server.retentionDays).pendingPaths).store.lookupAny p =
      none := by
    intro version p
    rw [SyncClient.lookupAny_accepted]
    show Option.map _ (Table.get _ p) = none
    rw [hno p]
    rfl
  have hlive : ∀ files : Files, (∀ p, files.get p = none) → liveMap files = a.ideal := by
    intro files hfiles
    funext p
    rw [liveMap, hfiles p, hideal p]
    rfl
  refine ⟨_, ⟨rfl, ?_, rfl, fun j => (h.versions j).trans (Nat.le_succ _), fun j p r hr => ?_,
    fun j hj => ?_, hlive _ hno, hlive _ (haccepted _), fun _ => ⟨⟨fun p r hr => ?_,
    fun p rec _ hrec => ?_⟩, fun p hp => absurd (hempty i p) hp⟩, fun p rec hrec => ?_⟩⟩
  · show ((a.devices i).setRetention a.server.retentionDays).jbod.deviceId ≠ none
    rw [SyncClient.jbod_setRetention]
    exact h.registered i
  · rw [hempty j p] at hr
    cases hr
  · have := h.versions j
    dsimp only at hj
    omega
  · rw [haccepted] at hr
    cases hr
  · rw [hno p] at hrec
    cases hrec
  · rw [hno p] at hrec
    cases hrec

omit [DecidableEq ι] in
/-- A device that knows the server's version merges nothing. -/
theorem merged_of_current {a : Account ι} (h : Inv a) (i : ι) (r : SyncReading) {snapshot : Files}
    (hs : a.server.metadata = some snapshot)
    (hlast : (a.devices i).lastSyncedVersion = a.server.version)
    (hcall : (a.devices i).downloadAndMerge r { server := a.server } =
      ((a.devices i).setRetention a.server.retentionDays, { server := a.server })) :
    Merged a i r.now (a.merged i r).1 (a.merged i r).2.server snapshot := by
  unfold merged
  rw [hcall]
  have hstore := (a.devices i).store_setRetention a.server.retentionDays
  have hlevel := h.level snapshot hs i hlast
  refine ⟨hs, ?_, ?_, h.versions, h.behind snapshot hs, h.level snapshot hs,
    h.live snapshot hs, ?_, fun _ => ⟨?_, fun p hp => ?_⟩, fun _ _ _ => hs⟩
  · rw [SyncClient.jbod_setRetention]
    exact h.registered i
  · rw [SyncClient.lastSyncedVersion_setRetention]
    exact hlast
  · rw [hstore, hlevel.liveMap_eq]
    exact h.live snapshot hs
  · rw [hstore]
    exact hlevel
  · rw [hstore]
    exact hp

/-- Where no tombstone of the snapshot has expired, the collection after its merge finds nothing: what
it could find is what the snapshot has. -/
theorem store_adopt_of_noneExpired {c : SyncClient} {r : SyncReading} {version : Nat} {snapshot : Files}
    (hlevel : Level (c.mergeServerMetadata r.timestamp snapshot).store snapshot)
    (hexp : noneExpired snapshot r.now c.retentionSeconds = true) :
    (c.adopt r version snapshot).store = (c.mergeServerMetadata r.timestamp snapshot).store := by
  have hsame := c.sameDevice_mergeServerMetadata r.timestamp snapshot
  have hnone : noneExpired (c.mergeServerMetadata r.timestamp snapshot).store.files r.now
      (c.mergeServerMetadata r.timestamp snapshot).retentionSeconds = true := by
    rw [noneExpired_iff, hsame.retentionSeconds]
    intro p row hrow
    obtain ⟨-, rec, hrec, hsr⟩ := hlevel.row p row hrow
    have hr := noneExpired_iff.mp hexp p rec hrec
    rw [MetadataStore.expired] at hr ⊢
    rw [hsr.2.1, hsr.2.2.2.2]
    exact hr
  have hid := gcTombstones_of_noneExpired { c.mergeServerMetadata r.timestamp snapshot with
    lastSyncedVersion := version } r.now hnone
  unfold SyncClient.adopt
  rw [hid]
  rfl

omit [DecidableEq ι] in
/-- **The merge at the start of a turn.** -/
theorem merged_of_inv {a : Account ι} (h : Inv a) (i : ι) (r : SyncReading) :
    ∃ snapshot, Merged a i r.now (a.merged i r).1 (a.merged i r).2.server snapshot := by
  rcases (a.devices i).downloadAndMerge_cases r
    (show ({ server := a.server } : Net).fates = [] from rfl) with
    ⟨hnone, hcall⟩ | ⟨snapshot, hs, hle, hcall⟩ | ⟨snapshot, hs, hlt, hcall⟩
  · exact merged_of_unstarted h i r hnone hcall
  · exact ⟨snapshot, merged_of_current h i r hs (Nat.le_antisymm (h.versions i) hle) hcall⟩
  · unfold merged
    rw [hcall]
    obtain ⟨c, hc⟩ : ∃ c, c = (a.devices i).setRetention a.server.retentionDays := ⟨_, rfl⟩
    have hstore : c.store = (a.devices i).store := hc ▸ (a.devices i).store_setRetention _
    have hbehind : Behind c.store snapshot := hstore ▸ h.behind snapshot hs i
    obtain ⟨hlevel, hkept⟩ := level_mergeServerMetadata r.timestamp hbehind
    have hsame := c.sameDevice_mergeServerMetadata r.timestamp snapshot
    rw [← hc]
    refine ⟨snapshot, ⟨hs, ?_, rfl, h.versions, h.behind snapshot hs, h.level snapshot hs,
      h.live snapshot hs, ?_, fun hexp => ?_, fun _ _ _ => hs⟩⟩
    · show (c.mergeServerMetadata r.timestamp snapshot).jbod.deviceId ≠ none
      rw [hsame.deviceId, hc, SyncClient.jbod_setRetention]
      exact h.registered i
    · have hlive := liveMap_gcTombstones { c.mergeServerMetadata r.timestamp snapshot with
        lastSyncedVersion := a.server.version } r.now
      exact hlive.trans (hlevel.liveMap_eq.trans (h.live snapshot hs))
    · rw [hs, Option.map_some, Option.getD_some] at hexp
      have hret : (c.adopt r a.server.version snapshot).retentionSeconds = c.retentionSeconds :=
        hsame.retentionSeconds
      rw [hret] at hexp
      rw [store_adopt_of_noneExpired hlevel hexp]
      exact ⟨hlevel, fun p hp => hkept p (hstore ▸ hp)⟩

/-- The merge as a step keeps the invariant, and leaves the device level with the server. -/
theorem inv_download {a a' : Account ι} (h : Inv a) {i : ι} {r : SyncReading}
    (hstep : a.download i r = some a') :
    Inv a' ∧ a'.ideal = a.ideal ∧ ∃ snapshot, a'.server.metadata = some snapshot ∧
      (a'.devices i).lastSyncedVersion = a'.server.version ∧
      Level (a'.devices i).store snapshot ∧
      ((∀ snapshot, a.server.metadata = some snapshot → ∀ p rec, snapshot.get p = some rec →
          rec.deleted = true → (a.devices i).store.lookupAny p ≠ none) →
        ∀ p rec, snapshot.get p = some rec → (a'.devices i).store.lookupAny p ≠ none) := by
  obtain ⟨snapshot, hm⟩ := merged_of_inv h i r
  unfold download at hstep
  dsimp only at hstep
  split_ifs at hstep with hexp
  rw [Option.some_inj] at hstep
  subst hstep
  obtain ⟨hlevel, hkept⟩ := hm.level hexp
  refine ⟨⟨fun j => ?_, fun j => ?_, fun s hs j => ?_, fun s hs j hj => ?_, fun s hs => ?_,
    fun hnone => ?_⟩, rfl, snapshot, hm.metadata, ?_, ?_, fun hknows p rec hrec => ?_⟩
  · by_cases hj : j = i
    · subst hj
      simpa only [Function.update_self] using hm.registered
    · simpa only [Function.update_of_ne hj] using h.registered j
  · by_cases hj : j = i
    · subst hj
      simpa only [Function.update_self] using hm.version.le
    · simpa only [Function.update_of_ne hj] using hm.versions j
  · have hsame : s = snapshot := Option.some_inj.mp (hs.symm.trans hm.metadata)
    by_cases hj : j = i
    · subst hj
      simpa only [Function.update_self, hsame] using hlevel.behind
    · simpa only [Function.update_of_ne hj, hsame] using hm.behind j
  · have hsame : s = snapshot := Option.some_inj.mp (hs.symm.trans hm.metadata)
    by_cases hj' : j = i
    · subst hj'
      simpa only [Function.update_self, hsame] using hlevel
    · simp only [Function.update_of_ne hj', hsame] at hj ⊢
      exact hm.others j hj
  · have hsame : s = snapshot := Option.some_inj.mp (hs.symm.trans hm.metadata)
    rw [hsame]
    exact hm.live
  · rw [hm.metadata] at hnone
    cases hnone
  · simpa only [Function.update_self] using hm.version
  · simpa only [Function.update_self] using hlevel
  · simp only [Function.update_self]
    cases hdel : rec.deleted with
    | true => exact hkept p (hknows snapshot (hm.source p rec hrec) p rec hrec hdel)
    | false =>
        intro hnone
        rw [hlevel.missing p rec hnone hrec] at hdel
        cases hdel

/-! ### The change of a turn -/

/-- A change has one path: its row is pending, one version above the old one, and what it is live as
is what the abstract map has there. -/
structure Changed (c c' : SyncClient) (ideal : NameMap) (p : Text) (row : FileRow) : Prop where
  rows : ∀ q, c'.store.lookupAny q = if q = p then some row else c.store.lookupAny q
  pending : row.syncStatus = .pending
  version : row.version = ((c.store.lookupAny p).map FileRow.version).getD 0 + 1
  live : (if row.deleted then none else some row.place) = ideal p
  lastSyncedVersion : c'.lastSyncedVersion = c.lastSyncedVersion
  deviceId : c'.jbod.deviceId = c.jbod.deviceId

theorem ownedElsewhere_iff {j : JbodManager} {row : FileRow} :
    j.ownedElsewhere row = true ↔
      ¬(row.place.deviceId = none ∨ row.place.deviceId = j.deviceId) := by
  unfold JbodManager.ownedElsewhere FileRow.place
  rw [Bool.and_eq_true, Option.isSome_iff_ne_none, bne_iff_ne, not_or]

theorem writtenRow_spec (old : Option FileRow) (now : Time) (size : Nat)
    {deviceId : Option DeviceId} (hdev : deviceId ≠ none) (place : SourceId × Text) :
    (JbodManager.writtenRow old now size deviceId place).syncStatus = .pending ∧
      (JbodManager.writtenRow old now size deviceId place).version =
        (old.map FileRow.version).getD 0 + 1 ∧
      (JbodManager.writtenRow old now size deviceId place).deleted = false ∧
      (JbodManager.writtenRow old now size deviceId place).place =
        ⟨deviceId, place.1, place.2⟩ := by
  obtain ⟨d, rfl⟩ := Option.ne_none_iff_exists'.mp hdev
  unfold JbodManager.writtenRow
  cases old with
  | none => exact ⟨rfl, rfl, rfl, rfl⟩
  | some r =>
      dsimp only
      split_ifs with hdel
      · exact ⟨rfl, rfl, rfl, rfl⟩
      · exact ⟨rfl, rfl, Bool.eq_false_iff.mpr hdel, rfl⟩

/-- The abstract write goes where the volume puts the bytes. -/
theorem effect_write_self {c : SyncClient} {reading : Reading} {ideal : NameMap} {p : Text}
    {data : Bytes} (hlive : (c.store.lookup p).map FileRow.place = ideal p) :
    (TurnOp.write p data).effect c.jbod reading ideal p =
      (c.jbod.writeTarget reading p data).map fun place => ⟨c.jbod.deviceId, place.1, place.2⟩ := by
  unfold TurnOp.effect JbodManager.writeTarget
  dsimp only
  rw [Function.update_self, ← hlive]
  cases hlookup : c.store.lookup p with
  | none => simp [Option.map_map, Function.comp_def]
  | some existing =>
      dsimp only [Option.map_some]
      by_cases howner : c.jbod.ownedElsewhere existing = true
      · rw [if_pos howner, if_neg (ownedElsewhere_iff.mp howner)]
        simp [Option.map_map, Function.comp_def]
      · rw [if_neg howner, if_pos (not_not.mp fun h => howner (ownedElsewhere_iff.mpr h))]
        rfl

/-- **One change of a turn.** -/
theorem changed_of_apply {c c' : SyncClient} {reading : Reading} {ideal : NameMap} {op : TurnOp}
    (hdev : c.jbod.deviceId ≠ none) (hlive : liveMap c.store.files = ideal)
    (h : op.apply c reading = some c') :
    ∃ p row, Changed c c' (op.effect c.jbod reading ideal) p row ∧
      ∀ q, q ≠ p → op.effect c.jbod reading ideal q = ideal q := by
  cases op with
  | write p data =>
      simp only [TurnOp.apply] at h
      split at h
      · rename_i jbod hwrite
        rw [Option.some_inj] at h
        subst h
        obtain ⟨place, hw⟩ := JbodManager.writeFile_ok hwrite
        obtain ⟨hpending, hversion, hdel, hplace⟩ := writtenRow_spec
          (c.store.lookupAny p) reading.now data.length hdev place
        refine ⟨p, _, ⟨hw.rows, hpending, hversion, ?_, rfl, hw.deviceId⟩, fun q hq => ?_⟩
        · have hp : (c.store.lookup p).map FileRow.place = ideal p := congrFun hlive p
          rw [effect_write_self hp, hw.target, hdel, hplace]
          rfl
        · exact Function.update_of_ne hq _ _
      · cases h
  | delete p =>
      simp only [TurnOp.apply] at h
      split at h
      · rename_i jbod hdelete
        rw [Option.some_inj] at h
        subst h
        obtain ⟨metadata, hlookup, hstore, hdevice, -⟩ := JbodManager.deleteFile_ok hdelete
        obtain ⟨hany, -⟩ := MetadataStore.lookup_eq_some_iff.mp hlookup
        refine ⟨p, MetadataStore.tombstone metadata reading.now,
          ⟨fun q => ?_, rfl, ?_, ?_, rfl, hdevice⟩, fun q hq => Function.update_of_ne hq _ _⟩
        · show jbod.metadataStore.lookupAny q = _
          rw [hstore]
          split_ifs with hq
          · rw [hq, MetadataStore.lookupAny_delete_self, hany, Option.map_some]
          · exact MetadataStore.lookupAny_delete_of_ne _ _ hq
        · rw [show c.store.lookupAny p = some metadata from hany]
          rfl
        · exact (Function.update_self p none ideal).symm
      · cases h

/-- An upload by a device level with the server, with no tombstone to collect. -/
theorem uploadMetadata_of_version {c : SyncClient} (r : SyncReading) (server : Server)
    (hpending : c.pendingPaths ≠ []) (hexp : noneExpired c.store.files r.now c.retentionSeconds = true)
    (hversion : c.lastSyncedVersion = server.version) :
    (c.uploadMetadata r { server }).1 = c.accepted r.now (server.version + 1) c.pendingPaths ∧
      (c.uploadMetadata r { server }).2.server = { server with
        version := server.version + 1, metadata := some c.store.files } := by
  unfold SyncClient.uploadMetadata
  rw [if_neg hpending, gcTombstones_of_noneExpired c r.now hexp, SyncClient.maxCasRetries,
    SyncClient.uploadAttempts]
  simp [hpending, Net.request, Net.record, Server.put_some, hversion]

/-- With nothing changed there is nothing to upload. -/
theorem uploadMetadata_of_level {c : SyncClient} {snapshot : Files} (r : SyncReading) (net : Net)
    (h : Level c.store snapshot) : c.uploadMetadata r net = (c, net) := by
  have hpending : c.pendingPaths = [] := by
    refine List.eq_nil_iff_forall_not_mem.mpr fun p hp => ?_
    obtain ⟨row, hrow, hpending⟩ := SyncClient.mem_pendingPaths.mp hp
    rw [(h.row p row hrow).1] at hpending
    cases hpending
  rw [SyncClient.uploadMetadata, if_pos hpending]

/-- The table of the device after its change, against the snapshot before it. -/
theorem Changed.behind {c c' : SyncClient} {ideal : NameMap} {p : Text} {row : FileRow}
    {snapshot : Files} (h : Changed c c' ideal p row) (hlevel : Level c.store snapshot)
    (hfull : ∀ q rec, snapshot.get q = some rec → c.store.lookupAny q ≠ none) {s : MetadataStore}
    (hs : Behind s snapshot) : Behind s c'.store.files := by
  intro q r hr
  obtain ⟨hsynced, rec, hrec, hold⟩ := hs q r hr
  obtain ⟨m, hm⟩ := Option.ne_none_iff_exists'.mp (hfull q rec hrec)
  obtain ⟨-, rec', hrec', hsame⟩ := hlevel.row q m hm
  rw [hrec, Option.some_inj] at hrec'
  subst hrec'
  refine ⟨hsynced, ?_⟩
  have hrow := h.rows q
  by_cases hq : q = p
  · rw [if_pos hq] at hrow
    refine ⟨row, hrow, Or.inl ?_⟩
    have hversion := h.version
    rw [← hq, hm, Option.map_some, Option.getD_some, hsame.1] at hversion
    rcases hold with hlt | hsr
    · omega
    · have := hsr.1
      omega
  · rw [if_neg hq, hm] at hrow
    refine ⟨m, hrow, hold.imp (fun hlt => ?_) fun hsr => hsr.trans hsame.symm⟩
    rw [hsame.1]
    exact hlt

/-- The table that was accepted is level with what was uploaded. -/
theorem level_accepted {c : SyncClient} (now : Time) (version : Nat)
    (hstatus : ∀ q m, c.store.lookupAny q = some m →
      m.syncStatus = .pending ∨ m.syncStatus = .synced) :
    Level (c.accepted now version c.pendingPaths).store c.store.files := by
  refine ⟨fun q r' hr' => ?_, fun q rec hnone hrec => ?_⟩
  · rw [SyncClient.lookupAny_accepted, Option.map_eq_some_iff] at hr'
    obtain ⟨m, hm, rfl⟩ := hr'
    refine ⟨?_, m, hm, ?_⟩
    · unfold SyncClient.uploadedRow
      split_ifs with hp
      · rfl
      · exact (hstatus q m hm).resolve_left hp
    · exact SyncClient.sameRecord_uploadedRow m
  · rw [SyncClient.lookupAny_accepted, Option.map_eq_none_iff] at hnone
    rw [show c.store.files.get q = none from hnone] at hrec
    cases hrec

/-- The live paths after a change are those of the map after its effect. -/
theorem Changed.liveMap_eq {c c' : SyncClient} {before after : NameMap} {p : Text} {row : FileRow}
    (h : Changed c c' after p row) (hlive : liveMap c.store.files = before)
    (hideal : ∀ q, q ≠ p → after q = before q) : liveMap c'.store.files = after := by
  funext q
  show ((c'.store.lookupAny q).filter fun r => !r.deleted).map FileRow.place = after q
  rw [h.rows q]
  split_ifs with hq
  · rw [hq, ← h.live]
    cases hdel : row.deleted with
    | true => simp [hdel]
    | false => simp [Option.filter, hdel]
  · rw [hideal q hq]
    exact congrFun hlive q

/-- **The upload of a turn** keeps the invariant. -/
theorem inv_publish {a a' : Account ι} (h : Inv a) {i : ι} {r : SyncReading} {reading : Reading}
    {op : TurnOp} {snapshot : Files} (hs : a.server.metadata = some snapshot)
    (hversion : (a.devices i).lastSyncedVersion = a.server.version)
    (hlevel : Level (a.devices i).store snapshot)
    (hfull : ∀ p rec, snapshot.get p = some rec → (a.devices i).store.lookupAny p ≠ none)
    (hstep : a.publish i r reading op = some a') : Inv a' := by
  unfold publish at hstep
  rw [Option.bind_eq_some_iff] at hstep
  obtain ⟨c, hc, hstep⟩ := hstep
  split_ifs at hstep with hexp
  have hlive : liveMap (a.devices i).store.files = a.ideal :=
    hlevel.liveMap_eq.trans (h.live snapshot hs)
  obtain ⟨p, row, hchanged, hideal⟩ := changed_of_apply (h.registered i) hlive hc
  have hpending : c.pendingPaths ≠ [] := by
    have hp : p ∈ c.pendingPaths := SyncClient.mem_pendingPaths.mpr
      ⟨row, (hchanged.rows p).trans (if_pos rfl), hchanged.pending⟩
    intro hnil
    rw [hnil] at hp
    cases hp
  obtain ⟨hclient, hserver⟩ := uploadMetadata_of_version r a.server hpending hexp
    (hchanged.lastSyncedVersion.trans hversion)
  dsimp only at hstep
  rw [hclient, hserver, Option.some_inj] at hstep
  subst hstep
  -- the uploaded table is level with the new snapshot
  have hnew : Level (c.accepted r.now (a.server.version + 1) c.pendingPaths).store c.store.files := by
    apply level_accepted
    intro q m hm
    rw [hchanged.rows q] at hm
    split_ifs at hm with hq
    · rw [Option.some_inj] at hm
      exact Or.inl (hm ▸ hchanged.pending)
    · exact Or.inr (hlevel.row q m hm).1
  refine ⟨fun j => ?_, fun j => ?_, fun s hs' j => ?_, fun s hs' j hj => ?_, fun s hs' => ?_,
    fun hnone => nomatch hnone⟩
  · by_cases hj : j = i
    · subst hj
      simp only [Function.update_self]
      exact hchanged.deviceId ▸ h.registered j
    · simp only [Function.update_of_ne hj]
      exact h.registered j
  · by_cases hj : j = i
    · subst hj
      simp only [Function.update_self]
      exact le_refl _
    · simp only [Function.update_of_ne hj]
      exact (h.versions j).trans (Nat.le_succ _)
  · rw [Option.some_inj] at hs'
    subst hs'
    by_cases hj : j = i
    · subst hj
      simp only [Function.update_self]
      exact hnew.behind
    · simp only [Function.update_of_ne hj]
      exact hchanged.behind hlevel hfull (h.behind snapshot hs j)
  · rw [Option.some_inj] at hs'
    subst hs'
    by_cases hj' : j = i
    · subst hj'
      simp only [Function.update_self]
      exact hnew
    · simp only [Function.update_of_ne hj'] at hj
      have := h.versions j
      omega
  · rw [Option.some_inj] at hs'
    subst hs'
    exact hchanged.liveMap_eq hlive hideal

/-- **One turn** of a device that knows the tombstones, or changes nothing. -/
theorem inv_turn {a a' : Account ι} {t : Turn ι} (h : Inv a) (hok : KnowsTombstones a t)
    (hstep : a.turn t = some a') : Inv a' := by
  unfold turn at hstep
  rw [Option.bind_eq_some_iff] at hstep
  obtain ⟨m, hdownload, hstep⟩ := hstep
  obtain ⟨hm, -, snapshot, hs, hversion, hlevel, hfull⟩ := inv_download h hdownload
  cases hop : t.op with
  | none =>
      rw [hop] at hstep
      dsimp only at hstep
      rw [uploadMetadata_of_level _ _ hlevel, Option.some_inj] at hstep
      subst hstep
      rwa [Function.update_eq_self]
  | some op =>
      rw [hop] at hstep
      exact inv_publish hm hs hversion hlevel (hfull (hok (by rw [hop]; rfl))) hstep

/-- **Devices that take turns see one namespace.** After the merge at the start of every further turn
the live records of the device are those of the abstract map, each with the place of the last
write, in every run in which no device changes anything without knowing the tombstones. -/
theorem run_one_namespace {a a' : Account ι} {ts : List (Turn ι)} (hfresh : Fresh a)
    (hok : Transitions.StepsMeet turn KnowsTombstones a ts)
    (hrun : Transitions.run turn a ts = some a') (i : ι) (r : SyncReading) (p : Text) :
    ((a'.merged i r).1.store.lookup p).map FileRow.place = a'.ideal p := by
  have hinv : Inv a' := Transitions.run_invariant (fun _ _ _ h hok hstep => inv_turn h hok hstep)
    (inv_of_fresh hfresh) hok hrun
  obtain ⟨snapshot, hm⟩ := merged_of_inv hinv i r
  exact congrFun hm.liveLocal p

/-- Two registered devices with one empty directory each. -/
def freshPair : Account Bool where
  devices := fun b => {
    jbod := {
      metadataStore := MetadataStore.initial
      sources := Table.empty.insert "disk" { kind := .directory }
      deviceId := if b then some "A" else some "B" }
    deviceName := if b then "desktop".toList else "laptop".toList }
  server := {}
  ideal := fun _ => none

/-- A turn of a device of the pair at the given time. -/
def pairTurn (b : Bool) (now : Time) (op : TurnOp) : Turn Bool where
  device := b
  timestamp := fun _ => []
  reading := { now, uuid := if b then "ua".toList else "ub".toList, diskFree := fun _ => 100 }
  op := some op

theorem fresh_freshPair : Fresh freshPair :=
  ⟨rfl, fun b => by cases b <;> exact Option.some_ne_none _, fun _ => rfl, fun _ _ => rfl,
    fun _ => rfl⟩

theorem freshPair_one_namespace : ∃ a', Transitions.run turn freshPair
      [pairTurn true 1 (.write "/a".toList [7])] = some a' ∧
    ((a'.merged false ⟨2, fun _ => []⟩).1.store.lookup "/a".toList).map FileRow.place =
      a'.ideal "/a".toList := by
  have hok : Transitions.StepsMeet turn KnowsTombstones freshPair
      [pairTurn true 1 (.write "/a".toList [7])] :=
    ⟨fun _ snapshot hs => (nomatch hs), fun _ _ => trivial⟩
  exact ⟨_, rfl, run_one_namespace fresh_freshPair hok rfl false ⟨2, fun _ => []⟩ "/a".toList⟩

/-- A path that was created and deleted before the second device ever merged is created again by it:
the first device does not see the new file. -/
theorem recreated_path_stays_hidden : ∃ a', Transitions.run turn freshPair
      [pairTurn true 1 (.write "/a".toList [7]), pairTurn true 2 (.delete "/a".toList),
        pairTurn false 3 (.write "/a".toList [8])] = some a' ∧
    a'.ideal "/a".toList = some ⟨some "B", "disk", "ub_a".toList⟩ ∧
    (a'.merged true ⟨4, fun _ => []⟩).1.store.lookup "/a".toList = none :=
  ⟨_, rfl, by decide, by decide⟩

end Account

end StardustFS
