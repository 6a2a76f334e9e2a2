import StardustFS.MergeCoverage
import StardustFS.Transitions

/-! The first uploads of two devices. Each finds no metadata on the server and then sends its database
without a base version, which the server accepts unconditionally; the answer is taken for the success
of the upload, so the first device goes on from a base that is not the server's content any more. -/

namespace StardustFS

namespace SyncClient

/-- One turn of `_periodic_loop`. -/
def periodicCycle (c : SyncClient) (r r' : SyncReading) (net : Net) : SyncClient × Net :=
  let (c, net) := c.downloadAndMerge r net
  let (c, net) := c.uploadMetadata r' net
  (if c.jbodAttached then { c with jbod := c.jbod.gcOrphanFilesIfNeeded.2 } else c, net)

end SyncClient

inductive FirstPhase where
  | start
  | foundNone
  | uploaded
  deriving DecidableEq, Repr

/-- Two devices at their first contact with a server. -/
structure FirstUploads where
  clients : Bool → SyncClient
  phases : Bool → FirstPhase := fun _ => .start
  server : Server

/-- The request that finds no metadata (the 404 of `initial_sync`, or the status without a version in
`_download_and_merge`), the PUT of `_force_upload`, and the periodic cycles after it. -/
inductive FirstEvent where
  | findNone (k : Bool) (status : Bool)
  | forcePut (k : Bool) (now : Time)
  | cycle (k : Bool) (r r' : SyncReading)

namespace FirstUploads

def setClient (s : FirstUploads) (k : Bool) (c : SyncClient) (phase : FirstPhase) (server : Server) :
    FirstUploads where
  clients := Function.update s.clients k c
  phases := Function.update s.phases k phase
  server := server

def step (s : FirstUploads) : FirstEvent → Option FirstUploads
  | .findNone k status =>
      if s.phases k = .start ∧ s.server.metadata = none then
        let c := if status then (s.clients k).setRetention s.server.retentionDays else s.clients k
        some (s.setClient k c .foundNone s.server)
      else none
  | .forcePut k now =>
      if s.phases k = .foundNone then
        let (c, net) := (s.clients k).forceUpload now { server := s.server }
        some (s.setClient k c .uploaded net.server)
      else none
  | .cycle k r r' =>
      if s.phases k = .uploaded then
        let (c, net) := (s.clients k).periodicCycle r r' { server := s.server }
        some (s.setClient k c .uploaded net.server)
      else none

/-! ### What must not be lost -/

/-- A live record at the path with the file's place and size. -/
def HasFile (files : Files) (p : Text) (r : FileRow) : Prop :=
  ∃ r', files.get p = some r' ∧ r'.deleted = false ∧ r'.place = r.place ∧ r'.fileSize = r.fileSize

/-- Every live record that one of the devices has marked synced in its upload is in the server's
snapshot and live on both. -/
def NothingLost (start s : FirstUploads) : Prop :=
  ∀ k p r, (start.clients k).store.lookup p = some r → r.syncStatus ≠ .conflict →
    (∃ snapshot, s.server.metadata = some snapshot ∧ HasFile snapshot p r) ∧
      ∀ l, HasFile (s.clients l).store.files p r

/-- The table that is sent last has every file of the one sent first. -/
def Covers (first last : Files) : Prop :=
  ∀ p r, first.get p = some r → r.deleted = false → r.syncStatus ≠ .conflict → HasFile last p r

/-- Where the first table has a record at a path of a file of the last, the last one's is newer or the
file is the same. -/
def Supersedes (first last : Files) : Prop :=
  ∀ p r rec, first.get p = some r → last.get p = some rec → rec.deleted = false →
    rec.syncStatus ≠ .conflict →
    r.version < rec.version ∨
      r.deleted = false ∧ r.place = rec.place ∧ r.fileSize = rec.fileSize

/-! ### Periodic cycles of a device with nothing pending -/

/-- Between two quiet clients nothing in the tables has changed. -/
structure Resting (c c' : SyncClient) : Prop where
  store : c'.store = c.store
  version : c'.lastSyncedVersion = c.lastSyncedVersion

theorem store_gcIfAttached (c : SyncClient) :
    Resting c (if c.jbodAttached then { c with jbod := c.jbod.gcOrphanFilesIfNeeded.2 } else c) := by
  split_ifs
  · exact ⟨JbodManager.metadataStore_gcOrphanFilesIfNeeded _, rfl⟩
  · exact ⟨rfl, rfl⟩

/-- A cycle of a device that knows the server's version. -/
theorem periodicCycle_of_level {c : SyncClient} {server : Server} {snapshot : Files}
    (hquiet : c.Quiet) (hmeta : server.metadata = some snapshot)
    (hversion : server.version ≤ c.lastSyncedVersion) (r r' : SyncReading) :
    Resting c (c.periodicCycle r r' { server }).1 ∧
      (c.periodicCycle r r' { server }).2.server = server := by
  have hcall : c.downloadAndMerge r { server } = (c.setRetention server.retentionDays, { server }) := by
    rcases c.downloadAndMerge_cases r (show ({ server } : Net).fates = [] from rfl) with
      ⟨hnone, -⟩ | ⟨_, -, -, hcall⟩ | ⟨_, -, hlt, -⟩
    · exact absurd (hmeta.symm.trans hnone) (Option.some_ne_none snapshot)
    · exact hcall
    · exact absurd hversion (not_le.mpr hlt)
  have hrest : Resting c (c.setRetention server.retentionDays) :=
    ⟨c.store_setRetention _, c.lastSyncedVersion_setRetention _⟩
  have hquiet' : (c.setRetention server.retentionDays).Quiet := by
    intro p l hl
    rw [hrest.store] at hl
    exact hquiet p l hl
  unfold SyncClient.periodicCycle
  rw [hcall]
  dsimp only
  rw [SyncClient.uploadMetadata_of_quiet hquiet']
  have hgc := store_gcIfAttached (c.setRetention server.retentionDays)
  exact ⟨⟨hgc.store.trans hrest.store, hgc.version.trans hrest.version⟩, rfl⟩

/-- What a merge leaves live at a path of a quiet device. -/
def mergedLive (s : MetadataStore) (snapshot : Files) (p : Text) : Option FileRow :=
  (match s.lookupAny p with
    | some l => some (SyncClient.afterMerge snapshot p l)
    | none => ((snapshot.get p).filter fun rec : FileRow => !rec.deleted).map
        SyncClient.insertedRow).filter
      fun l => !l.deleted

/-- The collection of tombstones takes no live row. -/
theorem lookup_gcTombstones (c : SyncClient) (now : Time) (p : Text) :
    (c.gcTombstones now).store.lookup p = c.store.lookup p := by
  rw [MetadataStore.lookup, MetadataStore.lookup, SyncClient.lookupAny_gcTombstones]
  cases c.store.lookupAny p with
  | none => rfl
  | some l =>
      cases hdeleted : l.deleted <;>
        simp [Option.filter, MetadataStore.expired, hdeleted]
      split_ifs <;> simp [hdeleted]

/-- A cycle of a device that is behind merges the server's snapshot and sends nothing. -/
theorem periodicCycle_of_behind {c : SyncClient} {server : Server} {snapshot : Files}
    (hquiet : c.Quiet) (hmeta : server.metadata = some snapshot)
    (hversion : c.lastSyncedVersion < server.version) (r r' : SyncReading) :
    (c.periodicCycle r r' { server }).1.Quiet ∧
      (c.periodicCycle r r' { server }).1.lastSyncedVersion = server.version ∧
      (∀ p, (c.periodicCycle r r' { server }).1.store.lookup p = mergedLive c.store snapshot p) ∧
      (c.periodicCycle r r' { server }).2.server = server := by
  obtain ⟨d, hd⟩ : ∃ d, d = (c.setRetention server.retentionDays).adopt r server.version snapshot :=
    ⟨_, rfl⟩
  have hcall : c.downloadAndMerge r { server } = (d, { server }) := by
    rcases c.downloadAndMerge_cases r (show ({ server } : Net).fates = [] from rfl) with
      ⟨hnone, -⟩ | ⟨_, -, hle, -⟩ | ⟨snapshot', hsome, -, hcall⟩
    · exact absurd (hmeta.symm.trans hnone) (Option.some_ne_none snapshot)
    · exact absurd hversion (not_lt.mpr hle)
    · obtain rfl := Option.some_inj.mp (hmeta.symm.trans hsome)
      rw [hcall, hd]
  have hstore := c.store_setRetention server.retentionDays
  have hquiet₀ : (c.setRetention server.retentionDays).Quiet := by
    intro p l hl
    rw [hstore] at hl
    exact hquiet p l hl
  obtain ⟨m, hm⟩ : ∃ m, m = (c.setRetention server.retentionDays).mergeServerMetadata r.timestamp
      snapshot := ⟨_, rfl⟩
  have hmquiet : m.Quiet := by
    rw [hm]
    exact hquiet₀.foldl_mergeRecord r.timestamp snapshot.rows
  have hdstore : d.store = (m.gcTombstones r.now).store := by
    rw [hd, hm]
    rfl
  have hdquiet : d.Quiet := by
    intro p l hl
    rw [hdstore] at hl
    exact hmquiet p l (SyncClient.lookupAny_of_gcTombstones hl)
  have hgc := store_gcIfAttached d
  unfold SyncClient.periodicCycle
  rw [hcall]
  dsimp only
  rw [SyncClient.uploadMetadata_of_quiet hdquiet]
  refine ⟨fun p l hl => ?_, hgc.version.trans (by rw [hd]; rfl), fun p => ?_, rfl⟩
  · rw [hgc.store] at hl
    exact hdquiet p l hl
  · rw [hgc.store, hdstore, lookup_gcTombstones, MetadataStore.lookup, mergedLive]
    congr 1
    cases hl : c.store.lookupAny p with
    | none =>
        rw [hm]
        exact SyncClient.lookupAny_mergeServerMetadata_of_unknown hquiet₀ r.timestamp
          (by rw [hstore]; exact hl)
    | some l =>
        rw [hm]
        exact SyncClient.lookupAny_mergeServerMetadata_of_sent (by rw [hstore]; exact hl)
          (hquiet p l hl)

/-! ### Steps -/

/-- The client after its `_force_upload`, and the server. -/
def forced (c : SyncClient) (now : Time) (server : Server) : SyncClient :=
  c.accepted now (server.version + 1) c.pendingPaths

def overwritten (c : SyncClient) (server : Server) : Server :=
  { server with version := server.version + 1, metadata := some c.store.files }

theorem step_cases {s s' : FirstUploads} {e : FirstEvent} (h : s.step e = some s') :
    (∃ k status c, e = .findNone k status ∧ s.phases k = .start ∧ s.server.metadata = none ∧
      c.store = (s.clients k).store ∧ s' = s.setClient k c .foundNone s.server) ∨
    (∃ k now, e = .forcePut k now ∧ s.phases k = .foundNone ∧
      s' = s.setClient k (forced (s.clients k) now s.server) .uploaded
        (overwritten (s.clients k) s.server)) ∨
    ∃ k r r', e = .cycle k r r' ∧ s.phases k = .uploaded ∧
      s' = s.setClient k ((s.clients k).periodicCycle r r' { server := s.server }).1 .uploaded
        ((s.clients k).periodicCycle r r' { server := s.server }).2.server := by
  cases e with
  | findNone k status =>
      rw [step] at h
      by_cases hphase : s.phases k = .start ∧ s.server.metadata = none
      · rw [if_pos hphase] at h
        refine Or.inl ⟨k, status, _, rfl, hphase.1, hphase.2, ?_, (Option.some_inj.mp h).symm⟩
        split_ifs
        · exact SyncClient.store_setRetention _ _
        · rfl
      · rw [if_neg hphase] at h
        cases h
  | forcePut k now =>
      rw [step] at h
      by_cases hphase : s.phases k = .foundNone
      · rw [if_pos hphase, SyncClient.forceUpload_of_answered _ now
          (show ({ server := s.server } : Net).fates = [] from rfl)] at h
        exact Or.inr (Or.inl ⟨k, now, rfl, hphase, (Option.some_inj.mp h).symm⟩)
      · rw [if_neg hphase] at h
        cases h
  | cycle k r r' =>
      rw [step] at h
      by_cases hphase : s.phases k = .uploaded
      · rw [if_pos hphase] at h
        exact Or.inr (Or.inr ⟨k, r, r', rfl, hphase, (Option.some_inj.mp h).symm⟩)
      · rw [if_neg hphase] at h
        cases h

theorem phases_setClient (s : FirstUploads) (k l : Bool) (c : SyncClient) (phase : FirstPhase)
    (server : Server) :
    (s.setClient k c phase server).phases l = if l = k then phase else s.phases l :=
  Function.update_apply _ _ _ _

theorem clients_setClient (s : FirstUploads) (k l : Bool) (c : SyncClient) (phase : FirstPhase)
    (server : Server) :
    (s.setClient k c phase server).clients l = if l = k then c else s.clients l :=
  Function.update_apply _ _ _ _

@[simp] theorem server_setClient (s : FirstUploads) (k : Bool) (c : SyncClient) (phase : FirstPhase)
    (server : Server) : (s.setClient k c phase server).server = server := rfl

/-- An upload is not taken back. -/
theorem uploaded_step {s s' : FirstUploads} {e : FirstEvent} (h : s.step e = some s') {k : Bool}
    (hk : s.phases k = .uploaded) : s'.phases k = .uploaded := by
  rcases step_cases h with ⟨l, _, c, -, hl, -, -, rfl⟩ | ⟨l, now, -, -, rfl⟩ |
    ⟨l, r, r', -, -, rfl⟩
  · rw [phases_setClient, if_neg]
    · exact hk
    · rintro rfl
      exact nomatch hk.symm.trans hl
  · rw [phases_setClient]
    split_ifs
    · rfl
    · exact hk
  · rw [phases_setClient]
    split_ifs
    · rfl
    · exact hk

theorem uploaded_run {s s' : FirstUploads} {es : List FirstEvent}
    (h : Transitions.run step s es = some s') {k : Bool} (hk : s.phases k = .uploaded) :
    s'.phases k = .uploaded :=
  Transitions.run_preserves (fun _ _ _ hP hstep => uploaded_step hstep hP) hk h

/-! ### The run up to the second upload -/

/-- Until one of the devices has uploaded, the server and the tables are those of the start. -/
def UntilFirst (start s : FirstUploads) : Prop :=
  (∀ k, s.phases k ≠ .uploaded) →
    s.server = start.server ∧ ∀ k, (s.clients k).store = (start.clients k).store

/-- While one device alone has uploaded, the server has its table. -/
structure FirstIn (start : FirstUploads) (i : Bool) (s : FirstUploads) : Prop where
  server : s.server = { start.server with
    version := start.server.version + 1, metadata := some (start.clients i).store.files }
  version : (s.clients i).lastSyncedVersion = start.server.version + 1
  rows : ∀ p, (s.clients i).store.lookupAny p =
    ((start.clients i).store.lookupAny p).map SyncClient.uploadedRow
  other : (s.clients !i).store = (start.clients !i).store

def UntilSecond (start : FirstUploads) (i : Bool) (s : FirstUploads) : Prop :=
  s.phases i = .uploaded ∧ (s.phases (!i) ≠ .uploaded → FirstIn start i s)

/-- The first device has merged what the second has sent. -/
structure FirstMerged (start : FirstUploads) (i : Bool) (s : FirstUploads) : Prop where
  version : (s.clients i).lastSyncedVersion = start.server.version + 2
  live : ∀ p, (s.clients i).store.lookup p =
    (match (start.clients i).store.lookupAny p with
      | some r => some (SyncClient.afterMerge (start.clients !i).store.files p
          (SyncClient.uploadedRow r))
      | none => (((start.clients !i).store.lookupAny p).filter fun rec : FileRow =>
          !rec.deleted).map SyncClient.insertedRow).filter fun l => !l.deleted

/-- Once both have uploaded, the server has the table that was sent last, and the device that was first
in either still has its own table or has merged the other's. -/
structure BothIn (start : FirstUploads) (i : Bool) (s : FirstUploads) : Prop where
  phases : ∀ k, s.phases k = .uploaded
  server : s.server = { start.server with
    version := start.server.version + 2, metadata := some (start.clients !i).store.files }
  last_version : (s.clients !i).lastSyncedVersion = start.server.version + 2
  last_rows : ∀ p, (s.clients !i).store.lookupAny p =
    ((start.clients !i).store.lookupAny p).map SyncClient.uploadedRow
  quiet : (s.clients i).Quiet
  first :
    ((s.clients i).lastSyncedVersion = start.server.version + 1 ∧
      ∀ p, (s.clients i).store.lookupAny p =
        ((start.clients i).store.lookupAny p).map SyncClient.uploadedRow) ∨
    FirstMerged start i s

theorem quiet_of_rows {c : SyncClient} {s : MetadataStore}
    (h : ∀ p, c.store.lookupAny p = (s.lookupAny p).map SyncClient.uploadedRow) : c.Quiet := by
  intro p l hl
  rw [h p, Option.map_eq_some_iff] at hl
  obtain ⟨r, -, rfl⟩ := hl
  exact SyncClient.syncStatus_uploadedRow r

theorem untilFirst_step {start s s' : FirstUploads} {e : FirstEvent} (h : UntilFirst start s)
    (hstep : s.step e = some s') : UntilFirst start s' := by
  intro hnone
  have hbefore : ∀ k, s.phases k ≠ .uploaded := fun k hk => hnone k (uploaded_step hstep hk)
  obtain ⟨hserver, hstore⟩ := h hbefore
  rcases step_cases hstep with ⟨l, _, c, -, -, -, hc, rfl⟩ | ⟨l, now, -, -, rfl⟩ |
    ⟨l, r, r', -, hl, -⟩
  · refine ⟨hserver, fun k => ?_⟩
    rw [clients_setClient]
    split_ifs with hk
    · rw [hc, hk]
      exact hstore l
    · exact hstore k
  · exact absurd (by rw [phases_setClient, if_pos rfl]) (hnone l)
  · exact absurd hl (hbefore l)

/-- The first upload. -/
theorem untilSecond_forcePut {start s s' : FirstUploads} {i : Bool} {now : Time}
    (h : UntilFirst start s) (hnone : ∀ k, s.phases k ≠ .uploaded)
    (hstep : s.step (.forcePut i now) = some s') : UntilSecond start i s' := by
  obtain ⟨hserver, hstore⟩ := h hnone
  rcases step_cases hstep with ⟨l, _, c, he, -⟩ | ⟨l, now', he, -, rfl⟩ | ⟨l, r, r', he, -⟩
  · cases he
  · cases he
    refine ⟨by rw [phases_setClient, if_pos rfl], fun _ => ⟨?_, ?_, fun p => ?_, ?_⟩⟩
    · rw [server_setClient, overwritten, hserver, hstore i]
    · rw [clients_setClient, if_pos rfl, ← hserver]
      rfl
    · rw [clients_setClient, if_pos rfl, ← hstore i]
      exact SyncClient.lookupAny_accepted _ _ _ _
    · rw [clients_setClient, if_neg (by cases i <;> decide)]
      exact hstore _
  · cases he

/-- Between the uploads only the first device's cycles are possible, and they find nothing new. -/
theorem untilSecond_step {start s s' : FirstUploads} {i : Bool} {e : FirstEvent}
    (h : UntilSecond start i s) (hstep : s.step e = some s') : UntilSecond start i s' := by
  obtain ⟨hup, hfirst⟩ := h
  refine ⟨uploaded_step hstep hup, fun hnot => ?_⟩
  have hnot' : s.phases (!i) ≠ .uploaded := fun h => hnot (uploaded_step hstep h)
  obtain ⟨hserver, hversion, hrows, hother⟩ := hfirst hnot'
  rcases step_cases hstep with ⟨l, _, c, -, -, hnone, -⟩ | ⟨l, now, -, hl, rfl⟩ |
    ⟨l, r, r', -, hl, rfl⟩
  · rw [hserver] at hnone
    cases hnone
  · have hne : l ≠ i := by
      rintro rfl
      exact nomatch hup.symm.trans hl
    rw [phases_setClient, if_pos (Bool.eq_not_of_ne hne).symm] at hnot
    exact absurd rfl hnot
  · have heq : l = i := by
      by_contra hne
      rw [Bool.eq_not_of_ne hne] at hl
      exact hnot' hl
    subst heq
    obtain ⟨hrest, hsame⟩ := periodicCycle_of_level (quiet_of_rows hrows)
      (show s.server.metadata = some _ by rw [hserver])
      (by rw [hversion, hserver]) r r'
    refine ⟨hsame.trans hserver, ?_, fun p => ?_, ?_⟩
    · rw [clients_setClient, if_pos rfl]
      exact hrest.version.trans hversion
    · rw [clients_setClient, if_pos rfl, hrest.store]
      exact hrows p
    · rw [clients_setClient, if_neg (by cases l <;> decide)]
      exact hother

/-- The second upload. -/
theorem bothIn_forcePut {start s s' : FirstUploads} {i : Bool} {now : Time}
    (h : UntilSecond start i s) (hnot : s.phases (!i) ≠ .uploaded)
    (hstep : s.step (.forcePut (!i) now) = some s') : BothIn start i s' ∧
      ∀ p, (s'.clients i).store.lookupAny p =
        ((start.clients i).store.lookupAny p).map SyncClient.uploadedRow := by
  obtain ⟨hup, hfirst⟩ := h
  obtain ⟨hserver, hversion, hrows, hother⟩ := hfirst hnot
  have hne : i ≠ !i := by cases i <;> decide
  rcases step_cases hstep with ⟨l, _, c, he, -⟩ | ⟨l, now', he, -, rfl⟩ | ⟨l, r, r', he, -⟩
  · cases he
  · cases he
    have hown : ∀ p, ((s.setClient (!i) (forced (s.clients !i) now s.server) .uploaded
        (overwritten (s.clients !i) s.server)).clients i).store.lookupAny p =
        ((start.clients i).store.lookupAny p).map SyncClient.uploadedRow := by
      intro p
      rw [clients_setClient, if_neg hne]
      exact hrows p
    refine ⟨⟨fun k => ?_, ?_, ?_, fun p => ?_, quiet_of_rows hown, Or.inl ⟨?_, hown⟩⟩, hown⟩
    · rw [phases_setClient]
      split_ifs with hk
      · rfl
      · rw [show k = i from by cases k <;> cases i <;> simp_all]
        exact hup
    · rw [server_setClient, overwritten, hserver, hother]
    · rw [clients_setClient, if_pos rfl, hserver]
      rfl
    · rw [clients_setClient, if_pos rfl, ← hother]
      exact SyncClient.lookupAny_accepted _ _ _ _
    · rw [clients_setClient, if_neg hne]
      exact hversion
  · cases he

/-- What a cycle of the first device leaves in place once it has merged what was sent last. -/
theorem BothIn.setClient_first {start s : FirstUploads} {i : Bool} {c : SyncClient} {server : Server}
    (h : BothIn start i s) (hserver : server = s.server) (hquiet : c.Quiet)
    (hmerged : FirstMerged start i (s.setClient i c .uploaded server)) :
    BothIn start i (s.setClient i c .uploaded server) where
  phases k := by
    rw [phases_setClient]
    split_ifs
    · rfl
    · exact h.phases k
  server := hserver.trans h.server
  last_version := by
    rw [clients_setClient, if_neg (by cases i <;> decide)]
    exact h.last_version
  last_rows p := by
    rw [clients_setClient, if_neg (by cases i <;> decide)]
    exact h.last_rows p
  quiet := by
    rw [clients_setClient, if_pos rfl]
    exact hquiet
  first := Or.inr hmerged

/-- The device that was second has nothing to merge. -/
theorem BothIn.setClient_last {start s : FirstUploads} {i : Bool} {c : SyncClient} {server : Server}
    (h : BothIn start i s) (hserver : server = s.server)
    (hversion : c.lastSyncedVersion = (s.clients !i).lastSyncedVersion)
    (hstore : c.store = (s.clients !i).store) :
    BothIn start i (s.setClient (!i) c .uploaded server) ∧
      (FirstMerged start i s → FirstMerged start i (s.setClient (!i) c .uploaded server)) := by
  have hkept : (s.setClient (!i) c .uploaded server).clients i = s.clients i := by
    rw [clients_setClient, if_neg (by cases i <;> decide)]
  have hmerged : FirstMerged start i s → FirstMerged start i (s.setClient (!i) c .uploaded server) := by
    intro hm
    exact ⟨by rw [hkept]; exact hm.version, fun p => by rw [hkept]; exact hm.live p⟩
  refine ⟨⟨fun k => ?_, hserver.trans h.server, ?_, fun p => ?_, ?_, ?_⟩, hmerged⟩
  · rw [phases_setClient]
    split_ifs
    · rfl
    · exact h.phases k
  · rw [clients_setClient, if_pos rfl, hversion]
    exact h.last_version
  · rw [clients_setClient, if_pos rfl, hstore]
    exact h.last_rows p
  · rw [hkept]
    exact h.quiet
  · rw [hkept]
    exact h.first.imp_right hmerged

/-- The first cycle of the device that was first merges what was sent last; the later ones find
nothing new. -/
theorem BothIn.cycle_first {start s : FirstUploads} {i : Bool} (h : BothIn start i s)
    (r r' : SyncReading) :
    ((s.clients i).periodicCycle r r' { server := s.server }).1.Quiet ∧
      ((s.clients i).periodicCycle r r' { server := s.server }).2.server = s.server ∧
      FirstMerged start i (s.setClient i ((s.clients i).periodicCycle r r' { server := s.server }).1
        .uploaded ((s.clients i).periodicCycle r r' { server := s.server }).2.server) := by
  have hmeta : s.server.metadata = some (start.clients !i).store.files := by rw [h.server]
  rcases h.first with ⟨hversion, hrows⟩ | hmerged
  · obtain ⟨hquiet, hlast, hlive, hserver⟩ := periodicCycle_of_behind h.quiet hmeta
      (by rw [hversion, h.server]; exact Nat.lt_succ_self _) r r'
    refine ⟨hquiet, hserver, ?_, fun p => ?_⟩
    · rw [clients_setClient, if_pos rfl, hlast, h.server]
    · rw [clients_setClient, if_pos rfl, hlive p, mergedLive, hrows p]
      cases (start.clients i).store.lookupAny p <;> rfl
  · obtain ⟨hrest, hserver⟩ := periodicCycle_of_level h.quiet hmeta
      (by rw [hmerged.version, h.server]) r r'
    refine ⟨fun p l hl => ?_, hserver, ?_, fun p => ?_⟩
    · rw [hrest.store] at hl
      exact h.quiet p l hl
    · rw [clients_setClient, if_pos rfl]
      exact hrest.version.trans hmerged.version
    · rw [clients_setClient, if_pos rfl, hrest.store]
      exact hmerged.live p

/-- After the second upload only cycles are possible. Those of the first device merge what was sent
last, once. -/
theorem bothIn_step {start s s' : FirstUploads} {i : Bool} {e : FirstEvent} (h : BothIn start i s)
    (hstep : s.step e = some s') : BothIn start i s' ∧
      (FirstMerged start i s → FirstMerged start i s') ∧
      ∀ r r', e = .cycle i r r' → FirstMerged start i s' := by
  rcases step_cases hstep with ⟨l, _, c, -, hl, -⟩ | ⟨l, now, -, hl, -⟩ | ⟨l, r, r', he, -, rfl⟩
  · exact nomatch (h.phases l).symm.trans hl
  · exact nomatch (h.phases l).symm.trans hl
  by_cases hl : l = i
  · subst hl
    obtain ⟨hquiet, hserver, hmerged⟩ := h.cycle_first r r'
    exact ⟨h.setClient_first hserver hquiet hmerged, fun _ => hmerged, fun _ _ _ => hmerged⟩
  · obtain rfl : l = !i := Bool.eq_not_of_ne hl
    obtain ⟨hrest, hserver⟩ := periodicCycle_of_level (quiet_of_rows h.last_rows)
      (show s.server.metadata = some _ by rw [h.server]) (by rw [h.last_version, h.server]) r r'
    obtain ⟨hboth, hmerged⟩ := h.setClient_last hserver hrest.version hrest.store
    refine ⟨hboth, hmerged, fun r₁ r₂ h' => ?_⟩
    exact absurd (FirstEvent.cycle.inj (he.symm.trans h')).1 hl

theorem bothIn_run {start s s' : FirstUploads} {i : Bool} {es : List FirstEvent}
    (h : BothIn start i s) (hrun : Transitions.run step s es = some s') :
    BothIn start i s' ∧ (FirstMerged start i s → FirstMerged start i s') :=
  Transitions.run_preserves
    (P := fun m => BothIn start i m ∧ (FirstMerged start i s → FirstMerged start i m))
    (fun _ _ _ hm hstep =>
      have hnext := bothIn_step hm.1 hstep
      ⟨hnext.1, fun hs => hnext.2.1 (hm.2 hs)⟩)
    ⟨h, id⟩ hrun

/-- One cycle of the first device is enough. -/
theorem firstMerged_run {start s s' : FirstUploads} {i : Bool} {es : List FirstEvent}
    (h : BothIn start i s) (hrun : Transitions.run step s es = some s') {r r' : SyncReading}
    (hcycle : .cycle i r r' ∈ es) : FirstMerged start i s' := by
  obtain ⟨fs, gs, rfl⟩ := List.append_of_mem hcycle
  obtain ⟨m, hm, hrest⟩ := Transitions.run_append_eq_some.mp hrun
  obtain ⟨m', hm', hrest⟩ := Transitions.run_cons_eq_some.mp hrest
  have hstep := bothIn_step (bothIn_run h hm).1 hm'
  exact (bothIn_run hstep.1 hrest).2 (hstep.2.2 r r' rfl)

/-- Without one it has its own table still. -/
theorem clients_run {start s s' : FirstUploads} {i : Bool} {es : List FirstEvent}
    (h : BothIn start i s) (hrun : Transitions.run step s es = some s')
    (hcycle : ¬ ∃ r r', .cycle i r r' ∈ es) : (s'.clients i) = s.clients i := by
  induction es generalizing s with
  | nil =>
      rw [Transitions.run_nil, Option.some_inj] at hrun
      rw [hrun]
  | cons e es ih =>
      obtain ⟨m, hm, hrest⟩ := Transitions.run_cons_eq_some.mp hrun
      have hother : ∀ r r', e ≠ .cycle i r r' := by
        rintro r r' rfl
        exact hcycle ⟨r, r', List.mem_cons_self⟩
      rw [ih (bothIn_step h hm).1 hrest fun ⟨r, r', hr⟩ => hcycle ⟨r, r', List.mem_cons_of_mem e hr⟩]
      rcases step_cases hm with ⟨l, _, c, -, hl, -⟩ | ⟨l, now, -, hl, -⟩ | ⟨l, r, r', he, -, rfl⟩
      · exact nomatch (h.phases l).symm.trans hl
      · exact nomatch (h.phases l).symm.trans hl
      · rw [clients_setClient, if_neg]
        rintro rfl
        exact hother r r' he

/-! ### What is lost -/

/-- An upload changes no file. -/
theorem hasFile_iff_of_rows {s t : MetadataStore}
    (h : ∀ p, s.lookupAny p = (t.lookupAny p).map SyncClient.uploadedRow) (p : Text) (r : FileRow) :
    HasFile s.files p r ↔ HasFile t.files p r := by
  constructor
  · rintro ⟨r', hr', hlive, hplace, hsize⟩
    obtain ⟨l, hl, rfl⟩ := Option.map_eq_some_iff.mp ((h p).symm.trans hr')
    rw [SyncClient.deleted_uploadedRow] at hlive
    rw [SyncClient.place_uploadedRow] at hplace
    rw [SyncClient.fileSize_uploadedRow] at hsize
    exact ⟨l, hl, hlive, hplace, hsize⟩
  · rintro ⟨l, hl, hlive, hplace, hsize⟩
    refine ⟨SyncClient.uploadedRow l, (h p).trans (congrArg _ hl), ?_, ?_, ?_⟩
    · exact (SyncClient.deleted_uploadedRow l).trans hlive
    · exact (SyncClient.place_uploadedRow l).trans hplace
    · exact (SyncClient.fileSize_uploadedRow l).trans hsize

theorem covers_self (files : Files) : Covers files files :=
  fun _ r hr hlive _ => ⟨r, hr, hlive, rfl, rfl⟩

/-- What was sent last is on the server and on the device that sent it. -/
theorem nothingLost_iff {start s : FirstUploads} {i : Bool} (h : BothIn start i s) :
    NothingLost start s ↔
      Covers (start.clients i).store.files (start.clients !i).store.files ∧
        Covers (start.clients i).store.files (s.clients i).store.files ∧
        Covers (start.clients !i).store.files (s.clients i).store.files := by
  have hmeta : s.server.metadata = some (start.clients !i).store.files := by rw [h.server]
  have hlookup : ∀ {k p r}, (start.clients k).store.files.get p = some r → r.deleted = false →
      (start.clients k).store.lookup p = some r := fun hr hlive =>
    MetadataStore.lookup_eq_some_iff.mpr ⟨hr, hlive⟩
  constructor
  · refine fun hkept => ⟨fun p r hr hlive hst => ?_, fun p r hr hlive hst => ?_,
      fun p r hr hlive hst => ?_⟩
    · obtain ⟨⟨snapshot, hsnapshot, hfile⟩, -⟩ := hkept i p r (hlookup hr hlive) hst
      rw [hmeta, Option.some_inj] at hsnapshot
      exact hsnapshot ▸ hfile
    · exact (hkept i p r (hlookup hr hlive) hst).2 i
    · exact (hkept (!i) p r (hlookup hr hlive) hst).2 i
  · rintro ⟨hlast, hown, hother⟩ k p r hr hst
    obtain ⟨hget, hlive⟩ := MetadataStore.lookup_eq_some_iff.mp hr
    have hsent : HasFile (start.clients !i).store.files p r := by
      by_cases hk : k = i
      · exact hlast p r (hk ▸ hget) hlive hst
      · exact covers_self _ p r (Bool.eq_not_of_ne hk ▸ hget) hlive hst
    have hfirst : HasFile (s.clients i).store.files p r := by
      by_cases hk : k = i
      · exact hown p r (hk ▸ hget) hlive hst
      · exact hother p r (Bool.eq_not_of_ne hk ▸ hget) hlive hst
    refine ⟨⟨_, hmeta, hsent⟩, fun l => ?_⟩
    by_cases hl : l = i
    · exact hl ▸ hfirst
    · rw [Bool.eq_not_of_ne hl]
      exact (hasFile_iff_of_rows h.last_rows p r).mpr hsent

/-- A device that merges another's table keeps its files where the other has them too. -/
theorem covers_own_of_merged {start s : FirstUploads} {i : Bool} (h : FirstMerged start i s)
    (hlast : Covers (start.clients i).store.files (start.clients !i).store.files) :
    Covers (start.clients i).store.files (s.clients i).store.files := by
  intro p r hr hlive hst
  obtain ⟨rec, hrec, hreclive, hplace, hsize⟩ := hlast p r hr hlive hst
  have hlookup := h.live p
  rw [show (start.clients i).store.lookupAny p = some r from hr] at hlookup
  dsimp only at hlookup
  unfold SyncClient.afterMerge at hlookup
  rw [hrec] at hlookup
  dsimp only at hlookup
  split_ifs at hlookup with hnewer
  · rw [Option.filter_some, if_pos (by simp [SyncClient.updatedRow, hreclive])] at hlookup
    exact ⟨_, (MetadataStore.lookup_eq_some_iff.mp hlookup).1, hreclive, hplace, hsize⟩
  · rw [Option.filter_some, if_pos (by simp [hlive])] at hlookup
    exact ⟨_, (MetadataStore.lookup_eq_some_iff.mp hlookup).1, (SyncClient.deleted_uploadedRow r).trans hlive,
      SyncClient.place_uploadedRow r, SyncClient.fileSize_uploadedRow r⟩

/-- It has the other's files exactly where its own records do not stand in their way. -/
theorem covers_other_iff_of_merged {start s : FirstUploads} {i : Bool} (h : FirstMerged start i s) :
    Covers (start.clients !i).store.files (s.clients i).store.files ↔
      Supersedes (start.clients i).store.files (start.clients !i).store.files := by
  constructor
  · intro hcovers p r rec hr hrec hlive hst
    obtain ⟨l, hl, hllive, hplace, hsize⟩ := hcovers p rec hrec hlive hst
    have hlookup := h.live p
    rw [MetadataStore.lookup_eq_some_iff.mpr ⟨hl, hllive⟩,
      show (start.clients i).store.lookupAny p = some r from hr] at hlookup
    dsimp only at hlookup
    obtain ⟨hafter, -⟩ := Option.filter_eq_some_iff.mp hlookup.symm
    unfold SyncClient.afterMerge at hafter
    rw [hrec] at hafter
    dsimp only at hafter
    split_ifs at hafter with hnewer
    · rw [SyncClient.version_uploadedRow] at hnewer
      exact Or.inl hnewer
    · obtain rfl := Option.some_inj.mp hafter
      refine Or.inr ⟨?_, ?_, ?_⟩
      · exact (SyncClient.deleted_uploadedRow r).symm.trans hllive
      · exact (SyncClient.place_uploadedRow r).symm.trans hplace
      · exact (SyncClient.fileSize_uploadedRow r).symm.trans hsize
  · intro hwins p rec hrec hlive hst
    have hlookup := h.live p
    cases hr : (start.clients i).store.lookupAny p with
    | none =>
        rw [hr, show (start.clients !i).store.lookupAny p = some rec from hrec] at hlookup
        dsimp only at hlookup
        simp only [Option.filter_some, hlive, Bool.not_false, if_true, Option.map_some,
          show (SyncClient.insertedRow rec).deleted = false from hlive] at hlookup
        exact ⟨_, (MetadataStore.lookup_eq_some_iff.mp hlookup).1, hlive, rfl, rfl⟩
    | some r =>
        rw [hr] at hlookup
        dsimp only at hlookup
        unfold SyncClient.afterMerge at hlookup
        rw [hrec] at hlookup
        dsimp only at hlookup
        split_ifs at hlookup with hnewer
        · rw [Option.filter_some, if_pos (by simp [SyncClient.updatedRow, hlive])] at hlookup
          exact ⟨_, (MetadataStore.lookup_eq_some_iff.mp hlookup).1, hlive, rfl, rfl⟩
        · rw [SyncClient.version_uploadedRow] at hnewer
          obtain ⟨hrlive, hplace, hsize⟩ := (hwins p r rec hr hrec hlive hst).resolve_left hnewer
          rw [Option.filter_some, if_pos (by simp [hrlive])] at hlookup
          refine ⟨_, (MetadataStore.lookup_eq_some_iff.mp hlookup).1, ?_, ?_, ?_⟩
          · exact (SyncClient.deleted_uploadedRow r).trans hrlive
          · exact (SyncClient.place_uploadedRow r).trans hplace
          · exact (SyncClient.fileSize_uploadedRow r).trans hsize

theorem supersedes_of_covers {first last : Files} (h : Covers last first) :
    Supersedes first last := by
  intro p r rec hr hrec hlive hst
  obtain ⟨r', hr', hlive', hplace, hsize⟩ := h p rec hrec hlive hst
  obtain rfl := Option.some_inj.mp (hr.symm.trans hr')
  exact Or.inr ⟨hlive', hplace, hsize⟩

/-- The state after both uploads. -/
theorem bothIn_of_uploads {start m : FirstUploads} {i : Bool} {now now' : Time}
    {es₁ es₂ : List FirstEvent}
    (hrun : Transitions.run step start (es₁ ++ .forcePut i now :: es₂ ++ [.forcePut (!i) now']) =
      some m) : BothIn start i m ∧ ∀ p, (m.clients i).store.lookupAny p =
        ((start.clients i).store.lookupAny p).map SyncClient.uploadedRow := by
  obtain ⟨m₂, hm₂, hput'⟩ := Transitions.run_append_eq_some.mp hrun
  obtain ⟨m₁, hm₁, hrest⟩ := Transitions.run_append_eq_some.mp hm₂
  obtain ⟨m₁', hput, hm₂⟩ := Transitions.run_cons_eq_some.mp hrest
  obtain ⟨m', hlast, hm'⟩ := Transitions.run_cons_eq_some.mp hput'
  obtain rfl := Option.some_inj.mp hm'
  have henabled : ∀ {s t : FirstUploads} {k now}, s.step (.forcePut k now) = some t →
      s.phases k ≠ .uploaded := by
    intro s t k now h hup
    rw [step, if_neg (by rw [hup]; decide)] at h
    cases h
  have hi := henabled hput
  have hnot := henabled hlast
  have hnot₁ : m₁.phases (!i) ≠ .uploaded := fun h =>
    hnot (uploaded_run hm₂ (uploaded_step hput h))
  have hnone : ∀ k, m₁.phases k ≠ .uploaded := by
    intro k
    by_cases hk : k = i
    · exact hk ▸ hi
    · rw [Bool.eq_not_of_ne hk]
      exact hnot₁
  have hfirst : UntilFirst start m₁ :=
    Transitions.run_preserves (P := UntilFirst start)
      (fun _ _ _ hP hstep => untilFirst_step hP hstep) (fun _ => ⟨rfl, fun _ => rfl⟩) hm₁
  have hsecond : UntilSecond start i m₂ :=
    Transitions.run_preserves (P := UntilSecond start i)
      (fun _ _ _ hP hstep => untilSecond_step hP hstep)
      (untilSecond_forcePut hfirst hnone hput) hm₂
  exact bothIn_forcePut hsecond hnot hlast

/-- **The first uploads.** In every order of the requests the table that is sent last stays on the
server. What was uploaded is there and live on both devices exactly where the last table has all files
of the first, and the first device, with its next cycle or already, has those of the last. -/
theorem firstUploads_nothingLost_iff {start s' : FirstUploads} {i : Bool} {now now' : Time}
    {es₁ es₂ es₃ : List FirstEvent} (hrun : Transitions.run step start
      (es₁ ++ .forcePut i now :: es₂ ++ [.forcePut (!i) now'] ++ es₃) = some s') :
    NothingLost start s' ↔
      Covers (start.clients i).store.files (start.clients !i).store.files ∧
        (Covers (start.clients !i).store.files (start.clients i).store.files ∨
          (∃ r r', .cycle i r r' ∈ es₃) ∧
            Supersedes (start.clients i).store.files (start.clients !i).store.files) := by
  obtain ⟨m, hm, hrest⟩ := Transitions.run_append_eq_some.mp hrun
  obtain ⟨hboth, hfirst⟩ := bothIn_of_uploads hm
  rw [nothingLost_iff (bothIn_run hboth hrest).1]
  apply and_congr_right
  intro hlast
  by_cases hcycle : ∃ r r', .cycle i r r' ∈ es₃
  · obtain ⟨r, r', hr⟩ := hcycle
    have hmerged := firstMerged_run hboth hrest hr
    rw [and_iff_right (covers_own_of_merged hmerged hlast), covers_other_iff_of_merged hmerged]
    exact ⟨fun h => Or.inr ⟨⟨r, r', hr⟩, h⟩, fun h => h.elim supersedes_of_covers And.right⟩
  · have hrows : ∀ p, (s'.clients i).store.lookupAny p =
        ((start.clients i).store.lookupAny p).map SyncClient.uploadedRow := by
      rw [clients_run hboth hrest hcycle]
      exact hfirst
    rw [or_iff_left fun h => hcycle h.1, and_iff_right]
    · exact ⟨fun h p r hr hlive hst => (hasFile_iff_of_rows hrows p r).mp (h p r hr hlive hst),
        fun h p r hr hlive hst => (hasFile_iff_of_rows hrows p r).mpr (h p r hr hlive hst)⟩
    · exact fun p r hr hlive hst => (hasFile_iff_of_rows hrows p r).mpr
        (covers_self _ p r hr hlive hst)

/-- Two devices with one new file each, under the given paths. -/
def newcomers (paths : Bool → Text) : FirstUploads where
  clients k := SyncClient.laptopWith
    (Table.empty.insert (paths k) { SyncClient.note 1 with syncStatus := .pending })
  server := { version := 0, metadata := none }

/-- Both ask before either has uploaded; afterwards the first runs a cycle. -/
def bothAsk : List FirstEvent :=
  [.findNone true false, .findNone false true] ++ .forcePut true 0 :: [] ++ [.forcePut (!true) 0] ++
    [.cycle true SyncClient.atNoon SyncClient.atNoon]

theorem sameFile_nothingLost : ∃ s',
    Transitions.run step (newcomers fun _ => "/a".toList) bothAsk = some s' ∧
      NothingLost (newcomers fun _ => "/a".toList) s' := by
  have hrun : ∃ s', Transitions.run step (newcomers fun _ => "/a".toList) bothAsk = some s' :=
    ⟨_, rfl⟩
  obtain ⟨s', hrun⟩ := hrun
  refine ⟨s', hrun, (firstUploads_nothingLost_iff hrun).mpr
    ⟨covers_self _, Or.inl (covers_self _)⟩⟩

/-- The file of the device that uploads first is in no snapshot any more, though it is marked synced. -/
theorem first_upload_is_overwritten : ∃ s',
    Transitions.run step (newcomers fun k => if k then "/a".toList else "/b".toList) bothAsk =
        some s' ∧
      ((s'.clients true).store.lookup "/a".toList).map (·.syncStatus) = some .synced ∧
      (s'.server.metadata.bind fun snapshot => snapshot.get "/a".toList) = none ∧
      ¬ NothingLost (newcomers fun k => if k then "/a".toList else "/b".toList) s' := by
  have hlost : ∃ s', Transitions.run step
      (newcomers fun k => if k then "/a".toList else "/b".toList) bothAsk = some s' ∧
      ((s'.clients true).store.lookup "/a".toList).map (·.syncStatus) = some .synced ∧
      (s'.server.metadata.bind fun snapshot => snapshot.get "/a".toList) = none ∧
      (s'.clients false).store.lookup "/a".toList = none :=
    ⟨_, rfl, by decide, by decide, by decide⟩
  obtain ⟨s', hrun, hsynced, hserver, hother⟩ := hlost
  refine ⟨s', hrun, hsynced, hserver, fun h => ?_⟩
  obtain ⟨r, hr, hlive, -⟩ := (h true "/a".toList { SyncClient.note 1 with syncStatus := .pending }
    (by decide) (by decide)).2 false
  exact absurd (hother.symm.trans (MetadataStore.lookup_eq_some_iff.mpr ⟨hr, hlive⟩)) (by simp)

end FirstUploads

end StardustFS
