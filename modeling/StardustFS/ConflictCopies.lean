import StardustFS.MergeCoverage

/-! Who hears of a conflict copy. The resolver marks the copy as conflict, and the list that decides
whether an upload has anything to send asks for pending rows only, so a copy reaches the server along
with another change or not at all. -/

namespace StardustFS

namespace SyncClient

variable {timestamp : Text → Text}

/-! ### What an upload leaves on the server -/

/-- The client a 409 makes of an attempt: the server's retention policy and its snapshot are taken
over. -/
def retried (c : SyncClient) (r : SyncReading) (server : Server) (snapshot : Files) : SyncClient :=
  (c.setRetention server.retentionDays).adopt r server.version snapshot

/-- The attempt of a client that knows the server's version is the last one. -/
theorem metadata_uploadAttempts_of_current (r : SyncReading) (n : Nat) {c : SyncClient}
    {server : Server} (log : List Event) (h : c.lastSyncedVersion = server.version) :
    (uploadAttempts r (n + 1) c { server, log }).2.server.metadata =
      if c.pendingPaths = [] then server.metadata else some c.store.files := by
  rw [uploadAttempts]
  split_ifs
  · rfl
  · simp [Net.request, Net.record, Server.put_some, h]

/-- One that is behind is turned down and merges first. -/
theorem uploadAttempts_of_behind (r : SyncReading) (n : Nat) {c : SyncClient} {server : Server}
    {snapshot : Files} (log : List Event) (hmeta : server.metadata = some snapshot)
    (h : c.lastSyncedVersion < server.version) (hpending : c.pendingPaths ≠ []) :
    uploadAttempts r (n + 1) c { server, log } =
      uploadAttempts r n (c.retried r server snapshot)
        { server, log := log ++ [.put c.lastSyncedVersion] } := by
  rw [uploadAttempts, if_neg hpending]
  have hput : ((({ server, log } : Net).record (.put c.lastSyncedVersion)).request
      fun server => server.put (some c.lastSyncedVersion) c.store.files) =
      (some none, { server, log := log ++ [.put c.lastSyncedVersion] }) := by
    simp [Net.request, Net.record, Server.put_some, Nat.ne_of_lt h]
  rw [hput]
  dsimp only
  have hcall : c.downloadAndMerge r { server, log := log ++ [.put c.lastSyncedVersion] } =
      (c.retried r server snapshot, { server, log := log ++ [.put c.lastSyncedVersion] }) := by
    rcases c.downloadAndMerge_cases r
      (show ({ server, log := log ++ [.put c.lastSyncedVersion] } : Net).fates = [] from rfl) with
      ⟨hnone, -⟩ | ⟨_, -, hle, -⟩ | ⟨snapshot', hsome, -, hcall⟩
    · exact absurd (hmeta.symm.trans hnone) (Option.some_ne_none snapshot)
    · exact absurd h (not_lt.mpr hle)
    · obtain rfl := Option.some_inj.mp (hmeta.symm.trans hsome)
      exact hcall
  rw [hcall]

theorem pendingPaths_gcTombstones_ne_nil_iff {c : SyncClient} {now : Time} :
    (c.gcTombstones now).pendingPaths ≠ [] ↔ ∃ p l, c.store.lookupAny p = some l ∧
      l.syncStatus = .pending ∧ MetadataStore.expired l now c.retentionSeconds = false := by
  rw [pendingPaths_ne_nil_iff]
  simp only [lookupAny_gcTombstones, Option.filter_eq_some_iff, Bool.not_eq_true']
  exact ⟨fun ⟨p, l, ⟨hl, hkept⟩, hpending⟩ => ⟨p, l, hl, hpending, hkept⟩,
    fun ⟨p, l, hl, hpending, hkept⟩ => ⟨p, l, ⟨hl, hkept⟩, hpending⟩⟩

/-- **What an upload leaves on the server**, every request answered: what was there, where nothing is
pending when it counts; otherwise the device's table, after a merge if the server has moved on. -/
theorem metadata_uploadMetadata (c : SyncClient) (r : SyncReading) {server : Server}
    {snapshot : Files} (hmeta : server.metadata = some snapshot)
    (hversion : c.lastSyncedVersion ≤ server.version) :
    (c.uploadMetadata r { server }).2.server.metadata =
      if (c.gcTombstones r.now).pendingPaths = [] then some snapshot
      else if c.lastSyncedVersion = server.version then some (c.gcTombstones r.now).store.files
      else if ((c.gcTombstones r.now).retried r server snapshot).pendingPaths = [] then some snapshot
      else some ((c.gcTombstones r.now).retried r server snapshot).store.files := by
  have hbase : (c.gcTombstones r.now).lastSyncedVersion = c.lastSyncedVersion := rfl
  unfold uploadMetadata maxCasRetries
  by_cases hgc : (c.gcTombstones r.now).pendingPaths = []
  · rw [if_pos hgc]
    split_ifs with hpending
    · exact hmeta
    · rw [uploadAttempts, if_pos hgc]
      exact hmeta
  · have hpending : c.pendingPaths ≠ [] := by
      obtain ⟨p, l, hl, hl', -⟩ := pendingPaths_gcTombstones_ne_nil_iff.mp hgc
      exact pendingPaths_ne_nil_iff.mpr ⟨p, l, hl, hl'⟩
    rw [if_neg hpending, if_neg hgc]
    by_cases heq : c.lastSyncedVersion = server.version
    · rw [if_pos heq, metadata_uploadAttempts_of_current r 4 [] (hbase.trans heq), if_neg hgc]
    · have hlt : (c.gcTombstones r.now).lastSyncedVersion < server.version := by
        rw [hbase]
        omega
      rw [if_neg heq, uploadAttempts_of_behind r 4 [] hmeta hlt hgc,
        metadata_uploadAttempts_of_current r 3 _ rfl, hmeta]

/-! ### A conflict copy on its way -/

/-- The call has made a conflict copy of a file at the path. -/
def MadeCopy (before after : SyncClient) (n : Text) (copy : FileRow) : Prop :=
  before.store.lookupAny n = none ∧ after.store.lookup n = some copy ∧ copy.syncStatus = .conflict

/-- The server's snapshot has the copy: a live record at its path that names the same file. -/
def Shared (server : Server) (n : Text) (copy : FileRow) : Prop :=
  ∃ snapshot rec, server.metadata = some snapshot ∧ snapshot.get n = some rec ∧
    rec.deleted = false ∧ rec.place = copy.place

/-- The client that a retry of the upload would merge into. -/
def collected (c : SyncClient) (r : SyncReading) (server : Server) : SyncClient :=
  (c.gcTombstones r.now).setRetention server.retentionDays

/-- The upload has something to send beside copies: a pending row that is no expired tombstone and,
where the server has moved on, is not itself moved to a conflict copy by the merge. -/
def HasOtherChange (c : SyncClient) (r : SyncReading) (server : Server) (snapshot : Files) : Prop :=
  ∃ p l, c.store.lookupAny p = some l ∧ l.syncStatus = .pending ∧
    MetadataStore.expired l r.now c.retentionSeconds = false ∧
    (c.lastSyncedVersion ≠ server.version →
      StaysPending r.timestamp (c.collected r server) snapshot p ∧
      MetadataStore.expired l r.now (c.collected r server).retentionSeconds = false)

/-- Where the server has moved on, its snapshot has no newer record at the copy's path, or one of the
same file. -/
def CopyStands (c : SyncClient) (server : Server) (snapshot : Files) (n : Text) (copy : FileRow) :
    Prop :=
  c.lastSyncedVersion ≠ server.version →
    (afterMerge snapshot n copy).deleted = false ∧ (afterMerge snapshot n copy).place = copy.place

/-- Every row marked conflict after a merge was one before, or is a pending row under another name. -/
theorem conflict_of_mergeRecord {c : SyncClient} {x : Text × FileRow} {n : Text} {copy : FileRow}
    (h : (mergeRecord timestamp c x).store.lookupAny n = some copy)
    (hstatus : copy.syncStatus = .conflict) : c.store.lookupAny n = some copy ∨
      ∃ p l, c.store.lookupAny p = some l ∧ l.syncStatus = .pending ∧ copy = conflictRow l := by
  by_cases hn : n = x.1
  · subst hn
    by_cases hsettled : Settled timestamp c x
    · rw [mergeRecord_of_settled hsettled] at h
      exact Or.inl h
    · obtain ⟨r, hr, hsynced, -⟩ := lookupAny_mergeRecord_of_not_settled hsettled
      obtain rfl := Option.some_inj.mp (h.symm.trans hr)
      rw [hsynced] at hstatus
      cases hstatus
  · rw [lookupAny_mergeRecord_of_ne c timestamp x.2 hn] at h
    split_ifs at h with hcopy
    · obtain ⟨l, hl, rfl⟩ := Option.map_eq_some_iff.mp h
      obtain ⟨l', hl', -, hpending⟩ := mergeAction_conflict hcopy.1
      obtain rfl := Option.some_inj.mp (hl.symm.trans hl')
      exact Or.inr ⟨x.1, l, hl, localBaseVersion_lt_iff.mp hpending, rfl⟩
    · exact Or.inl h

theorem conflict_of_mergeServerMetadata {c : SyncClient} {snapshot : Files} {n : Text}
    {copy : FileRow}
    (h : (c.mergeServerMetadata timestamp snapshot).store.lookupAny n = some copy)
    (hstatus : copy.syncStatus = .conflict) : c.store.lookupAny n = some copy ∨
      ∃ p l, c.store.lookupAny p = some l ∧ l.syncStatus = .pending ∧ copy = conflictRow l := by
  unfold mergeServerMetadata at h
  generalize snapshot.rows = rows at h
  induction rows generalizing c with
  | nil => exact Or.inl h
  | cons x rows ih =>
      rcases ih h with hrow | ⟨p, l, hl, hpending, rfl⟩
      · exact conflict_of_mergeRecord hrow hstatus
      · exact Or.inr ⟨p, l, lookupAny_of_pending_mergeRecord hl hpending, hpending, rfl⟩

theorem lookupAny_collected (c : SyncClient) (r : SyncReading) (server : Server) (p : Text) :
    (c.collected r server).store.lookupAny p =
      (c.store.lookupAny p).filter fun l => !MetadataStore.expired l r.now c.retentionSeconds := by
  unfold collected
  rw [store_setRetention]
  exact lookupAny_gcTombstones c r.now p

theorem lookupAny_retried (c : SyncClient) (r : SyncReading) (server : Server) (snapshot : Files)
    (p : Text) : ((c.gcTombstones r.now).retried r server snapshot).store.lookupAny p =
      (((c.collected r server).mergeServerMetadata r.timestamp snapshot).store.lookupAny p).filter
        fun l => !MetadataStore.expired l r.now (c.collected r server).retentionSeconds := by
  have hdevice := sameDevice_mergeServerMetadata (c.collected r server) r.timestamp snapshot
  rw [← hdevice.retentionSeconds]
  exact lookupAny_gcTombstones _ r.now p

/-- What keeps a retry from returning early. -/
theorem pendingPaths_retried_ne_nil_iff {c : SyncClient} {r : SyncReading} {server : Server}
    {snapshot : Files} (hne : c.lastSyncedVersion ≠ server.version) :
    ((c.gcTombstones r.now).retried r server snapshot).pendingPaths ≠ [] ↔
      HasOtherChange c r server snapshot := by
  rw [pendingPaths_ne_nil_iff]
  simp only [lookupAny_retried, Option.filter_eq_some_iff, Bool.not_eq_true']
  constructor
  · rintro ⟨p, l, ⟨hl, hkept⟩, hpending⟩
    obtain ⟨hrow, hstays⟩ := (lookupAny_mergeServerMetadata_pending_iff hpending).mp hl
    rw [lookupAny_collected, Option.filter_eq_some_iff, Bool.not_eq_true'] at hrow
    exact ⟨p, l, hrow.1, hpending, hrow.2, fun _ => ⟨hstays, hkept⟩⟩
  · rintro ⟨p, l, hl, hpending, hkept, hrest⟩
    obtain ⟨hstays, hkept'⟩ := hrest hne
    refine ⟨p, l, ⟨(lookupAny_mergeServerMetadata_pending_iff hpending).mpr ⟨?_, hstays⟩, hkept'⟩,
      hpending⟩
    rw [lookupAny_collected, hl, Option.filter_eq_some_iff, Bool.not_eq_true']
    exact ⟨rfl, hkept⟩

theorem shared_of_metadata {server : Server} {snapshot : Files} {n : Text} {copy : FileRow}
    (h : server.metadata = some snapshot) : Shared server n copy ↔
      ∃ rec, snapshot.get n = some rec ∧ rec.deleted = false ∧ rec.place = copy.place := by
  constructor
  · rintro ⟨snapshot', rec, h', hrec⟩
    obtain rfl := Option.some_inj.mp (h.symm.trans h')
    exact ⟨rec, hrec⟩
  · rintro ⟨rec, hrec⟩
    exact ⟨snapshot, rec, h, hrec⟩

/-- A copy the server has already stands. -/
theorem copyStands_of_shared {c : SyncClient} {server : Server} {snapshot : Files} {n : Text}
    {copy : FileRow} (hmeta : server.metadata = some snapshot) (hlive : copy.deleted = false)
    (h : Shared server n copy) : CopyStands c server snapshot n copy := by
  obtain ⟨rec, hrec, hlive', hplace⟩ := (shared_of_metadata hmeta).mp h
  intro _
  unfold afterMerge
  rw [hrec]
  dsimp only
  split_ifs
  · exact ⟨hlive', hplace⟩
  · exact ⟨hlive, rfl⟩

/-- **Conflict copies are shared** by a later upload exactly where the server has the copy already, or
something else is sent along and the copy stands. The copy names the file of a pending row. -/
theorem conflictCopy_shared_iff (c : SyncClient) (timestamp : Text → Text) (snapshot : Files)
    {n : Text} {copy : FileRow} (hmade : MadeCopy c (c.mergeServerMetadata timestamp snapshot) n copy)
    (later : SyncClient) (hstill : later.store.lookup n = some copy) (r : SyncReading)
    (server : Server) (current : Files) (hmeta : server.metadata = some current)
    (hversion : later.lastSyncedVersion ≤ server.version) :
    (∃ p l, c.store.lookupAny p = some l ∧ l.syncStatus = .pending ∧ l.place = copy.place) ∧
      (Shared (later.uploadMetadata r { server }).2.server n copy ↔
        Shared server n copy ∨
          HasOtherChange later r server current ∧ CopyStands later server current n copy) := by
  obtain ⟨hnone, hcopy, hstatus⟩ := hmade
  obtain ⟨hrow, hlive⟩ := MetadataStore.lookup_eq_some_iff.mp hstill
  refine ⟨?_, ?_⟩
  · rcases conflict_of_mergeServerMetadata (MetadataStore.lookup_eq_some_iff.mp hcopy).1 hstatus with
      hold | ⟨p, l, hl, hpending, rfl⟩
    · rw [hnone] at hold
      cases hold
    · exact ⟨p, l, hl, hpending, rfl⟩
  have hupload := metadata_uploadMetadata later r hmeta hversion
  have hcollected : (later.gcTombstones r.now).store.lookupAny n = some copy :=
    lookupAny_gcTombstones_of_kept hrow (expired_of_live hlive r.now later.retentionSeconds)
  have hother : HasOtherChange later r server current →
      (later.gcTombstones r.now).pendingPaths ≠ [] := fun ⟨p, l, hl, hpending, hkept, _⟩ =>
    pendingPaths_gcTombstones_ne_nil_iff.mpr ⟨p, l, hl, hpending, hkept⟩
  by_cases hgc : (later.gcTombstones r.now).pendingPaths = []
  · rw [if_pos hgc] at hupload
    rw [shared_of_metadata hupload, shared_of_metadata hmeta]
    exact ⟨Or.inl, fun h => h.resolve_right fun hsend => hother hsend.1 hgc⟩
  rw [if_neg hgc] at hupload
  by_cases heq : later.lastSyncedVersion = server.version
  · -- the PUT is accepted at once
    rw [if_pos heq] at hupload
    obtain ⟨p, l, hl, hpending, hkept⟩ := pendingPaths_gcTombstones_ne_nil_iff.mp hgc
    exact iff_of_true ((shared_of_metadata hupload).mpr ⟨copy, hcollected, hlive, rfl⟩)
      (Or.inr ⟨⟨p, l, hl, hpending, hkept, fun h => absurd heq h⟩, fun h => absurd heq h⟩)
  -- 409: the server's snapshot is merged first
  rw [if_neg heq] at hupload
  by_cases hretry : ((later.gcTombstones r.now).retried r server current).pendingPaths = []
  · rw [if_pos hretry] at hupload
    rw [shared_of_metadata hupload, shared_of_metadata hmeta]
    exact ⟨Or.inl, fun h => h.resolve_right fun hsend =>
      (pendingPaths_retried_ne_nil_iff heq).mpr hsend.1 hretry⟩
  · rw [if_neg hretry] at hupload
    have hsends := (pendingPaths_retried_ne_nil_iff heq).mp hretry
    have hmerged : ((later.gcTombstones r.now).retried r server current).store.lookupAny n =
        (some (afterMerge current n copy)).filter fun l =>
          !MetadataStore.expired l r.now (later.collected r server).retentionSeconds := by
      rw [lookupAny_retried, lookupAny_mergeServerMetadata_of_sent _ (by rw [hstatus]; decide)]
      rw [lookupAny_collected, hrow, Option.filter_eq_some_iff, expired_of_live hlive]
      exact ⟨rfl, rfl⟩
    rw [shared_of_metadata hupload]
    constructor
    · rintro ⟨rec, hrec, hreclive, hplace⟩
      obtain ⟨hafter, -⟩ := Option.filter_eq_some_iff.mp (hmerged.symm.trans hrec)
      rw [Option.some_inj] at hafter
      exact Or.inr ⟨hsends, fun _ => hafter ▸ ⟨hreclive, hplace⟩⟩
    · intro h
      have hstands : CopyStands later server current n copy := by
        rcases h with hshared | ⟨-, hstands⟩
        · exact copyStands_of_shared hmeta hlive hshared
        · exact hstands
      obtain ⟨hafter, hplace⟩ := hstands heq
      refine ⟨afterMerge current n copy, ?_, hafter, hplace⟩
      rw [show ((later.gcTombstones r.now).retried r server current).store.files.get n = _ from
        hmerged, Option.filter_eq_some_iff, expired_of_live hafter]
      exact ⟨rfl, rfl⟩

/-- A device with a pending change of a note, and the copy a merge makes of it. -/
def editedNote : SyncClient := laptopWith (oneRow { note 2 with syncStatus := .pending })

def noteCopy : FileRow := { note 2 with syncStatus := .conflict }

def copyName : Text := "/a (conflict - laptop - t)".toList

def afterDownload : SyncClient :=
  (editedNote.downloadAndMerge atNoon (serverWith (oneRow (noteElsewhere 3)))).1

theorem madeCopy_editedNote : MadeCopy editedNote
    (editedNote.mergeServerMetadata (fun _ => "t".toList) (oneRow (noteElsewhere 3))) copyName
    noteCopy :=
  ⟨by decide, by decide, rfl⟩

theorem editedNote_copy_shared :
    (∃ p l, editedNote.store.lookupAny p = some l ∧ l.syncStatus = .pending ∧
      l.place = noteCopy.place) ∧
    (Shared (afterDownload.uploadMetadata atNoon (serverWith (oneRow (noteElsewhere 3)))).2.server
        copyName noteCopy ↔
      Shared (serverWith (oneRow (noteElsewhere 3))).server copyName noteCopy ∨
        HasOtherChange afterDownload atNoon (serverWith (oneRow (noteElsewhere 3))).server
            (oneRow (noteElsewhere 3)) ∧
          CopyStands afterDownload (serverWith (oneRow (noteElsewhere 3))).server
            (oneRow (noteElsewhere 3)) copyName noteCopy) :=
  conflictCopy_shared_iff editedNote _ _ madeCopy_editedNote afterDownload (by decide) atNoon
    (serverWith (oneRow (noteElsewhere 3))).server (oneRow (noteElsewhere 3)) rfl (by decide)

/-- The upload after the download returns early: the copy is on this device only. -/
theorem copy_is_not_uploaded :
    MadeCopy editedNote (editedNote.mergeServerMetadata (fun _ => "t".toList)
        (oneRow (noteElsewhere 3))) copyName noteCopy ∧
      afterDownload.store.lookup copyName = some noteCopy ∧
      ¬ Shared (afterDownload.uploadMetadata atNoon (serverWith (oneRow (noteElsewhere 3)))).2.server
        copyName noteCopy := by
  refine ⟨madeCopy_editedNote, by decide, ?_⟩
  rintro ⟨snapshot, rec, hmeta, hrec, -⟩
  have hserver : (afterDownload.uploadMetadata atNoon
      (serverWith (oneRow (noteElsewhere 3)))).2.server.metadata = some (oneRow (noteElsewhere 3)) := by
    decide
  obtain rfl := Option.some_inj.mp (hserver.symm.trans hmeta)
  have hnone : (oneRow (noteElsewhere 3)).get copyName = none := by decide
  rw [hnone] at hrec
  cases hrec

end SyncClient

end StardustFS
