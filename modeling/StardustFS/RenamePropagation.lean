import StardustFS.SnapshotSuccession
import StardustFS.VolumePlaces

/-! A rename and the devices that do not hear of it. `rename_path` changes the key of a row and nothing
else: the row stays synced, the old path keeps no tombstone, so the upload that follows has nothing to
send and no later merge sees a difference. -/

namespace StardustFS

/-- The device has applied the server's snapshot and has nothing to send. -/
structure InSync (c : SyncClient) (server : Server) (snapshot : Files) : Prop where
  metadata : server.metadata = some snapshot
  version : c.lastSyncedVersion = server.version
  synced : ∀ p r, c.store.lookupAny p = some r → r.syncStatus = .synced ∧
    ∃ rec, snapshot.get p = some rec ∧ SameRecord r rec
  known : ∀ p rec, snapshot.get p = some rec → rec.deleted = false →
    ∃ r, c.store.lookupAny p = some r

namespace World

variable {ι : Type*} [DecidableEq ι]

/-- `move_file` on a device and the `upload_metadata` after it. -/
def renameStep (w : World ι) (i : ι) (src dst : Text) (r : SyncReading) : World ι :=
  let c := w.devices i
  let (c, net) := { c with jbod := (c.jbod.moveFile src dst).2 }.uploadMetadata r { server := w.server }
  { w.setDevice i c with server := net.server }

/-- One of two devices merges, or time passes. -/
def MergeOrTick (i j : ι) (e : WorldEvent ι) : Prop :=
  (∃ now, e = .tick now) ∨ ∃ k timestamp, (k = i ∨ k = j) ∧ e = .merge k timestamp

/-- The rename has reached both devices: the old path is gone, the new one names the file, and nowhere
do two live records name one file. -/
structure RenamePropagated (w : World ι) (i j : ι) (src dst : Text) (row : FileRow) : Prop where
  source_gone : ∀ k, k = i ∨ k = j → (w.devices k).store.lookup src = none
  target_live : ∀ k, k = i ∨ k = j →
    ∃ r, (w.devices k).store.lookup dst = some r ∧ r.place = row.place
  no_alias : ∀ k p q r r', (w.devices k).store.lookup p = some r →
    (w.devices k).store.lookup q = some r' → r.place = r'.place → p = q

/-- Nothing is pending on a device in sync, before a move and after it. -/
theorem pendingPaths_moveFile {c : SyncClient} {server : Server} {snapshot : Files}
    (h : InSync c server snapshot) (src dst : Text) :
    ({ c with jbod := (c.jbod.moveFile src dst).2 } : SyncClient).pendingPaths = [] := by
  apply List.eq_nil_iff_forall_not_mem.mpr
  intro p hp
  obtain ⟨r, hr, hpending⟩ := SyncClient.mem_pendingPaths.mp hp
  have hold : ∃ q, c.store.lookupAny q = some r := by
    obtain ⟨result, moved, hmove⟩ : ∃ result moved, c.jbod.moveFile src dst = (result, moved) :=
      ⟨_, _, rfl⟩
    have hr' : moved.metadataStore.lookupAny p = some r := by
      rw [← hr, SyncClient.store, hmove]
    rcases JbodManager.moveFile_cases hmove with rfl | ⟨-, row, s, hrow, rfl, hrows⟩
    · exact ⟨p, hr'⟩
    · rw [hrows] at hr'
      split_ifs at hr'
      · rw [Option.some_inj] at hr'
        exact ⟨src, hr' ▸ (MetadataStore.lookup_eq_some_iff.mp hrow).1⟩
      · exact ⟨p, hr'⟩
  obtain ⟨q, hq⟩ := hold
  rw [(h.synced q r hq).1] at hpending
  cases hpending

/-- The upload after the move is skipped. -/
theorem renameStep_eq {w : World ι} {i : ι} {snapshot : Files}
    (h : InSync (w.devices i) w.server snapshot) (src dst : Text) (r : SyncReading) :
    w.renameStep i src dst r = w.setDevice i
      { w.devices i with jbod := ((w.devices i).jbod.moveFile src dst).2 } := by
  unfold renameStep
  dsimp only
  rw [SyncClient.uploadMetadata, if_pos (pendingPaths_moveFile h src dst)]
  rfl

/-- The server is at the version both devices know, and the second device still has its old store. -/
structure Unmoved (i j : ι) (server : Server) (store : MetadataStore) (w : World ι) : Prop where
  server_eq : w.server = server
  metadata : ∃ snapshot, server.metadata = some snapshot
  version : ∀ k, k = i ∨ k = j → (w.devices k).lastSyncedVersion = server.version
  store_eq : (w.devices j).store = store

/-- A device changes neither its version nor its table. -/
theorem Unmoved.setDevice {i j k : ι} {server : Server} {store : MetadataStore} {w : World ι}
    {c : SyncClient} (h : Unmoved i j server store w)
    (hversion : c.lastSyncedVersion = (w.devices k).lastSyncedVersion)
    (hstore : c.store = (w.devices k).store) :
    Unmoved i j server store (w.setDevice k c) := by
  refine ⟨h.server_eq, h.metadata, fun l hl => ?_, ?_⟩
  · by_cases hlk : l = k
    · subst hlk
      rw [devices_setDevice_self, hversion]
      exact h.version l hl
    · rw [devices_setDevice_of_ne w c hlk]
      exact h.version l hl
  · by_cases hjk : j = k
    · subst hjk
      rw [devices_setDevice_self, hstore]
      exact h.store_eq
    · rw [devices_setDevice_of_ne w c hjk]
      exact h.store_eq

theorem unmoved_step {i j : ι} {server : Server} {store : MetadataStore} {w w' : World ι}
    {e : WorldEvent ι} (h : Unmoved i j server store w)
    (he : MergeOrTick i j e)
    (hstep : w.step e = some w') : Unmoved i j server store w' := by
  rcases he with ⟨now, rfl⟩ | ⟨k, timestamp, hk, rfl⟩
  · rw [step] at hstep
    split_ifs at hstep
    rw [Option.some_inj] at hstep
    subst hstep
    exact ⟨h.server_eq, h.metadata, h.version, h.store_eq⟩
  · rw [step, Option.some_inj] at hstep
    subst hstep
    obtain ⟨snapshot, hsnapshot⟩ := h.metadata
    have hversion := h.version k hk
    have hcall : (w.devices k).downloadAndMerge ⟨w.now, timestamp⟩ { server := w.server } =
        ((w.devices k).setRetention w.server.retentionDays, { server := w.server }) := by
      rcases (w.devices k).downloadAndMerge_cases ⟨w.now, timestamp⟩
        (show ({ server := w.server } : Net).fates = [] from rfl) with
        ⟨hnone, -⟩ | ⟨_, -, -, hcall⟩ | ⟨_, -, hlt, -⟩
      · rw [h.server_eq, hsnapshot] at hnone
        cases hnone
      · exact hcall
      · rw [h.server_eq, hversion] at hlt
        exact absurd hlt (lt_irrefl _)
    have hmerge : w.mergeStep k timestamp =
        w.setDevice k ((w.devices k).setRetention w.server.retentionDays) := by
      unfold mergeStep
      rw [hcall]
      rfl
    rw [hmerge]
    apply h.setDevice
    · exact SyncClient.lastSyncedVersion_setRetention _ _
    · exact SyncClient.store_setRetention _ _

/-- **A rename never propagates.** From two devices in sync with the server, after the move of a live
file, the upload, and any merges on both, the second device still has the file at its old path. -/
theorem rename_never_propagates {w w' : World ι} {i j : ι} {snapshot : Files} {src dst : Text}
    {row : FileRow} {es : List (WorldEvent ι)} (hij : i ≠ j)
    (hi : InSync (w.devices i) w.server snapshot) (hj : InSync (w.devices j) w.server snapshot)
    (hsrc : (w.devices i).store.lookup src = some row) (r : SyncReading) (hes : ∀ e ∈ es, MergeOrTick i j e)
    (hrun : Transitions.run step (w.renameStep i src dst r) es = some w') :
    ¬ RenamePropagated w' i j src dst row := by
  have hstart : Unmoved i j w.server (w.devices j).store (w.renameStep i src dst r) := by
    rw [renameStep_eq hi]
    refine ⟨rfl, ⟨snapshot, hi.metadata⟩, fun k hk => ?_, ?_⟩
    · by_cases hki : k = i
      · subst hki
        rw [devices_setDevice_self]
        exact hi.version
      · rw [devices_setDevice_of_ne w _ hki, hk.resolve_left hki]
        exact hj.version
    · rw [devices_setDevice_of_ne w _ hij.symm]
  have hend : Unmoved i j w.server (w.devices j).store w' :=
    Transitions.run_invariant (fun _ _ _ h he hstep => unmoved_step h he hstep) hstart
      (Transitions.stepsMeet_of_mem hes _) hrun
  -- the file is live on the second device, as the snapshot has it
  obtain ⟨hany, hlive⟩ := MetadataStore.lookup_eq_some_iff.mp hsrc
  obtain ⟨-, rec, hrec, hsame⟩ := hi.synced src row hany
  obtain ⟨row', hrow'⟩ := hj.known src rec hrec (hsame.2.1.symm.trans hlive)
  obtain ⟨-, rec', hrec', hsame'⟩ := hj.synced src row' hrow'
  obtain rfl := Option.some_inj.mp (hrec.symm.trans hrec')
  have hlive' : row'.deleted = false := by
    calc row'.deleted = rec.deleted := hsame'.2.1
      _ = row.deleted := hsame.2.1.symm
      _ = false := hlive
  intro h
  have hgone := h.source_gone j (Or.inr rfl)
  rw [hend.store_eq, MetadataStore.lookup_eq_some_iff.mpr ⟨hrow', hlive'⟩] at hgone
  cases hgone

/-- Two devices and a server that have one file in common. -/
def sharedFile : FileRow where
  sourceId := "s"
  physicalPath := "x_a".toList
  fileSize := 1
  createdAt := 0
  modifiedAt := 0
  deviceId := some "A"

def sharedFiles : Files := Table.empty.insert "/a".toList sharedFile

def syncedPair : World Bool where
  devices := fun _ => {
    jbod := { metadataStore := ⟨sharedFiles, Table.empty⟩, sources := Table.empty }
    deviceName := "laptop".toList
    lastSyncedVersion := 1 }
  server := { version := 1, metadata := some sharedFiles }
  now := 0

theorem inSync_syncedPair (b : Bool) :
    InSync (syncedPair.devices b) syncedPair.server sharedFiles := by
  refine ⟨rfl, rfl, fun p r hr => ?_, fun p rec hrec _ => ⟨rec, hrec⟩⟩
  have hget : sharedFiles.get p = some r := hr
  refine ⟨?_, r, hr, rfl, rfl, rfl, rfl, rfl⟩
  rw [sharedFiles, Table.get_insert] at hget
  split_ifs at hget
  · rw [← Option.some_inj.mp hget]
    rfl
  · cases hget

def bothMerge : List (WorldEvent Bool) := [.merge false fun _ => [], .merge true fun _ => []]

theorem syncedPair_rename_stays_local : ∃ w',
    Transitions.run step (syncedPair.renameStep true "/a".toList "/b".toList ⟨0, fun _ => []⟩)
        bothMerge = some w' ∧
      ¬ RenamePropagated w' true false "/a".toList "/b".toList sharedFile := by
  have hes : ∀ e ∈ bothMerge, MergeOrTick true false e := by
    intro e he
    rcases List.mem_pair.mp he with rfl | rfl
    · exact Or.inr ⟨false, _, Or.inr rfl, rfl⟩
    · exact Or.inr ⟨true, _, Or.inl rfl, rfl⟩
  exact ⟨_, rfl, rename_never_propagates (by decide) (inSync_syncedPair true)
    (inSync_syncedPair false) (by decide) _ hes rfl⟩

/-- The file stays live at its old path on the other device, which never hears of the new one. -/
theorem renamed_file_stays_on_other_device : ∃ w',
    Transitions.run step (syncedPair.renameStep true "/a".toList "/b".toList ⟨0, fun _ => []⟩)
        bothMerge = some w' ∧
      (w'.devices true).store.lookup "/b".toList = some sharedFile ∧
      (w'.devices false).store.lookup "/b".toList = none ∧
      ¬ RenamePropagated w' true false "/a".toList "/b".toList sharedFile := by
  have hstays : ∃ w', Transitions.run step
      (syncedPair.renameStep true "/a".toList "/b".toList ⟨0, fun _ => []⟩) bothMerge = some w' ∧
      (w'.devices true).store.lookup "/b".toList = some sharedFile ∧
      (w'.devices false).store.lookup "/b".toList = none ∧
      (w'.devices false).store.lookup "/a".toList = some sharedFile :=
    ⟨_, rfl, by decide, by decide, by decide⟩
  obtain ⟨w', hrun, htrue, hfalse, hold⟩ := hstays
  refine ⟨w', hrun, htrue, hfalse, fun h => ?_⟩
  have hgone := h.source_gone false (Or.inr rfl)
  rw [hold] at hgone
  cases hgone

end World

end StardustFS
