import StardustFS.SyncClient
import StardustFS.Transitions
import StardustFS.VolumePlaces

/-! Orphan collection. The scan keeps what live records of this device or of nobody name, and the
device is known by the id it has now; a live record that another id owns protects its file only
where it names the same file as a kept one. -/

namespace StardustFS

namespace StorageSource

/-- A file of a source in service can be deleted. -/
theorem exists_delete {s : StorageSource} (hact : s.isActive = true) {p : Text} {data : Bytes}
    (h : s.tree.file? (resolve p) = some data) : ∃ s', s.delete p = (.ok (), s') := by
  obtain ⟨tree, htree⟩ := DirectoryTree.exists_remove (DirectoryTree.file?_eq_some_iff.mp h)
  simp only [delete, hact, htree]
  exact ⟨_, rfl⟩

end StorageSource

namespace JbodManager

/-- The scan deletes the file of this name, if there is one. -/
def doomed (live : List (SourceId × Text)) (sourceId : SourceId) (name : FileName) : Bool :=
  isManagedFile name.val && !live.contains (sourceId, name.val)

theorem doomed_iff {live : List (SourceId × Text)} {sourceId : SourceId} {name : FileName} :
    doomed live sourceId name = true ↔
      (!isManagedFile name.val || live.contains (sourceId, name.val)) = false := by
  unfold doomed
  cases isManagedFile name.val <;> simp

/-- The scan deletes the file at this path, if there is one. -/
def doomedAt (live : List (SourceId × Text)) (sourceId : SourceId) : List FileName → Bool
  | [name] => doomed live sourceId name
  | _ => false

/-- The scan at one file of the root. -/
theorem file?_sweepFile (live : List (SourceId × Text)) (sourceId : SourceId) {name : FileName}
    {acc : Nat × StorageSource} {data : Bytes} (hactive : acc.2.isActive = true)
    (hdata : acc.2.tree.file? [name] = some data) :
    (sweepFile live sourceId acc name.val).2.isActive = true ∧ ∀ q,
      (sweepFile live sourceId acc name.val).2.tree.file? q =
        if q = [name] ∧ doomed live sourceId name then none else acc.2.tree.file? q := by
  unfold sweepFile
  by_cases hdoom : doomed live sourceId name
  · obtain ⟨s', hdel⟩ := StorageSource.exists_delete hactive
      ((StorageSource.resolve_name name).symm ▸ hdata)
    obtain ⟨-, hact', hget⟩ := StorageSource.delete_ok hdel
    rw [doomed_iff.mp hdoom, hdel]
    refine ⟨hact', fun q => ?_⟩
    show s'.tree.file? q = _
    rw [hget q, StorageSource.resolve_name, if_congr (and_iff_left hdoom) rfl rfl]
  · rw [if_pos (by simpa only [Bool.not_eq_false] using mt doomed_iff.mpr hdoom)]
    exact ⟨hactive, fun q => (if_neg fun h => hdoom h.2).symm⟩

/-- **The scan of an active source**: it stays active, the managed files of the root that are not kept
are gone, and all other files, those in directories among them, are there. -/
theorem sweep_active {s : StorageSource} (hact : s.isActive = true)
    (live : List (SourceId × Text)) (sourceId : SourceId) :
    (sweep live sourceId s).2.isActive = true ∧ ∀ q, (sweep live sourceId s).2.tree.file? q =
      if doomedAt live sourceId q then none else s.tree.file? q := by
  have hlist : s.listPhysicalFiles = .ok (s.tree.rootFiles.map Subtype.val) := by
    rw [StorageSource.listPhysicalFiles, hact]
    rfl
  have hnodup : (s.tree.rootFiles.map Subtype.val).Nodup :=
    (DirectoryTree.nodup_rootFiles s.tree).map Subtype.val_injective
  -- the source stays active, and the files scanned so far have met their fate
  have key := Transitions.foldl_prefix_rule (sweepFile live sourceId)
    (s.tree.rootFiles.map Subtype.val)
    (fun done acc => acc.2.isActive = true ∧ ∀ q, acc.2.tree.file? q =
      if q ∈ done.map StorageSource.resolve ∧ doomedAt live sourceId q then none
      else s.tree.file? q)
    (b := (0, s)) ⟨hact, fun q => by simp⟩ ?_
  · rw [sweep, hlist]
    refine ⟨key.1, fun q => ?_⟩
    dsimp only
    rw [key.2 q]
    by_cases hdoom : doomedAt live sourceId q
    · obtain ⟨name, rfl⟩ : ∃ name, q = [name] := by
        unfold doomedAt at hdoom
        split at hdoom
        · exact ⟨_, rfl⟩
        · cases hdoom
      rw [if_pos hdoom]
      split_ifs with hin
      · rfl
      · by_contra hfile
        obtain ⟨data, hdata⟩ := Option.ne_none_iff_exists'.mp hfile
        refine hin ⟨List.mem_map.mpr ⟨name.val, List.mem_map_of_mem ?_,
          StorageSource.resolve_name name⟩, hdoom⟩
        exact DirectoryTree.mem_rootFiles.mpr ⟨data, DirectoryTree.file?_eq_some_iff.mp hdata⟩
    · rw [if_neg hdoom, if_neg fun h => hdoom h.2]
  · rintro done x rest acc hsplit ⟨hactive, hfiles⟩
    obtain ⟨name, hname, rfl⟩ : ∃ name ∈ s.tree.rootFiles, name.val = x := by
      refine List.mem_map.mp ?_
      rw [hsplit]
      exact List.mem_append_right _ List.mem_cons_self
    have hfresh : [name] ∉ done.map StorageSource.resolve := by
      intro hin
      obtain ⟨y, hy, hresolve⟩ := List.mem_map.mp hin
      obtain ⟨other, -, rfl⟩ : ∃ other ∈ s.tree.rootFiles, other.val = y := by
        refine List.mem_map.mp ?_
        rw [hsplit]
        exact List.mem_append_left _ hy
      rw [StorageSource.resolve_name, List.cons.injEq] at hresolve
      rw [hsplit, List.nodup_append] at hnodup
      exact hnodup.2.2 _ hy _ List.mem_cons_self (congrArg Subtype.val hresolve.1)
    obtain ⟨data, hdata⟩ := DirectoryTree.mem_rootFiles.mp hname
    have hdata' : acc.2.tree.file? [name] = some data := by
      rw [hfiles, if_neg fun h => hfresh h.1]
      exact DirectoryTree.file?_eq_some_iff.mpr hdata
    obtain ⟨hactive', hget⟩ := file?_sweepFile live sourceId hactive hdata'
    refine ⟨hactive', fun q => ?_⟩
    rw [hget q, hfiles q]
    by_cases hq : q = [name]
    · subst hq
      simp [hfresh, doomedAt, StorageSource.resolve_name]
    · simp [hq, StorageSource.resolve_name]

/-- The root of an active source after the scan. -/
theorem contents_sweep {s : StorageSource} (hact : s.isActive = true)
    (live : List (SourceId × Text)) (sourceId : SourceId) (name : FileName) :
    (sweep live sourceId s).2.contents name.val =
      if doomed live sourceId name then none else s.contents name.val := by
  rw [StorageSource.contents, (sweep_active hact live sourceId).2, StorageSource.resolve_name]
  rw [StorageSource.contents, StorageSource.resolve_name, doomedAt]

/-- An inactive source is not scanned. -/
theorem sweep_of_inactive {s : StorageSource} (hact : s.isActive = false)
    (live : List (SourceId × Text)) (sourceId : SourceId) : sweep live sourceId s = (0, s) := by
  rw [sweep, StorageSource.listPhysicalFiles, hact]
  rfl

/-- Some live record, of whatever owner, names the file. -/
def Referenced (j : JbodManager) (sourceId : SourceId) (name : FileName) : Prop :=
  ∃ p row, j.metadataStore.lookup p = some row ∧ row.sourceId = sourceId ∧
    row.physicalPath = name.val

/-- The files of the source roots that live records name are the same afterwards. -/
def KeepsReferenced (before after : JbodManager) : Prop :=
  ∀ sourceId s name data, before.Referenced sourceId name → before.sources.get sourceId = some s →
    s.contents name.val = some data →
    ∃ s', after.sources.get sourceId = some s' ∧ s'.contents name.val = some data

/-- Every managed file in the root of an active source that some live record names is named by a live
record of the device, or of nobody. -/
def OwnersCover (j : JbodManager) (deviceId : DeviceId) : Prop :=
  ∀ sourceId s name data, j.sources.get sourceId = some s → s.isActive = true →
    isManagedFile name.val = true → s.contents name.val = some data →
    j.Referenced sourceId name →
    ∃ p row, j.metadataStore.lookup p = some row ∧ row.sourceId = sourceId ∧
      row.physicalPath = name.val ∧ (row.deviceId = some deviceId ∨ row.deviceId = none)

theorem mem_livePhysicalPathsForDevice {store : MetadataStore} {deviceId : DeviceId}
    {sourceId : SourceId} {path : Text} :
    (sourceId, path) ∈ store.livePhysicalPathsForDevice deviceId ↔
      ∃ p row, store.lookup p = some row ∧ row.sourceId = sourceId ∧ row.physicalPath = path ∧
        (row.deviceId = some deviceId ∨ row.deviceId = none) := by
  simp only [MetadataStore.livePhysicalPathsForDevice, List.mem_map, List.mem_filter,
    Bool.and_eq_true, Bool.or_eq_true, beq_iff_eq, Bool.not_eq_true', Prod.mk.injEq, Prod.exists,
    MetadataStore.lookup_eq_some_iff, MetadataStore.lookupAny, Table.get_eq_some_iff]
  constructor
  · rintro ⟨p, row, ⟨hmem, hlive, howner⟩, hsource, hpath⟩
    exact ⟨p, row, ⟨hmem, hlive⟩, hsource, hpath, howner⟩
  · rintro ⟨p, row, ⟨hmem, hlive⟩, hsource, hpath, howner⟩
    exact ⟨p, row, ⟨hmem, hlive, howner⟩, hsource, hpath⟩

/-- A scan keeps what live records name exactly where the device has no id, or the owners it looks
for cover the files it finds. -/
theorem gcOrphanFiles_keepsReferenced_iff (j : JbodManager) :
    KeepsReferenced j j.gcOrphanFiles.2 ↔ ∀ deviceId, j.deviceId = some deviceId →
      j.OwnersCover deviceId := by
  unfold gcOrphanFiles
  cases hdev : j.deviceId with
  | none =>
      refine ⟨fun _ _ h => (nomatch h), fun _ => ?_⟩
      intro sourceId s name data _ hs hdata
      exact ⟨s, hs, hdata⟩
  | some deviceId =>
      have hafter : ∀ sourceId s, j.sources.get sourceId = some s →
          (j.sources.mapRows fun sourceId s => (sweep
            (j.metadataStore.livePhysicalPathsForDevice deviceId) sourceId s).2).get sourceId =
          some (sweep (j.metadataStore.livePhysicalPathsForDevice deviceId) sourceId s).2 := by
        intro sourceId s hs
        rw [Table.get_mapRows, hs]
        rfl
      constructor
      · intro hkeeps deviceId' hdev' sourceId s name data hs hact hmanaged hdata href
        rw [Option.some_inj] at hdev'
        subst hdev'
        obtain ⟨s', hs', hdata'⟩ := hkeeps sourceId s name data href hs hdata
        rw [hafter sourceId s hs, Option.some_inj] at hs'
        rw [← hs', contents_sweep hact] at hdata'
        split_ifs at hdata' with hdoom
        rw [doomed, hmanaged, Bool.true_and, Bool.not_eq_true, Bool.not_eq_false',
          List.contains_iff_mem] at hdoom
        exact mem_livePhysicalPathsForDevice.mp hdoom
      · intro hcover sourceId s name data href hs hdata
        refine ⟨_, hafter sourceId s hs, ?_⟩
        cases hact : s.isActive with
        | false => rw [sweep_of_inactive hact, hdata]
        | true =>
            rw [contents_sweep hact, if_neg, hdata]
            intro hdoom
            rw [doomed, Bool.and_eq_true, Bool.not_eq_true', ← Bool.not_eq_true,
              List.contains_iff_mem] at hdoom
            exact hdoom.2 (mem_livePhysicalPathsForDevice.mpr
              (hcover deviceId rfl sourceId s name data hs hact hdoom.1 hdata href))

/-- A scan on demand leaves the sources alone unless the flag was set. -/
theorem gcOrphanFilesIfNeeded_keepsReferenced_iff (j : JbodManager) :
    KeepsReferenced j j.gcOrphanFilesIfNeeded.2 ↔
      (j.gcNeeded = true → ∀ deviceId, j.deviceId = some deviceId → j.OwnersCover deviceId) := by
  unfold gcOrphanFilesIfNeeded
  cases hflag : j.gcNeeded with
  | false =>
      refine ⟨fun _ h => (nomatch h), fun _ sourceId s name data _ hs hdata => ?_⟩
      exact ⟨s, hs, hdata⟩
  | true =>
      have h := gcOrphanFiles_keepsReferenced_iff { j with gcNeeded := false }
      exact h.trans ⟨fun h _ => h, fun h => h rfl⟩

end JbodManager

namespace SyncClient

/-- **Orphan collection and referenced files**, for the scan itself, the scan after a cycle and the
scan of a start-up download. A file that a live record names is kept exactly where the device has no
id, or every managed file a live record names in the root of an active source is also named by a
live record of the device's present id or of nobody. -/
theorem orphanGc_keepsReferenced_iff (j : JbodManager) (c : SyncClient) (r : SyncReading) (net : Net)
    (snapshot : Files) (hfates : net.fates = []) (hmeta : net.server.metadata = some snapshot) :
    (j.KeepsReferenced j.gcOrphanFiles.2 ↔
      ∀ deviceId, j.deviceId = some deviceId → j.OwnersCover deviceId) ∧
    (j.KeepsReferenced j.gcOrphanFilesIfNeeded.2 ↔
      (j.gcNeeded = true → ∀ deviceId, j.deviceId = some deviceId → j.OwnersCover deviceId)) ∧
    ((c.mergeServerMetadata r.timestamp snapshot).jbod.KeepsReferenced (c.initialSync r net).1.jbod ↔
      ((c.mergeServerMetadata r.timestamp snapshot).jbodAttached = true → ∀ deviceId,
        (c.mergeServerMetadata r.timestamp snapshot).jbod.deviceId = some deviceId →
        (c.mergeServerMetadata r.timestamp snapshot).jbod.OwnersCover deviceId)) := by
  refine ⟨j.gcOrphanFiles_keepsReferenced_iff, j.gcOrphanFilesIfNeeded_keepsReferenced_iff, ?_⟩
  have hcall : (c.initialSync r net).1.jbod =
      if (c.mergeServerMetadata r.timestamp snapshot).jbodAttached then
        (c.mergeServerMetadata r.timestamp snapshot).jbod.gcOrphanFiles.2
      else (c.mergeServerMetadata r.timestamp snapshot).jbod := by
    simp only [initialSync, Net.request, hfates, hmeta]
    split_ifs <;> rfl
  rw [hcall]
  cases (c.mergeServerMetadata r.timestamp snapshot).jbodAttached with
  | false =>
      refine ⟨fun _ h => (nomatch h), fun _ sourceId s name data _ hs hdata => ?_⟩
      exact ⟨s, hs, hdata⟩
  | true =>
      have h := (c.mergeServerMetadata r.timestamp snapshot).jbod.gcOrphanFiles_keepsReferenced_iff
      exact h.trans ⟨fun h _ => h, fun h => h rfl⟩

/-- A volume with one empty directory source. -/
def emptyVolume (deviceId : Option DeviceId) : JbodManager where
  metadataStore := MetadataStore.initial
  sources := Table.empty.insert "s" { kind := .directory }
  deviceId := deviceId

/-- The volume after one file was written. -/
def volumeWithFile (deviceId : Option DeviceId) : JbodManager :=
  ((emptyVolume deviceId).writeFile
    { now := 0, uuid := List.replicate 32 'a', diskFree := fun _ => 100 } "/a".toList [7]).2

/-- The stored file. -/
def storedName : FileName := ⟨List.replicate 32 'a' ++ "_a".toList, by decide⟩

/-- The sync client of a volume. -/
def clientOf (j : JbodManager) : SyncClient where
  jbod := j
  deviceName := "laptop".toList

theorem volumeWithFile_keepsReferenced_iff :
    (volumeWithFile (some "old")).KeepsReferenced (volumeWithFile (some "old")).gcOrphanFiles.2 ↔
      ∀ deviceId, some "old" = some deviceId → (volumeWithFile (some "old")).OwnersCover deviceId :=
  (orphanGc_keepsReferenced_iff (volumeWithFile (some "old"))
    (clientOf (volumeWithFile (some "old"))) ⟨0, fun _ => []⟩
    { server := { version := 1, metadata := some Table.empty } } Table.empty rfl rfl).1

/-- The device has been registered anew: the file it wrote itself under the old id is deleted. -/
theorem new_device_id_deletes_file :
    ¬ ({ volumeWithFile (some "old") with deviceId := some "new" }).KeepsReferenced
      ({ volumeWithFile (some "old") with deviceId := some "new" }).gcOrphanFiles.2 := by
  intro h
  obtain ⟨s', hs', hdata⟩ := h "s" _ storedName [7] ⟨"/a".toList, _, rfl, rfl, rfl⟩ rfl (by decide)
  have hgone : ((({ volumeWithFile (some "old") with deviceId := some "new" }).gcOrphanFiles.2.sources.get
      "s").bind fun s => s.contents storedName.val) = none := by decide
  rw [hs', Option.bind_some, hdata] at hgone
  cases hgone

end SyncClient

end StardustFS
