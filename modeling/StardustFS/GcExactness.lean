import StardustFS.ManagedFiles
import StardustFS.SyncExchange

/-! How exact orphan collection is. Beside a device runs a list of the places its volume has made, and a
scan is held against it: of the files made, those a live record names should be left and no other, and
what was not made by the volume should be untouched. The scan sees the root of a source only and
knows its files by the form of their names. -/

namespace StardustFS

open StorageSource (resolve)

/-- The record is this device's or nobody's and its bytes are at the place. -/
def JbodManager.ReferencedAt (j : JbodManager) (deviceId : DeviceId) (place : Location) : Prop :=
  ∃ p row, j.metadataStore.lookup p = some row ∧ row.location = place ∧
    (row.deviceId = some deviceId ∨ row.deviceId = none)

/-- Where a write makes a new file: nowhere over a file of this device or of nobody. -/
def JbodManager.newPlace (j : JbodManager) (reading : Reading) (p : Text) (data : Bytes) :
    Option Location :=
  if ((j.metadataStore.lookup p).map fun row => !j.ownedElsewhere row).getD false then none
  else (j.selectSource reading.diskFree (j.encrypt reading.iv data).length).map
    fun sourceId => (sourceId, resolve (JbodManager.generatePhysicalPath reading.uuid p))

/-- A device and the places its volume has made. -/
structure MakingDevice where
  client : SyncClient
  made : List Location := []

inductive MakingEvent where
  | writeFile (reading : Reading) (virtualPath : Text) (data : Bytes)
  | deleteFile (now : Time) (virtualPath : Text)
  | merge (timestamp : Text → Text) (snapshot : Files)
  | uploaded (now : Time) (version : Nat) (paths : List Text)
  | gcOrphanFiles

namespace MakingDevice

/-- A device with an id over an empty store. Its sources hold whatever the user put there. -/
def fresh (deviceId : DeviceId) (deviceName : Text) (engine : Option EncryptionEngine)
    (sources : Table SourceId StorageSource) : MakingDevice where
  client :=
    { jbod := { metadataStore := MetadataStore.initial, sources, encryptionEngine := engine,
                deviceId := some deviceId },
      deviceName }

def withJbod (d : MakingDevice) (jbod : JbodManager) : MakingDevice :=
  { d with client := { d.client with jbod } }

def step (d : MakingDevice) : MakingEvent → Option MakingDevice
  | .writeFile reading p data =>
      match d.client.jbod.writeFile reading p data with
      | (.ok _, jbod) =>
          some { d.withJbod jbod with
            made := (d.client.jbod.newPlace reading p data).toList ++ d.made }
      | (.error _, jbod) => some (d.withJbod jbod)
  | .deleteFile now p => some (d.withJbod (d.client.jbod.deleteFile now p).2)
  | .merge timestamp snapshot =>
      some { d with client := d.client.mergeServerMetadata timestamp snapshot }
  | .uploaded now version paths => some { d with client := d.client.accepted now version paths }
  | .gcOrphanFiles => some (d.withJbod d.client.jbod.gcOrphanFiles.2)

/-- The UUID of a write is one. -/
def DrawsUuid : MakingEvent → Prop
  | .writeFile reading _ _ => IsUuidHex reading.uuid
  | _ => True

instance : DecidablePred DrawsUuid
  | .writeFile reading _ _ => inferInstanceAs (Decidable (IsUuidHex reading.uuid))
  | .deleteFile _ _ => instDecidableTrue
  | .merge _ _ => instDecidableTrue
  | .uploaded _ _ _ => instDecidableTrue
  | .gcOrphanFiles => instDecidableTrue

/-- **The scan of this moment is exact**: after it the files the volume made on an active source, at
whatever depth, are those that a live record of this device or of nobody names, and every other file
keeps its bytes. -/
def GcExact (deviceId : DeviceId) (d : MakingDevice) : Prop :=
  ∀ sourceId s, d.client.jbod.sources.get sourceId = some s → s.isActive = true →
    ∃ s', d.client.jbod.gcOrphanFiles.2.sources.get sourceId = some s' ∧ ∀ q,
      ((sourceId, q) ∈ d.made →
        ((s'.tree.file? q).isSome ↔ d.client.jbod.ReferencedAt deviceId (sourceId, q))) ∧
      ((sourceId, q) ∉ d.made → s'.tree.file? q = s.tree.file? q)

/-- What the scan looks for is what it should find. A made file that a record names is there; one made
below a directory is still named by a record; one made in the root is named by its own physical
path where it is named at all; and no file in the root that was not made by the volume has a
managed name that no record holds. -/
structure ScanSuffices (deviceId : DeviceId) (d : MakingDevice) : Prop where
  stored : ∀ sourceId s q, d.client.jbod.sources.get sourceId = some s → s.isActive = true →
    (sourceId, q) ∈ d.made → d.client.jbod.ReferencedAt deviceId (sourceId, q) →
    (s.tree.file? q).isSome
  deep : ∀ sourceId s q b, d.client.jbod.sources.get sourceId = some s → s.isActive = true →
    (sourceId, q) ∈ d.made → s.tree.file? q = some b → 1 < q.length →
    d.client.jbod.ReferencedAt deviceId (sourceId, q)
  root : ∀ sourceId s name b, d.client.jbod.sources.get sourceId = some s → s.isActive = true →
    (sourceId, [name]) ∈ d.made → s.tree.file? [name] = some b →
    d.client.jbod.ReferencedAt deviceId (sourceId, [name]) →
    (sourceId, name.val) ∈ d.client.jbod.metadataStore.livePhysicalPathsForDevice deviceId
  foreign : ∀ sourceId s name b, d.client.jbod.sources.get sourceId = some s → s.isActive = true →
    (sourceId, [name]) ∉ d.made → s.tree.file? [name] = some b →
    JbodManager.isManagedFile name.val = true →
    (sourceId, name.val) ∈ d.client.jbod.metadataStore.livePhysicalPathsForDevice deviceId

/-- The device keeps its id, and the places are of new files. -/
structure Made (deviceId : DeviceId) (d : MakingDevice) : Prop where
  device : d.client.jbod.deviceId = some deviceId
  places : ∀ place ∈ d.made, ∃ uuid p, IsUuidHex uuid ∧
    place.2 = resolve (JbodManager.generatePhysicalPath uuid p)

theorem made_step {deviceId : DeviceId} {d d' : MakingDevice} {e : MakingEvent}
    (h : d.Made deviceId) (hdraws : DrawsUuid e) (hstep : d.step e = some d') : d'.Made deviceId := by
  cases e with
  | writeFile reading p data =>
      rw [step] at hstep
      obtain ⟨result, jbod, hwrite⟩ : ∃ result jbod,
          d.client.jbod.writeFile reading p data = (result, jbod) := ⟨_, _, rfl⟩
      have hdevice : jbod.deviceId = some deviceId :=
        (JbodManager.writeFile_sources hwrite).1.deviceId.trans h.device
      rw [hwrite] at hstep
      cases result with
      | error e =>
          rw [Option.some_inj] at hstep
          exact hstep ▸ ⟨hdevice, h.places⟩
      | ok _ =>
          rw [Option.some_inj] at hstep
          subst hstep
          refine ⟨hdevice, fun place hplace => ?_⟩
          rcases List.mem_append.mp hplace with hnew | hold
          · rw [Option.mem_toList, JbodManager.newPlace] at hnew
            split_ifs at hnew
            obtain ⟨sourceId, -, rfl⟩ := Option.map_eq_some_iff.mp hnew
            exact ⟨reading.uuid, p, hdraws, rfl⟩
          · exact h.places place hold
  | deleteFile now p =>
      rw [step, Option.some_inj] at hstep
      subst hstep
      have hdelete : d.client.jbod.deleteFile now p = ((d.client.jbod.deleteFile now p).1,
          (d.client.jbod.deleteFile now p).2) := rfl
      have hdevice := (JbodManager.deleteFile_sources hdelete).1.deviceId
      exact ⟨hdevice.trans h.device, h.places⟩
  | merge timestamp snapshot =>
      rw [step, Option.some_inj] at hstep
      subst hstep
      exact ⟨(SyncClient.sameDevice_mergeServerMetadata d.client timestamp snapshot).deviceId.trans
        h.device, h.places⟩
  | uploaded now version paths =>
      rw [step, Option.some_inj] at hstep
      exact hstep ▸ ⟨h.device, h.places⟩
  | gcOrphanFiles =>
      rw [step, Option.some_inj] at hstep
      subst hstep
      refine ⟨?_, h.places⟩
      show d.client.jbod.gcOrphanFiles.2.deviceId = some deviceId
      rw [← h.device, JbodManager.gcOrphanFiles]
      split <;> rfl

/-- The places in the root are of managed names. -/
theorem Made.isManagedFile {deviceId : DeviceId} {d : MakingDevice} (h : d.Made deviceId)
    {sourceId : SourceId} {name : FileName} (hmade : (sourceId, [name]) ∈ d.made) :
    JbodManager.isManagedFile name.val = true := by
  obtain ⟨uuid, p, hhex, hplace⟩ := h.places _ hmade
  obtain ⟨dirs, hdirs⟩ := JbodManager.resolve_generatePhysicalPath hhex p
  rw [hdirs] at hplace
  have hname := (List.append_inj' ((List.nil_append [name]).trans hplace) rfl).2
  rw [(List.cons.inj hname).1]
  exact JbodManager.isManagedFile_managedName hhex p

theorem Made.ne_nil {deviceId : DeviceId} {d : MakingDevice} (h : d.Made deviceId)
    {place : Location} (hmade : place ∈ d.made) : place.2 ≠ [] := by
  obtain ⟨uuid, p, hhex, hplace⟩ := h.places _ hmade
  obtain ⟨dirs, hdirs⟩ := JbodManager.resolve_generatePhysicalPath hhex p
  rw [hplace, hdirs]
  simp

/-- The scan leaves every file but the managed ones of the root that the records do not hold. -/
theorem Made.scanned {deviceId : DeviceId} {d : MakingDevice} (h : d.Made deviceId)
    {sourceId : SourceId} {s : StorageSource}
    (hs : d.client.jbod.sources.get sourceId = some s) (hactive : s.isActive = true) :
    ∃ s', d.client.jbod.gcOrphanFiles.2.sources.get sourceId = some s' ∧ ∀ q, s'.tree.file? q =
      if JbodManager.doomedAt (d.client.jbod.metadataStore.livePhysicalPathsForDevice deviceId)
        sourceId q then none else s.tree.file? q := by
  refine ⟨_, ?_, (JbodManager.sweep_active hactive
    (d.client.jbod.metadataStore.livePhysicalPathsForDevice deviceId) sourceId).2⟩
  rw [JbodManager.gcOrphanFiles, h.device]
  show (d.client.jbod.sources.mapRows _).get sourceId = _
  rw [Table.get_mapRows, hs]
  rfl

theorem doomed_eq_false_iff {live : List (SourceId × Text)} {sourceId : SourceId} {name : FileName}
    (hmanaged : JbodManager.isManagedFile name.val = true) :
    JbodManager.doomed live sourceId name = false ↔ (sourceId, name.val) ∈ live := by
  rw [JbodManager.doomed, hmanaged, Bool.true_and, Bool.not_eq_false', List.contains_iff_mem]

/-- A record that the scan holds names its file. -/
theorem referencedAt_of_live {j : JbodManager} {deviceId : DeviceId} {sourceId : SourceId}
    {name : FileName}
    (h : (sourceId, name.val) ∈ j.metadataStore.livePhysicalPathsForDevice deviceId) :
    j.ReferencedAt deviceId (sourceId, [name]) := by
  obtain ⟨p, row, hrow, hsource, hpath, howner⟩ := JbodManager.mem_livePhysicalPathsForDevice.mp h
  refine ⟨p, row, hrow, ?_, howner⟩
  rw [FileRow.location, hsource, hpath, StorageSource.resolve_name]

theorem doomedAt_of_long {live : List (SourceId × Text)} {sourceId : SourceId} {q : List FileName}
    (h : 1 < q.length) : JbodManager.doomedAt live sourceId q = false := by
  unfold JbodManager.doomedAt
  split
  · simp at h
  · rfl

theorem isSome_ite_none {α : Type} {c : Prop} [Decidable c] {x : Option α} :
    (if c then none else x).isSome ↔ ¬ c ∧ x.isSome := by
  split_ifs with h
  · simp [h]
  · simp [h]

theorem Made.gcExact_iff {deviceId : DeviceId} {d : MakingDevice} (h : d.Made deviceId) :
    d.GcExact deviceId ↔ d.ScanSuffices deviceId := by
  constructor
  · intro hexact
    have hafter : ∀ sourceId s, d.client.jbod.sources.get sourceId = some s → s.isActive = true →
        ∃ s' : StorageSource, (∀ q, s'.tree.file? q =
          if JbodManager.doomedAt (d.client.jbod.metadataStore.livePhysicalPathsForDevice deviceId)
            sourceId q then none else s.tree.file? q) ∧ ∀ q,
          ((sourceId, q) ∈ d.made →
            ((s'.tree.file? q).isSome ↔ d.client.jbod.ReferencedAt deviceId (sourceId, q))) ∧
          ((sourceId, q) ∉ d.made → s'.tree.file? q = s.tree.file? q) := by
      intro sourceId s hs hactive
      obtain ⟨s', hs', hfiles⟩ := hexact sourceId s hs hactive
      obtain ⟨s'', hs'', hscan⟩ := h.scanned hs hactive
      obtain rfl : s' = s'' := Option.some_inj.mp (hs'.symm.trans hs'')
      exact ⟨s', hscan, hfiles⟩
    refine ⟨fun sourceId s q hs hactive hmade href => ?_,
      fun sourceId s q b hs hactive hmade hfile hlong => ?_,
      fun sourceId s name b hs hactive hmade hfile href => ?_,
      fun sourceId s name b hs hactive hmade hfile hmanaged => ?_⟩
    · obtain ⟨s', hscan, hfiles⟩ := hafter sourceId s hs hactive
      have hkept := ((hfiles q).1 hmade).mpr href
      rw [hscan, isSome_ite_none] at hkept
      exact hkept.2
    · obtain ⟨s', hscan, hfiles⟩ := hafter sourceId s hs hactive
      refine ((hfiles q).1 hmade).mp ?_
      rw [hscan, doomedAt_of_long hlong, if_neg Bool.false_ne_true, hfile]
      rfl
    · obtain ⟨s', hscan, hfiles⟩ := hafter sourceId s hs hactive
      have hkept := ((hfiles [name]).1 hmade).mpr href
      rw [hscan, isSome_ite_none] at hkept
      exact (doomed_eq_false_iff (h.isManagedFile hmade)).mp (Bool.not_eq_true _ ▸ hkept.1)
    · obtain ⟨s', hscan, hfiles⟩ := hafter sourceId s hs hactive
      have hkept := (hfiles [name]).2 hmade
      rw [hscan, hfile] at hkept
      split_ifs at hkept with hdoom
      exact (doomed_eq_false_iff hmanaged).mp (Bool.not_eq_true _ ▸ hdoom)
  · intro hsuffices sourceId s hs hactive
    obtain ⟨s', hs', hscan⟩ := h.scanned hs hactive
    refine ⟨s', hs', fun q => ⟨fun hmade => ?_, fun hmade => ?_⟩⟩
    · rw [hscan]
      constructor
      · intro hkept
        obtain ⟨hdoom, hsome⟩ := isSome_ite_none.mp hkept
        obtain ⟨b, hfile⟩ := Option.isSome_iff_exists.mp hsome
        rcases lt_or_ge 1 q.length with hlong | hshort
        · exact hsuffices.deep sourceId s q b hs hactive hmade hfile hlong
        · obtain ⟨name, rfl⟩ : ∃ name, q = [name] := by
            have hlen : q.length ≠ 0 := fun h0 => h.ne_nil hmade (List.length_eq_zero_iff.mp h0)
            exact List.length_eq_one_iff.mp (by omega)
          exact referencedAt_of_live
            ((doomed_eq_false_iff (h.isManagedFile hmade)).mp (Bool.not_eq_true _ ▸ hdoom))
      · intro href
        obtain ⟨b, hfile⟩ :=
          Option.isSome_iff_exists.mp (hsuffices.stored sourceId s q hs hactive hmade href)
        rcases lt_or_ge 1 q.length with hlong | hshort
        · rw [doomedAt_of_long hlong, if_neg Bool.false_ne_true, hfile]
          rfl
        · obtain ⟨name, rfl⟩ : ∃ name, q = [name] := by
            have hlen : q.length ≠ 0 := fun h0 => h.ne_nil hmade (List.length_eq_zero_iff.mp h0)
            exact List.length_eq_one_iff.mp (by omega)
          rw [JbodManager.doomedAt, (doomed_eq_false_iff (h.isManagedFile hmade)).mpr
            (hsuffices.root sourceId s name b hs hactive hmade hfile href), hfile]
          rfl
    · rw [hscan]
      split_ifs with hdoom
      · obtain ⟨name, rfl⟩ : ∃ name, q = [name] := by
          unfold JbodManager.doomedAt at hdoom
          split at hdoom
          · exact ⟨_, rfl⟩
          · cases hdoom
        by_contra hfile
        obtain ⟨b, hb⟩ := Option.ne_none_iff_exists'.mp (Ne.symm hfile)
        rw [JbodManager.doomedAt] at hdoom
        have hmanaged : JbodManager.isManagedFile name.val = true := by
          rw [JbodManager.doomed, Bool.and_eq_true] at hdoom
          exact hdoom.1
        have hkept := (doomed_eq_false_iff hmanaged).mpr
          (hsuffices.foreign sourceId s name b hs hactive hmade hb hmanaged)
        rw [hkept] at hdoom
        cases hdoom
      · rfl

/-- One empty directory source. -/
def sampleSources : Table SourceId StorageSource :=
  Table.empty.insert "s" { kind := .directory }

/-- A file below a directory is written and uploaded, and then another device takes it over. -/
def takenOver : List MakingEvent :=
  [.writeFile { now := 1, uuid := List.replicate 32 'a', diskFree := fun _ => 100 } "/d/a".toList [7],
    .uploaded 2 1 ["/d/a".toList],
    .merge (fun _ => "t".toList) (Table.empty.insert "/d/a".toList
      { sourceId := "p", physicalPath := "b".toList, fileSize := 1, createdAt := 3, modifiedAt := 3,
        version := 2, deviceId := some "phone" })]

/-- The laptop after the events. -/
def laptopAfter (events : List MakingEvent) : Option MakingDevice :=
  Transitions.run step (fresh "laptop" "laptop".toList none sampleSources) events

/-- Where the laptop made its file. -/
def belowDirectory : List FileName :=
  [⟨['d'], by decide⟩, SyncClient.storedName]

end MakingDevice

end StardustFS
