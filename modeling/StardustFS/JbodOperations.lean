import StardustFS.JbodManager

/-! What the file operations of a volume leave: the bytes go to one place, the record of the path
says so, and everything else is as it was. -/

namespace StardustFS

namespace JbodManager

/-- Where a write puts its bytes: in place over a file of this device or of nobody, at a new place on
the selected source otherwise. -/
def writeTarget (j : JbodManager) (reading : Reading) (virtualPath : Text) (data : Bytes) :
    Option (SourceId × Text) :=
  let fresh := (j.selectSource reading.diskFree (j.encrypt reading.iv data).length).map
    fun sourceId => (sourceId, generatePhysicalPath reading.uuid virtualPath)
  match j.metadataStore.lookup virtualPath with
  | some existing =>
      if j.ownedElsewhere existing then fresh
      else some (existing.sourceId, existing.physicalPath)
  | none => fresh

/-- The record of a path after a write that put its bytes at the place: a new one, a reactivated
tombstone, or the next version of a live one. -/
def writtenRow (old : Option FileRow) (now : Time) (size : Nat) (deviceId : Option DeviceId)
    (place : SourceId × Text) : FileRow :=
  match old with
  | none => { sourceId := place.1, physicalPath := place.2, fileSize := size, createdAt := now,
              modifiedAt := now, version := 1, deviceId, syncStatus := .pending, deleted := false }
  | some r =>
      if r.deleted then MetadataStore.reactivated r place.1 place.2 size now now deviceId
      else MetadataStore.edited r size now deviceId (some place.1) (some place.2)

/-- What a successful write has done. -/
structure Written (j j' : JbodManager) (reading : Reading) (virtualPath : Text) (data : Bytes)
    (place : SourceId × Text) : Prop where
  target : j.writeTarget reading virtualPath data = some place
  stored : ∃ s s', j.sources.get place.1 = some s ∧
    s.write place.2 (j.encrypt reading.iv data) = (.ok (), s') ∧
    j'.sources = j.sources.update place.1 fun _ => s'
  deviceId : j'.deviceId = j.deviceId
  engine : j'.encryptionEngine = j.encryptionEngine
  directories : j'.metadataStore.directories = j.metadataStore.directories
  rows : ∀ q, j'.metadataStore.lookupAny q =
    if q = virtualPath then
      some (writtenRow (j.metadataStore.lookupAny virtualPath) reading.now data.length j.deviceId place)
    else j.metadataStore.lookupAny q

theorem onSource_eq {α : Type} {j j' : JbodManager} {sourceId : SourceId} {s : StorageSource}
    {op : StorageSource → Except SourceError α × StorageSource} {result : Except SourceError α}
    (h : j.onSource sourceId s op = (result, j')) :
    ∃ s', op s = (result, s') ∧
      j' = { j with sources := j.sources.update sourceId fun _ => s' } := by
  unfold onSource at h
  obtain ⟨hresult, hj⟩ := Prod.mk.inj h
  exact ⟨(op s).2, Prod.ext hresult rfl, hj.symm⟩

theorem discardPartial_ne_ok {j j' : JbodManager} {sourceId : SourceId} {p : Text} {e : JbodError} :
    j.discardPartial sourceId p e ≠ (.ok (), j') := by
  intro h
  unfold discardPartial at h
  split at h
  · cases (Prod.mk.inj h).1
  · split at h
    · cases (Prod.mk.inj h).1
    · cases (Prod.mk.inj h).1
    · split at h
      · cases (Prod.mk.inj h).1
      · cases (Prod.mk.inj h).1

/-- A write at a new path of the selected source, recorded where it succeeds and cleaned up where it
fails. -/
def writeNew (j : JbodManager) (reading : Reading) (virtualPath : Text) (encrypted : Bytes)
    (failure : SourceError → JbodError) (record : JbodManager → SourceId → JbodManager) :
    Result Unit :=
  match j.selectSource reading.diskFree encrypted.length with
  | none => (.error .insufficientStorage, j)
  | some sourceId =>
      let physicalPath := generatePhysicalPath reading.uuid virtualPath
      match j.sources.get sourceId with
      | none => (.error .insufficientStorage, j)
      | some s =>
          match j.onSource sourceId s (·.write physicalPath encrypted) with
          | (.error e, j) => j.discardPartial sourceId physicalPath (failure e)
          | (.ok _, j) => (.ok (), record j sourceId)

theorem takeoverWrite_eq (j : JbodManager) (reading : Reading) (p : Text) (encrypted : Bytes)
    (size : Nat) : j.takeoverWrite reading p encrypted size =
      j.writeNew reading p encrypted storageError fun j sourceId =>
        { j with
          metadataStore := j.metadataStore.update p size reading.now j.deviceId (some sourceId)
            (some (generatePhysicalPath reading.uuid p))
          gcNeeded := true } := rfl

theorem createFile_eq (j : JbodManager) (reading : Reading) (p : Text) (encrypted : Bytes)
    (size : Nat) : j.createFile reading p encrypted size =
      j.writeNew reading p encrypted JbodError.source fun j sourceId =>
        { j with
          metadataStore := j.metadataStore.insert p sourceId (generatePhysicalPath reading.uuid p)
            size reading.now reading.now j.deviceId } := rfl

theorem writeNew_ok {j j' : JbodManager} {reading : Reading} {p : Text} {encrypted : Bytes}
    {failure : SourceError → JbodError} {record : JbodManager → SourceId → JbodManager}
    (h : j.writeNew reading p encrypted failure record = (.ok (), j')) :
    ∃ sourceId s s', j.selectSource reading.diskFree encrypted.length = some sourceId ∧
      j.sources.get sourceId = some s ∧
      s.write (generatePhysicalPath reading.uuid p) encrypted = (.ok (), s') ∧
      j' = record { j with sources := j.sources.update sourceId fun _ => s' } sourceId := by
  unfold writeNew at h
  split at h
  · cases (Prod.mk.inj h).1
  · rename_i sourceId hselect
    dsimp only at h
    split at h
    · cases (Prod.mk.inj h).1
    · rename_i s hs
      split at h
      · exact absurd h discardPartial_ne_ok
      · rename_i hop
        obtain ⟨s', hwrite, rfl⟩ := onSource_eq hop
        exact ⟨sourceId, s, s', hselect, hs, hwrite, (Prod.mk.inj h).2.symm⟩

theorem takeoverWrite_ok {j j' : JbodManager} {reading : Reading} {p : Text} {encrypted : Bytes}
    {size : Nat} (h : j.takeoverWrite reading p encrypted size = (.ok (), j')) :
    ∃ sourceId s s', j.selectSource reading.diskFree encrypted.length = some sourceId ∧
      j.sources.get sourceId = some s ∧
      s.write (generatePhysicalPath reading.uuid p) encrypted = (.ok (), s') ∧
      j' = { j with
        sources := j.sources.update sourceId fun _ => s'
        metadataStore := j.metadataStore.update p size reading.now j.deviceId (some sourceId)
          (some (generatePhysicalPath reading.uuid p))
        gcNeeded := true } := by
  rw [takeoverWrite_eq] at h
  exact writeNew_ok h

theorem overwrite_ok {j j' : JbodManager} {reading : Reading} {p : Text} {existing : FileRow}
    {encrypted : Bytes} {size : Nat}
    (h : j.overwrite reading p existing encrypted size = (.ok (), j')) :
    ∃ s s', j.sources.get existing.sourceId = some s ∧
      s.write existing.physicalPath encrypted = (.ok (), s') ∧
      j' = { j with
        sources := j.sources.update existing.sourceId fun _ => s'
        metadataStore := j.metadataStore.update p size reading.now j.deviceId none none } := by
  unfold overwrite at h
  split at h
  · cases (Prod.mk.inj h).1
  · rename_i s hs
    split_ifs at h
    · cases (Prod.mk.inj h).1
    · split at h
      · cases (Prod.mk.inj h).1
      · rename_i hop
        obtain ⟨s', hwrite, rfl⟩ := onSource_eq hop
        exact ⟨s, s', hs, hwrite, (Prod.mk.inj h).2.symm⟩

theorem createFile_ok {j j' : JbodManager} {reading : Reading} {p : Text} {encrypted : Bytes}
    {size : Nat} (h : j.createFile reading p encrypted size = (.ok (), j')) :
    ∃ sourceId s s', j.selectSource reading.diskFree encrypted.length = some sourceId ∧
      j.sources.get sourceId = some s ∧
      s.write (generatePhysicalPath reading.uuid p) encrypted = (.ok (), s') ∧
      j' = { j with
        sources := j.sources.update sourceId fun _ => s'
        metadataStore := j.metadataStore.insert p sourceId (generatePhysicalPath reading.uuid p)
          size reading.now reading.now j.deviceId } := by
  rw [createFile_eq] at h
  exact writeNew_ok h

/-- **A write that succeeds**, whichever of the three kinds it is. -/
theorem writeFile_ok {j j' : JbodManager} {reading : Reading} {p : Text} {data : Bytes}
    (h : j.writeFile reading p data = (.ok (), j')) : ∃ place, Written j j' reading p data place := by
  unfold writeFile at h
  dsimp only at h
  cases hlookup : j.metadataStore.lookup p with
  | none =>
      rw [hlookup] at h
      obtain ⟨sourceId, s, s', hselect, hs, hwrite, rfl⟩ := createFile_ok h
      refine ⟨(sourceId, generatePhysicalPath reading.uuid p), ?_, ⟨s, s', hs, hwrite, rfl⟩, rfl,
        rfl, ?_, fun q => ?_⟩
      · rw [writeTarget, hlookup, hselect]
        rfl
      · unfold MetadataStore.insert
        dsimp only
        split <;> rfl
      · split_ifs with hq
        · rw [hq, MetadataStore.lookupAny_insert_self]
          cases hany : j.metadataStore.lookupAny p with
          | none => rfl
          | some r =>
              have hdel := MetadataStore.lookup_eq_none_iff.mp hlookup r hany
              rw [writtenRow, if_pos hdel]
        · exact MetadataStore.lookupAny_insert_of_ne _ _ _ _ _ _ _ hq
  | some existing =>
      rw [hlookup] at h
      obtain ⟨hany, hlive⟩ := MetadataStore.lookup_eq_some_iff.mp hlookup
      dsimp only at h
      split_ifs at h with howner
      · obtain ⟨sourceId, s, s', hselect, hs, hwrite, rfl⟩ := takeoverWrite_ok h
        refine ⟨(sourceId, generatePhysicalPath reading.uuid p), ?_, ⟨s, s', hs, hwrite, rfl⟩,
          rfl, rfl, rfl, fun q => ?_⟩
        · rw [writeTarget, hlookup]
          dsimp only
          rw [if_pos howner, hselect]
          rfl
        · split_ifs with hq
          · rw [hq, MetadataStore.lookupAny_update_self, hany, Option.map_some, writtenRow,
              if_neg (by rw [hlive]; decide)]
          · exact MetadataStore.lookupAny_update_of_ne _ _ _ _ _ _ hq
      · obtain ⟨s, s', hs, hwrite, rfl⟩ := overwrite_ok h
        refine ⟨(existing.sourceId, existing.physicalPath), ?_, ⟨s, s', hs, hwrite, rfl⟩,
          rfl, rfl, rfl, fun q => ?_⟩
        · rw [writeTarget, hlookup]
          dsimp only
          rw [if_neg howner]
        · split_ifs with hq
          · rw [hq, MetadataStore.lookupAny_update_self, hany, Option.map_some, writtenRow,
              if_neg (by rw [hlive]; decide)]
            rfl
          · exact MetadataStore.lookupAny_update_of_ne _ _ _ _ _ _ hq

/-- **A deletion that succeeds** leaves a tombstone, one version above the live record. -/
theorem deleteFile_ok {j j' : JbodManager} {now : Time} {p : Text}
    (h : j.deleteFile now p = (.ok (), j')) :
    ∃ metadata, j.metadataStore.lookup p = some metadata ∧
      j'.metadataStore = j.metadataStore.delete p now ∧ j'.deviceId = j.deviceId ∧
      j'.encryptionEngine = j.encryptionEngine := by
  unfold deleteFile at h
  split at h
  · cases (Prod.mk.inj h).1
  · rename_i metadata hlookup
    refine ⟨metadata, hlookup, ?_⟩
    dsimp only at h
    split_ifs at h
    · rw [← (Prod.mk.inj h).2]
      exact ⟨rfl, rfl, rfl⟩
    · split at h
      · rw [← (Prod.mk.inj h).2]
        exact ⟨rfl, rfl, rfl⟩
      · split_ifs at h
        · rw [← (Prod.mk.inj h).2]
          exact ⟨rfl, rfl, rfl⟩
        · split at h
          · rename_i hop
            obtain ⟨s', -, rfl⟩ := onSource_eq hop
            rw [← (Prod.mk.inj h).2]
            exact ⟨rfl, rfl, rfl⟩
          · rename_i hop
            obtain ⟨s', -, rfl⟩ := onSource_eq hop
            rw [← (Prod.mk.inj h).2]
            exact ⟨rfl, rfl, rfl⟩
          · cases (Prod.mk.inj h).1

end JbodManager

end StardustFS
