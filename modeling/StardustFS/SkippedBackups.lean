import StardustFS.ReplicationScheduler
import StardustFS.ReplicatedStatus
import StardustFS.SyncExchange
import StardustFS.Transitions

/-! The files a backup cycle leaves out. A path whose backup found no file here is noted and never asked
for again, while writes, moves and merges, of this process and of others on the device, may bring the
file. The statement is about all interleavings of them with the cycles; what has to be kept is that a
noted path has no file here. -/

namespace StardustFS

namespace StorageSource

variable {s s' : StorageSource} {p : Text} {u : List FileName}

/-- A write leaves a file missing unless it makes a directory of it, or puts a file there or above. -/
theorem missing_write {data : Bytes} {result : Except SourceError Unit}
    (h : s.write p data = (result, s')) (hdirs : ¬ u <+: (resolve p).dropLast)
    (hfile : result = .ok () → ¬ resolve p <+: u) (hread : s.tree.read u = .error .fileNotFound) :
    s'.tree.read u = .error .fileNotFound := by
  unfold write at h
  dsimp only at h
  split_ifs at h
  · obtain ⟨-, rfl⟩ := Prod.mk.inj h
    exact hread
  · obtain ⟨-, rfl⟩ := Prod.mk.inj h
    exact hread
  · cases hmake : s.tree.makedirs (resolve p).dropLast with
    | error e =>
        rw [hmake] at h
        obtain ⟨-, rfl⟩ := Prod.mk.inj h
        rw [raised_tree]
        exact hread
    | ok tree =>
        have hmade := DirectoryTree.read_makedirs hmake hdirs hread
        rw [hmake] at h
        dsimp only at h
        cases hput : tree.write (resolve p) data with
        | error e =>
            rw [hput] at h
            obtain ⟨-, rfl⟩ := Prod.mk.inj h
            rw [raised_tree]
            exact hmade
        | ok tree' =>
            rw [hput] at h
            obtain ⟨hresult, rfl⟩ := Prod.mk.inj h
            exact DirectoryTree.read_write hput (hfile hresult.symm) hmade

theorem missing_delete {result : Except SourceError Unit} (h : s.delete p = (result, s'))
    (hread : s.tree.read u = .error .fileNotFound) : s'.tree.read u = .error .fileNotFound := by
  unfold delete at h
  dsimp only at h
  split_ifs at h
  · obtain ⟨-, rfl⟩ := Prod.mk.inj h
    exact hread
  · cases hremove : s.tree.remove (resolve p) with
    | ok tree =>
        rw [hremove] at h
        obtain ⟨-, rfl⟩ := Prod.mk.inj h
        exact DirectoryTree.read_remove hremove hread
    | error e =>
        rw [hremove] at h
        dsimp only at h
        split at h
        · obtain ⟨-, rfl⟩ := Prod.mk.inj h
          rw [raised_tree]
          exact hread
        · obtain ⟨-, rfl⟩ := Prod.mk.inj h
          exact hread

theorem tree_read {result : Except SourceError Bytes} (h : s.read p = (result, s')) :
    s'.tree = s.tree := by
  unfold read at h
  split_ifs at h
  · rw [← (Prod.mk.inj h).2]
  · split at h
    · rw [← (Prod.mk.inj h).2]
    · rw [← (Prod.mk.inj h).2, raised_tree]

end StorageSource

namespace JbodManager

variable {j j' : JbodManager} {place : Location} {p q : Text}

/-- There is no file at the place. -/
def Lacks (j : JbodManager) (place : Location) : Prop :=
  ∃ s, j.sources.get place.1 = some s ∧ s.tree.read place.2 = .error .fileNotFound

/-- The source is in service. -/
def InService (j : JbodManager) (id : SourceId) : Prop :=
  ∃ s, j.sources.get id = some s ∧ s.isActive = true

/-- The record is of a file this device should have, and has not. -/
structure NotHere (j : JbodManager) (row : FileRow) : Prop where
  owned : j.ownedElsewhere row = false
  inService : j.InService row.sourceId
  lacks : j.Lacks row.location

/-- A read of the path ends with `FileNotFoundError`. -/
def Absent (j : JbodManager) (p : Text) : Prop :=
  ∀ row, j.metadataStore.lookup p = some row → j.NotHere row

theorem Lacks.withRecords (h : j.Lacks place) (metadataStore : MetadataStore) (gcNeeded : Bool) :
    Lacks { j with metadataStore, gcNeeded } place :=
  h

theorem lacks_onSource {id : SourceId} {s s' : StorageSource} (hs : j.sources.get id = some s)
    (hkept : place.1 = id → s.tree.read place.2 = .error .fileNotFound →
      s'.tree.read place.2 = .error .fileNotFound) (h : j.Lacks place) :
    Lacks { j with sources := j.sources.update id fun _ => s' } place := by
  obtain ⟨t, ht, hread⟩ := h
  by_cases hid : place.1 = id
  · rw [hid, hs, Option.some_inj] at ht
    subst ht
    refine ⟨s', ?_, hkept hid hread⟩
    rw [hid, Table.get_update_self, hs, Option.map_some]
  · refine ⟨t, ?_, hread⟩
    rw [Table.get_update_of_ne _ _ hid]
    exact ht

/-- What a write must not do to a place that lacks its file: make a directory of it, or put its own file
there or above. -/
def SparedBy (result : Except JbodError Unit) (target place : Location) : Prop :=
  target.1 = place.1 → ¬ place.2 <+: target.2.dropLast ∧ (result = .ok () → ¬ target.2 <+: place.2)

section OnSource

variable {id : SourceId} {s : StorageSource} {answer : Except SourceError Unit}

theorem lacks_onSource_delete (hs : j.sources.get id = some s)
    (h : j.onSource id s (·.delete p) = (answer, j')) (hlacks : j.Lacks place) : j'.Lacks place := by
  obtain ⟨s', hdelete, rfl⟩ := onSource_eq h
  exact lacks_onSource hs (fun _ => StorageSource.missing_delete hdelete) hlacks

theorem lacks_onSource_write {data : Bytes} {result : Except JbodError Unit}
    (hs : j.sources.get id = some s) (h : j.onSource id s (·.write p data) = (answer, j'))
    (hanswer : answer = .ok () → result = .ok ())
    (hspared : SparedBy result (id, StorageSource.resolve p) place) (hlacks : j.Lacks place) :
    j'.Lacks place := by
  obtain ⟨s', hwrite, rfl⟩ := onSource_eq h
  refine lacks_onSource hs (fun hid => ?_) hlacks
  obtain ⟨hdirs, hfile⟩ := hspared hid.symm
  exact StorageSource.missing_write hwrite hdirs fun hok => hfile (hanswer hok)

end OnSource

theorem lacks_discardPartial {id : SourceId} {e : JbodError} {result : Except JbodError Unit}
    (h : j.discardPartial id p e = (result, j')) (hlacks : j.Lacks place) : j'.Lacks place := by
  unfold discardPartial at h
  split at h
  · exact (Prod.mk.inj h).2 ▸ hlacks
  · rename_i s hs
    split at h
    · exact (Prod.mk.inj h).2 ▸ hlacks
    · exact (Prod.mk.inj h).2 ▸ hlacks
    · split at h
      · rename_i hop
        exact (Prod.mk.inj h).2 ▸ lacks_onSource_delete hs hop hlacks
      · rename_i hop
        exact (Prod.mk.inj h).2 ▸ lacks_onSource_delete hs hop hlacks

theorem lacks_writeNew {reading : Reading} {encrypted : Bytes} {failure : SourceError → JbodError}
    {record : JbodManager → SourceId → JbodManager} {result : Except JbodError Unit}
    (h : j.writeNew reading p encrypted failure record = (result, j'))
    (hrecord : ∀ j id, (record j id).sources = j.sources)
    (hspared : ∀ id, j.selectSource reading.diskFree encrypted.length = some id →
      SparedBy result (id, StorageSource.resolve (generatePhysicalPath reading.uuid p)) place)
    (hlacks : j.Lacks place) : j'.Lacks place := by
  unfold writeNew at h
  split at h
  · exact (Prod.mk.inj h).2 ▸ hlacks
  · rename_i id hselect
    dsimp only at h
    split at h
    · exact (Prod.mk.inj h).2 ▸ hlacks
    · rename_i s hs
      have hplace := hspared id hselect
      split at h
      · rename_i hop
        exact lacks_discardPartial h
          (lacks_onSource_write hs hop (fun hok => nomatch hok) hplace hlacks)
      · rename_i j₁ hop
        obtain ⟨hresult, rfl⟩ := Prod.mk.inj h
        obtain ⟨s', hs', hread⟩ := lacks_onSource_write hs hop (fun _ => hresult.symm) hplace hlacks
        exact ⟨s', by rw [hrecord]; exact hs', hread⟩

theorem lacks_overwrite {reading : Reading} {existing : FileRow} {encrypted : Bytes} {size : Nat}
    {result : Except JbodError Unit}
    (h : j.overwrite reading p existing encrypted size = (result, j'))
    (hspared : SparedBy result existing.location place) (hlacks : j.Lacks place) : j'.Lacks place := by
  unfold overwrite at h
  split at h
  · exact (Prod.mk.inj h).2 ▸ hlacks
  · rename_i s hs
    split_ifs at h
    · exact (Prod.mk.inj h).2 ▸ hlacks
    · split at h
      · rename_i hop
        obtain ⟨-, rfl⟩ := Prod.mk.inj h
        exact lacks_onSource_write hs hop (fun hok => nomatch hok) hspared hlacks
      · rename_i hop
        obtain ⟨hresult, rfl⟩ := Prod.mk.inj h
        have hwritten := lacks_onSource_write hs hop (fun _ => hresult.symm) hspared hlacks
        exact hwritten.withRecords _ _

/-- A write leaves a place without its file, where it spares the place. -/
theorem lacks_writeFile {reading : Reading} {data : Bytes} {result : Except JbodError Unit}
    (h : j.writeFile reading p data = (result, j'))
    (hspared : ∀ target, j.writeTarget reading p data = some target →
      SparedBy result (target.1, StorageSource.resolve target.2) place)
    (hlacks : j.Lacks place) : j'.Lacks place := by
  unfold writeFile at h
  dsimp only at h
  unfold writeTarget at hspared
  dsimp only at hspared
  have hfresh : ∀ id, j.selectSource reading.diskFree (j.encrypt reading.iv data).length = some id →
      (j.selectSource reading.diskFree (j.encrypt reading.iv data).length).map
        (fun id => (id, generatePhysicalPath reading.uuid p)) =
          some (id, generatePhysicalPath reading.uuid p) := by
    intro id hid
    rw [hid, Option.map_some]
  split at h
  · rename_i existing hlookup
    rw [hlookup] at hspared
    dsimp only at hspared
    split_ifs at h with howner
    · rw [if_pos howner] at hspared
      rw [takeoverWrite_eq] at h
      exact lacks_writeNew h (fun _ _ => rfl) (fun id hid => hspared _ (hfresh id hid)) hlacks
    · rw [if_neg howner] at hspared
      exact lacks_overwrite h (hspared _ rfl) hlacks
  · rename_i hlookup
    rw [hlookup] at hspared
    rw [createFile_eq] at h
    exact lacks_writeNew h (fun _ _ => rfl) (fun id hid => hspared _ (hfresh id hid)) hlacks

theorem lacks_deleteFile {now : Time} {result : Except JbodError Unit}
    (h : j.deleteFile now p = (result, j')) (hlacks : j.Lacks place) : j'.Lacks place := by
  unfold deleteFile at h
  split at h
  · exact (Prod.mk.inj h).2 ▸ hlacks
  · rename_i row hlookup
    dsimp only at h
    split_ifs at h
    · exact (Prod.mk.inj h).2 ▸ hlacks
    · split at h
      · exact (Prod.mk.inj h).2 ▸ hlacks
      · rename_i s hs
        split_ifs at h
        · exact (Prod.mk.inj h).2 ▸ hlacks
        · split at h
          · rename_i hop
            exact (Prod.mk.inj h).2 ▸ (lacks_onSource_delete hs hop hlacks).withRecords _ _
          · rename_i hop
            exact (Prod.mk.inj h).2 ▸ (lacks_onSource_delete hs hop hlacks).withRecords _ _
          · rename_i hop
            exact (Prod.mk.inj h).2 ▸ lacks_onSource_delete hs hop hlacks

theorem lacks_readFile {remote : RemoteRead} {result : Except JbodError Bytes}
    (h : j.readFile remote p = (result, j')) (hlacks : j.Lacks place) : j'.Lacks place := by
  have hlocal : ∀ {row : FileRow}, j.readLocal row = (result, j') → j'.Lacks place := by
    intro row h
    unfold readLocal at h
    split at h
    · exact (Prod.mk.inj h).2 ▸ hlacks
    · rename_i s hs
      split_ifs at h
      · exact (Prod.mk.inj h).2 ▸ hlacks
      · have hread : ∀ {r j₁}, j.onSource row.sourceId s (·.read row.physicalPath) = (r, j₁) →
            j₁.Lacks place := by
          intro r j₁ hop
          obtain ⟨s', hread, rfl⟩ := onSource_eq hop
          exact lacks_onSource hs (fun _ hmissing => by rw [StorageSource.tree_read hread]; exact hmissing)
            hlacks
        split at h
        · rename_i hop
          exact (Prod.mk.inj h).2 ▸ hread hop
        · rename_i hop
          exact (Prod.mk.inj h).2 ▸ hread hop
  unfold readFile at h
  split at h
  · exact (Prod.mk.inj h).2 ▸ hlacks
  · split at h
    · exact hlocal h
    · split_ifs at h
      · exact hlocal h
      · unfold readRemote at h
        split at h
        · exact (Prod.mk.inj h).2 ▸ hlacks
        · exact (Prod.mk.inj h).2 ▸ hlacks

/-- A move to a path that has a row changes nothing. -/
theorem moveFile_of_occupied {row : FileRow} (hsrc : j.metadataStore.lookup p = some row)
    (hdst : j.metadataStore.lookupAny q ≠ none) (hne : p ≠ q) :
    j.moveFile p q = (.error .integrity, j) := by
  have hany := (MetadataStore.lookup_eq_some_iff.mp hsrc).1
  have hstopped := MetadataStore.renamePath_eq_none_iff.mpr
    ⟨⟨row, hany⟩, Option.ne_none_iff_exists'.mp hdst, hne⟩
  unfold moveFile
  rw [hsrc]
  dsimp only
  rw [hstopped]

/-! ### What raises `FileNotFoundError` -/

/-- The read of a local file that is not there, and what it leaves. -/
theorem readLocal_notFound_iff {row : FileRow} :
    (j.readLocal row).1 = .error (.source (.os .fileNotFound)) ↔
      j.InService row.sourceId ∧ j.Lacks row.location := by
  unfold readLocal
  cases hs : j.sources.get row.sourceId with
  | none => simp [InService, hs]
  | some s =>
      have hservice : j.InService row.sourceId ↔ s.isActive = true := by
        simp [InService, hs]
      have hlacks : j.Lacks row.location ↔
          s.tree.read (StorageSource.resolve row.physicalPath) = .error .fileNotFound := by
        simp [Lacks, FileRow.location, hs]
      rw [hservice, hlacks]
      cases hactive : s.isActive with
      | false => simp [hactive]
      | true =>
          simp only [Bool.not_true, Bool.false_eq_true, if_false, true_and, onSource, StorageSource.read,
            hactive]
          cases hread : s.tree.read (StorageSource.resolve row.physicalPath) with
          | ok data =>
              dsimp only
              unfold decrypt
              split
              · split <;> simp
              · simp
          | error e => simp

theorem readLocal_of_notFound {row : FileRow}
    (h : (j.readLocal row).1 = .error (.source (.os .fileNotFound))) : (j.readLocal row).2 = j := by
  obtain ⟨⟨s, hs, hactive⟩, t, ht, hread⟩ := readLocal_notFound_iff.mp h
  obtain rfl : s = t := Option.some_inj.mp (hs.symm.trans ht)
  have hsame : s.raised .fileNotFound true = s := by
    unfold StorageSource.raised
    split
    · rfl
    · rfl
  have hread' : s.read row.physicalPath = (.error (.os .fileNotFound), s) := by
    unfold StorageSource.read
    change s.tree.read (StorageSource.resolve row.physicalPath) = _ at hread
    rw [hactive, hread]
    simp [hsame]
  unfold readLocal
  rw [hs]
  simp only [hactive, Bool.not_true, Bool.false_eq_true, if_false, onSource, hread']
  rw [Table.update_of_get hs]

theorem readLocal_ne_fileNotFound {row : FileRow} : (j.readLocal row).1 ≠ .error .fileNotFound := by
  intro h
  unfold readLocal decrypt at h
  repeat' first
    | split at h
    | split_ifs at h
  all_goals cases h

theorem readRemote_notFound {remote : RemoteRead} {owner : DeviceId} {row : FileRow} {e : JbodError}
    (h : (j.readRemote remote owner row).1 = .error e) :
    e ≠ .fileNotFound ∧ e ≠ .source (.os .fileNotFound) := by
  unfold readRemote decrypt at h
  repeat' split at h
  all_goals cases h
  all_goals exact ⟨nofun, nofun⟩

end JbodManager

/-- The exception is a `FileNotFoundError`. -/
def ReplicationError.isFileNotFound : ReplicationError → Bool
  | fileNotFound | jbod .fileNotFound | jbod (.source (.os .fileNotFound)) => true
  | _ => false

/-- The call ends with `FileNotFoundError`. -/
def raisesNotFound {α : Type} : Except ReplicationError α → Bool
  | .error e => e.isFileNotFound
  | .ok _ => false

namespace ReplicationManager

variable {m : ReplicationManager} {j : JbodManager} {net : ReplicaNetwork} {remote : RemoteRead}
  {iv : Bytes} {p : Text} {answers : List ChunkAnswer}

/-- The reading of the file decides. -/
theorem raisesNotFound_replicate {engine : EncryptionEngine} {row : FileRow}
    (hengine : j.encryptionEngine = some engine) (hlookup : j.metadataStore.lookup p = some row) :
    raisesNotFound (m.replicate j net remote iv p answers).1 = true ↔
      (j.readFile remote p).1 = .error .fileNotFound ∨
        (j.readFile remote p).1 = .error (.source (.os .fileNotFound)) := by
  unfold replicate
  rw [hengine, hlookup]
  dsimp only
  obtain ⟨result, j', hread⟩ : ∃ result j', j.readFile remote p = (result, j') := ⟨_, _, rfl⟩
  rw [hread]
  cases result with
  | error e =>
      simp only [raisesNotFound, ReplicationError.isFileNotFound]
      split <;> simp_all
  | ok plaintext =>
      dsimp only
      split
      · simp [raisesNotFound, ReplicationError.isFileNotFound]
      · split <;> simp [raisesNotFound, ReplicationError.isFileNotFound]

/-- **What a backup finds missing**: on a device with a key, a path without a live record, or with one of
a file the device should have and has not. -/
theorem replicate_notFound_iff {engine : EncryptionEngine} (hengine : j.encryptionEngine = some engine) :
    raisesNotFound (m.replicate j net remote iv p answers).1 = true ↔ j.Absent p := by
  unfold JbodManager.Absent
  cases hlookup : j.metadataStore.lookup p with
  | none => simp [replicate, hengine, hlookup, raisesNotFound, ReplicationError.isFileNotFound]
  | some row =>
      rw [raisesNotFound_replicate hengine hlookup]
      simp only [Option.some_inj, forall_eq']
      cases howned : j.ownedElsewhere row with
      | true =>
          obtain ⟨owner, -, hread⟩ := JbodManager.readFile_of_foreign remote hlookup howned
          rw [hread]
          refine iff_of_false (fun h => ?_) fun h => ?_
          · rcases h with h | h
            · exact (JbodManager.readRemote_notFound h).1 rfl
            · exact (JbodManager.readRemote_notFound h).2 rfl
          · rw [h.owned] at howned
            cases howned
      | false =>
          rw [JbodManager.readFile_of_held remote hlookup howned,
            or_iff_right JbodManager.readLocal_ne_fileNotFound, JbodManager.readLocal_notFound_iff]
          exact ⟨fun h => ⟨howned, h.1, h.2⟩, fun h => ⟨h.inService, h.lacks⟩⟩

/-- A backup that finds no file leaves the volume as it was. -/
theorem replicate_of_absent (m : ReplicationManager) (net : ReplicaNetwork) (remote : RemoteRead)
    (iv : Bytes) (answers : List ChunkAnswer) {engine : EncryptionEngine}
    (hengine : j.encryptionEngine = some engine) (h : j.Absent p) :
    (m.replicate j net remote iv p answers).2.1 = j := by
  unfold replicate
  rw [hengine]
  dsimp only
  cases hlookup : j.metadataStore.lookup p with
  | none => rfl
  | some row =>
      have hrow := h row hlookup
      have hnotFound := JbodManager.readLocal_notFound_iff.mpr ⟨hrow.inService, hrow.lacks⟩
      have hsame := JbodManager.readLocal_of_notFound hnotFound
      dsimp only
      rw [JbodManager.readFile_of_held remote hlookup hrow.owned, ← Prod.mk.eta (p := j.readLocal row),
        hnotFound, hsame]

/-- What a replication may leave of the volume: the reading of the file is in it, or the status. -/
theorem replicate_volume (m : ReplicationManager) (j : JbodManager) (net : ReplicaNetwork)
    (remote : RemoteRead) (iv : Bytes) (p : Text) (answers : List ChunkAnswer) :
    (m.replicate j net remote iv p answers).2.1 = j ∨
      (m.replicate j net remote iv p answers).2.1 = (j.readFile remote p).2 ∨
      ∃ status, (m.replicate j net remote iv p answers).2.1 =
        { j with metadataStore := j.metadataStore.setReplicationStatus p status } := by
  unfold replicate
  split
  · exact Or.inl rfl
  · split
    · exact Or.inl rfl
    · split
      · rename_i hread
        exact Or.inr (Or.inl (by rw [hread]))
      · rename_i plaintext j₁ hread
        obtain rfl := (JbodManager.readFile_sources hread).2.2 plaintext rfl
        split
        · exact Or.inl rfl
        · split
          · exact Or.inl rfl
          · exact Or.inr (Or.inr ⟨_, rfl⟩)

/-- A replication raises `FileNotFoundError` only on a device with a key. -/
theorem engine_of_raisesNotFound
    (h : raisesNotFound (m.replicate j net remote iv p answers).1 = true) :
    ∃ engine, j.encryptionEngine = some engine := by
  cases hengine : j.encryptionEngine with
  | some engine => exact ⟨engine, rfl⟩
  | none =>
      rw [replicate, hengine] at h
      cases h

/-- A path that has no file here has none after a backup of another, if the source of its record stays in
service. -/
theorem absent_replicate {q : Text} (h : j.Absent p)
    (hservice : ∀ row, j.metadataStore.lookup p = some row →
      (j.readFile remote q).2.InService row.sourceId) :
    (m.replicate j net remote iv q answers).2.1.Absent p := by
  rcases m.replicate_volume j net remote iv q answers with hvolume | hvolume | ⟨status, hvolume⟩
  · rw [hvolume]
    exact h
  · rw [hvolume]
    obtain ⟨hframe, hrecords, -⟩ :=
      JbodManager.readFile_sources (Prod.mk.eta (p := j.readFile remote q)).symm
    intro row hrow
    rw [hrecords] at hrow
    refine ⟨?_, hservice row hrow, JbodManager.lacks_readFile rfl (h row hrow).lacks⟩
    calc (j.readFile remote q).2.ownedElsewhere row
        = j.ownedElsewhere row := by simp only [JbodManager.ownedElsewhere, hframe.deviceId]
      _ = false := (h row hrow).owned
  · rw [hvolume]
    intro row hrow
    obtain ⟨hany, hlive⟩ := MetadataStore.lookup_eq_some_iff.mp hrow
    dsimp only at hany
    rw [MetadataStore.lookupAny_setReplicationStatus] at hany
    split_ifs at hany with hq
    · obtain ⟨r, hr, rfl⟩ := Option.map_eq_some_iff.mp hany
      obtain ⟨howned, hactive, hlacks⟩ := h r (MetadataStore.lookup_eq_some_iff.mpr ⟨hr, hlive⟩)
      exact ⟨howned, hactive, hlacks⟩
    · obtain ⟨howned, hactive, hlacks⟩ := h row (MetadataStore.lookup_eq_some_iff.mpr ⟨hany, hlive⟩)
      exact ⟨howned, hactive, hlacks⟩

end ReplicationManager

/-! ### Calls on the device -/

/-- A call that changes the records or the disks: of the volume, or the merge of one record of the
server. -/
inductive LocalCall where
  | write (reading : Reading) (virtualPath : Text) (data : Bytes)
  | delete (now : Time) (virtualPath : Text)
  | move (src dst : Text)
  | merge (timestamp : Text → Text) (record : Text × FileRow)

/-- Another process of the device: it has its own flags and counters for the same disks and records. -/
structure ProcessView where
  isActive : SourceId → Bool
  usedBytes : SourceId → Int
  jbodAttached : Bool := true

/-- The volume as another process has it. -/
def ProcessView.seen (v : ProcessView) (j : JbodManager) : JbodManager :=
  { j with
    sources := j.sources.mapRows fun id s =>
      { s with isActive := v.isActive id, usedBytes := v.usedBytes id } }

/-- The volume once another process has changed the records and the disks. -/
def JbodManager.adopt (j j' : JbodManager) : JbodManager :=
  { j with
    metadataStore := j'.metadataStore
    sources := j.sources.mapRows fun id s =>
      { s with tree := ((j'.sources.get id).map StorageSource.tree).getD s.tree } }

/-- A volume keeps its identity and its key, and a place that lacks its file lacks it still. -/
structure Keeps (place : Location) (j j' : JbodManager) : Prop where
  deviceId : j'.deviceId = j.deviceId
  engine : j'.encryptionEngine = j.encryptionEngine
  lacks : j.Lacks place → j'.Lacks place

theorem Keeps.refl (place : Location) (j : JbodManager) : Keeps place j j := ⟨rfl, rfl, fun h => h⟩

theorem Keeps.trans {place : Location} {j j' j'' : JbodManager} (h : Keeps place j j')
    (h' : Keeps place j' j'') : Keeps place j j'' :=
  ⟨h'.deviceId.trans h.deviceId, h'.engine.trans h.engine, fun hlacks => h'.lacks (h.lacks hlacks)⟩

namespace SyncClient

variable (c : SyncClient) (place : Location)

theorem keeps_deletePhysical (p : Text) : Keeps place c.jbod (c.deletePhysical p).jbod := by
  unfold deletePhysical
  split
  · exact .refl _ _
  · rename_i row hrow
    split
    · exact .refl _ _
    · rename_i s hs
      split_ifs
      · exact .refl _ _
      · exact ⟨rfl, rfl, fun hlacks =>
          JbodManager.lacks_onSource hs (fun _ => StorageSource.missing_delete rfl) hlacks⟩

theorem keeps_mergeRecord (timestamp : Text → Text) (x : Text × FileRow) :
    Keeps place c.jbod (mergeRecord timestamp c x).jbod := by
  unfold mergeRecord
  dsimp only
  split
  · exact .refl _ _
  · exact ⟨rfl, rfl, fun h => h⟩
  · unfold handleConflict
    split <;> exact ⟨rfl, rfl, fun h => h⟩
  · have hupdate : ∀ c' : SyncClient, Keeps place c.jbod c'.jbod →
        Keeps place c.jbod (c'.updateFromServer x.1 x.2).jbod := by
      intro c' hkeeps
      refine hkeeps.trans ?_
      unfold updateFromServer
      dsimp only
      split_ifs
      · exact (keeps_deletePhysical _ place x.1).trans ⟨rfl, rfl, fun h => h⟩
      · exact ⟨rfl, rfl, fun h => h⟩
    apply hupdate
    cases c.store.lookupAny x.1 with
    | none => exact .refl _ _
    | some localRec =>
        dsimp only
        unfold detectOwnershipLoss
        split_ifs
        · exact ⟨rfl, rfl, fun h => h⟩
        · exact .refl _ _

end SyncClient

namespace LocalCall

def apply (c : SyncClient) : LocalCall → SyncClient
  | write reading p data => { c with jbod := (c.jbod.writeFile reading p data).2 }
  | delete now p => { c with jbod := (c.jbod.deleteFile now p).2 }
  | move src dst => { c with jbod := (c.jbod.moveFile src dst).2 }
  | merge timestamp x => c.mergeRecord timestamp x

/-- A call puts nothing at a place that lacks its file: only a write might. -/
def SparesPlace (c : SyncClient) (place : Location) : LocalCall → Prop
  | write reading p data => ∀ target, c.jbod.writeTarget reading p data = some target →
      JbodManager.SparedBy (c.jbod.writeFile reading p data).1
        (target.1, StorageSource.resolve target.2) place
  | _ => True

/-- A call gives the path no record of a file that may be on the volume `j`: a write that succeeds is of
another path, and a move to the path or a merge brings the record of a file that is not here. -/
def SparesRecord (c : SyncClient) (j : JbodManager) (p : Text) : LocalCall → Prop
  | write reading q data => (c.jbod.writeFile reading q data).1 = .ok () → q ≠ p
  | delete .. => True
  | move src dst => p = dst → ∀ row, c.store.lookup src = some row → c.store.lookupAny dst = none →
      j.NotHere row
  | merge timestamp x => ∀ row, (c.mergeRecord timestamp x).store.lookup p = some row →
      c.store.lookup p = some row ∨ j.NotHere row

variable {c : SyncClient} {call : LocalCall} {place : Location} {j : JbodManager} {p : Text}

theorem keeps_apply (hspares : call.SparesPlace c place) : Keeps place c.jbod (call.apply c).jbod := by
  cases call with
  | write reading q data =>
      obtain ⟨result, j', h⟩ : ∃ result j', c.jbod.writeFile reading q data = (result, j') :=
        ⟨_, _, rfl⟩
      have hframe := (JbodManager.writeFile_sources h).1
      simp only [SparesPlace, h] at hspares
      simp only [apply, h]
      exact ⟨hframe.deviceId, hframe.engine, JbodManager.lacks_writeFile h hspares⟩
  | delete now q =>
      obtain ⟨result, j', h⟩ : ∃ result j', c.jbod.deleteFile now q = (result, j') := ⟨_, _, rfl⟩
      have hframe := (JbodManager.deleteFile_sources h).1
      simp only [apply, h]
      exact ⟨hframe.deviceId, hframe.engine, JbodManager.lacks_deleteFile h⟩
  | move src dst =>
      obtain ⟨result, j', h⟩ : ∃ result j', c.jbod.moveFile src dst = (result, j') := ⟨_, _, rfl⟩
      simp only [apply, h]
      rcases JbodManager.moveFile_cases h with rfl | ⟨-, row, store, -, rfl, -⟩
      · exact .refl _ _
      · exact ⟨rfl, rfl, fun hlacks => hlacks⟩
  | merge timestamp x => exact c.keeps_mergeRecord place timestamp x

theorem engine_apply (call : LocalCall) (c : SyncClient) :
    (call.apply c).jbod.encryptionEngine = c.jbod.encryptionEngine := by
  cases call with
  | write reading p data => exact (JbodManager.writeFile_sources rfl).1.engine
  | delete now p => exact (JbodManager.deleteFile_sources rfl).1.engine
  | move src dst =>
      obtain ⟨result, j', h⟩ : ∃ result j', c.jbod.moveFile src dst = (result, j') := ⟨_, _, rfl⟩
      simp only [apply, h]
      rcases JbodManager.moveFile_cases h with rfl | ⟨-, row, store, -, rfl, -⟩
      · rfl
      · rfl
  | merge timestamp x => exact (c.keeps_mergeRecord (default, []) timestamp x).engine

/-- A path that has a live record after a call had it before, or it is of a file that is not here, and the
call is no write. -/
theorem lookup_apply {row : FileRow} (hspares : call.SparesRecord c j p)
    (hlookup : (call.apply c).store.lookup p = some row) :
    c.store.lookup p = some row ∨ j.NotHere row ∧ ∀ place, call.SparesPlace c place := by
  cases call with
  | write reading q data =>
      obtain ⟨result, j', h⟩ : ∃ result j', c.jbod.writeFile reading q data = (result, j') :=
        ⟨_, _, rfl⟩
      simp only [SparesRecord, h] at hspares
      simp only [apply, SyncClient.store, h] at hlookup ⊢
      cases result with
      | ok _ =>
          obtain ⟨target, hwritten⟩ := JbodManager.writeFile_ok h
          rw [hwritten.lookup_of_ne (hspares rfl).symm] at hlookup
          exact Or.inl hlookup
      | error e =>
          rw [(JbodManager.writeFile_sources h).2 (fun heq => nomatch heq)] at hlookup
          exact Or.inl hlookup
  | delete now q =>
      obtain ⟨result, j', h⟩ : ∃ result j', c.jbod.deleteFile now q = (result, j') := ⟨_, _, rfl⟩
      simp only [apply, SyncClient.store, h] at hlookup ⊢
      cases result with
      | ok _ =>
          obtain ⟨metadata, -, hstore, -, -⟩ := JbodManager.deleteFile_ok h
          rw [hstore] at hlookup
          exact Or.inl (JbodManager.lookup_delete hlookup).2
      | error e =>
          rw [(JbodManager.deleteFile_sources h).2 (fun heq => nomatch heq)] at hlookup
          exact Or.inl hlookup
  | move src dst =>
      obtain ⟨result, j', h⟩ : ∃ result j', c.jbod.moveFile src dst = (result, j') := ⟨_, _, rfl⟩
      simp only [apply, SyncClient.store, h] at hlookup ⊢
      rcases JbodManager.moveFile_cases h with rfl | ⟨hne, moved, store, hmoved, rfl, hrows⟩
      · exact Or.inl hlookup
      · obtain ⟨hany, hlive⟩ := MetadataStore.lookup_eq_some_iff.mp hlookup
        dsimp only at hany
        rw [hrows] at hany
        split_ifs at hany with hdst
        · -- a taken target would have stopped the move
          have hfree : c.store.lookupAny dst = none := by
            by_contra htaken
            rw [JbodManager.moveFile_of_occupied hmoved htaken hne] at h
            have hsame : c.jbod.metadataStore = store :=
              congrArg JbodManager.metadataStore (Prod.mk.inj h).2
            have hgone := hrows src
            rw [← hsame, if_neg hne, if_pos rfl, (MetadataStore.lookup_eq_some_iff.mp hmoved).1] at hgone
            cases hgone
          obtain rfl := Option.some_inj.mp hany
          exact Or.inr ⟨hspares hdst moved hmoved hfree, fun _ => trivial⟩
        · exact Or.inl (MetadataStore.lookup_eq_some_iff.mpr ⟨hany, hlive⟩)
  | merge timestamp x => exact (hspares row hlookup).imp_right fun h => ⟨h, fun _ => trivial⟩

end LocalCall

/-! ### Runs -/

/-- A step on the device: a call, of this process or of another one, or a part of a backup cycle. A cycle
picks its targets; they are replicated in any order, and a file that was not found is noted. -/
inductive CycleEvent where
  | call (process : Option ProcessView) (call : LocalCall)
  | cycle (stopped : Bool)
  | backup (remote : RemoteRead) (iv : Bytes) (virtualPath : Text) (answers : List ChunkAnswer)
  | note (virtualPath : Text)

/-- The scheduler over the volume of its process, the targets of the cycle that are not replicated yet,
and those whose backup has found no file and which are not noted yet. -/
structure BackupRun where
  scheduler : ReplicationScheduler
  client : SyncClient
  network : ReplicaNetwork
  waiting : List Text := []
  missing : List Text := []

namespace BackupRun

abbrev jbod (st : BackupRun) : JbodManager := st.client.jbod

/-- The scheduler with what the store lists now. -/
def listing (st : BackupRun) : ReplicationScheduler :=
  { st.scheduler with metadata := st.client.store.listVirtualPathsForReplication }

/-- The client of the process. -/
def seenBy (st : BackupRun) : Option ProcessView → SyncClient
  | none => st.client
  | some v => { st.client with jbod := v.seen st.jbod, jbodAttached := v.jbodAttached }

/-- The client of the scheduler's process after a call. -/
def afterCall (st : BackupRun) (process : Option ProcessView) (call : LocalCall) : SyncClient :=
  match process with
  | none => call.apply st.client
  | some v => { st.client with jbod := st.jbod.adopt (call.apply (st.seenBy (some v))).jbod }

/-- The path is in the skip set, or will be. -/
def Noted (st : BackupRun) (p : Text) : Prop := p ∈ st.scheduler.skipBackup ∨ p ∈ st.missing

variable (m : ReplicationManager)

def step (st : BackupRun) : CycleEvent → Option BackupRun
  | .call process call => some { st with client := st.afterCall process call }
  | .cycle stopped =>
      if st.waiting = [] ∧ st.missing = [] then
        some { st with waiting := (st.listing.runBackupCycle stopped fun _ => .failed).called }
      else none
  | .backup remote iv p answers =>
      if p ∈ st.waiting then
        let (result, jbod, network) := m.replicate st.jbod st.network remote iv p answers
        some { st with
          client := { st.client with jbod }
          network
          waiting := st.waiting.erase p
          missing := if raisesNotFound result then p :: st.missing else st.missing }
      else none
  | .note p =>
      if p ∈ st.missing then
        some { st with
          scheduler := { st.scheduler with skipBackup := p :: st.scheduler.skipBackup }
          missing := st.missing.erase p }
      else none

/-- **Skipping is justified**: of the listed paths of a cycle, a backup of one that is left out would find
no file, and one whose backup would not end so is replicated. -/
structure Justified (st : BackupRun) : Prop where
  leftOut : ∀ p ∈ sliceTo st.listing.backupPaths st.listing.maxFiles, p ∈ st.scheduler.skipBackup →
    ∀ remote iv answers,
      raisesNotFound (m.replicate st.jbod st.network remote iv p answers).1 = true
  backedUp : ∀ p ∈ sliceTo st.listing.backupPaths st.listing.maxFiles,
    (∃ remote iv answers,
      raisesNotFound (m.replicate st.jbod st.network remote iv p answers).1 = false) →
        p ∈ (st.listing.runBackupCycle false fun _ => .failed).called

/-- What keeps the skip set justified. A call gives no noted path the record of a file that may be here
and puts nothing at the place of one; and no operation of the scheduler's process takes the source of a
noted path's record out of service. -/
def StepOk (st : BackupRun) : CycleEvent → Prop
  | .call process call => ∀ p, st.Noted p →
      call.SparesRecord (st.seenBy process) st.jbod p ∧
      (∀ row, st.client.store.lookup p = some row →
        call.SparesPlace (st.seenBy process) row.location) ∧
      (process = none → ∀ row, (call.apply st.client).store.lookup p = some row →
        (call.apply st.client).jbod.InService row.sourceId)
  | .backup remote _ q _ => ∀ p, st.Noted p → ∀ row, st.client.store.lookup p = some row →
      (st.jbod.readFile remote q).2.InService row.sourceId
  | .cycle _ | .note _ => True

/-- A scheduler that has just been started. -/
structure Started (st : BackupRun) : Prop where
  skipBackup : st.scheduler.skipBackup = []
  missing : st.missing = []

/-- What holds in every state: a noted path has no file here, and there is a key. -/
def Inv (st : BackupRun) : Prop :=
  ∀ p, st.Noted p → st.jbod.Absent p ∧ st.jbod.encryptionEngine.isSome = true

section Step

variable {m : ReplicationManager} {st st' : BackupRun} {p : Text}

theorem justified_of_inv (h : st.Inv) : st.Justified m := by
  have hleft : ∀ p, p ∈ st.scheduler.skipBackup → ∀ remote iv answers,
      raisesNotFound (m.replicate st.jbod st.network remote iv p answers).1 = true := by
    intro p hp remote iv answers
    obtain ⟨habsent, hkey⟩ := h p (Or.inl hp)
    obtain ⟨engine, hengine⟩ := Option.isSome_iff_exists.mp hkey
    exact (ReplicationManager.replicate_notFound_iff hengine).mpr habsent
  refine ⟨fun p _ => hleft p, fun p hp ⟨remote, iv, answers, hfound⟩ => ?_⟩
  rw [ReplicationScheduler.called_runBackupCycle, if_neg Bool.false_ne_true]
  refine List.mem_filter.mpr ⟨hp, decide_eq_true fun hskip => ?_⟩
  rw [hleft p hskip] at hfound
  cases hfound

theorem lacks_seen {v : ProcessView} {j : JbodManager} {place : Location} (h : j.Lacks place) :
    (v.seen j).Lacks place := by
  obtain ⟨s, hs, hread⟩ := h
  refine ⟨{ s with isActive := v.isActive place.1, usedBytes := v.usedBytes place.1 }, ?_, hread⟩
  rw [ProcessView.seen, Table.get_mapRows, hs, Option.map_some]

/-- The disks are those of the other process, the flags are not. -/
theorem notHere_adopt {j j' : JbodManager} {row : FileRow} (h : j.NotHere row)
    (hlacks : j'.Lacks row.location) : (j.adopt j').NotHere row := by
  obtain ⟨s, hs, hactive⟩ := h.inService
  obtain ⟨t, ht, hread⟩ := hlacks
  have hget : (j.adopt j').sources.get row.sourceId = some { s with tree := t.tree } := by
    have ht' : j'.sources.get row.sourceId = some t := ht
    rw [JbodManager.adopt, Table.get_mapRows, hs, ht']
    rfl
  exact ⟨h.owned, ⟨_, hget, hactive⟩, ⟨_, hget, hread⟩⟩

/-- A path that has no file here has none after a call that spares it. -/
theorem absent_afterCall {process : Option ProcessView} {call : LocalCall} (h : st.jbod.Absent p)
    (hrecord : call.SparesRecord (st.seenBy process) st.jbod p)
    (hplace : ∀ row, st.client.store.lookup p = some row →
      call.SparesPlace (st.seenBy process) row.location)
    (hservice : process = none → ∀ row, (call.apply st.client).store.lookup p = some row →
      (call.apply st.client).jbod.InService row.sourceId) :
    (st.afterCall process call).jbod.Absent p := by
  have hstore : (st.seenBy process).store = st.client.store := by
    cases process <;> rfl
  have hbefore : ∀ row, (call.apply (st.seenBy process)).store.lookup p = some row →
      st.jbod.NotHere row ∧ call.SparesPlace (st.seenBy process) row.location := by
    intro row hrow
    rcases LocalCall.lookup_apply hrecord hrow with hsame | ⟨hnotHere, hspares⟩
    · rw [hstore] at hsame
      exact ⟨h row hsame, hplace row hsame⟩
    · exact ⟨hnotHere, hspares _⟩
  intro row hrow
  cases process with
  | none =>
      obtain ⟨hnotHere, hspares⟩ := hbefore row hrow
      have hkeeps := LocalCall.keeps_apply hspares
      have hdevice : (call.apply st.client).jbod.deviceId = st.jbod.deviceId := hkeeps.deviceId
      refine ⟨?_, hservice rfl row hrow, hkeeps.lacks hnotHere.lacks⟩
      calc (call.apply st.client).jbod.ownedElsewhere row
          = st.jbod.ownedElsewhere row := by simp only [JbodManager.ownedElsewhere, hdevice]
        _ = false := hnotHere.owned
  | some v =>
      obtain ⟨hnotHere, hspares⟩ := hbefore row hrow
      exact notHere_adopt hnotHere ((LocalCall.keeps_apply hspares).lacks (lacks_seen hnotHere.lacks))

theorem engine_afterCall (st : BackupRun) (process : Option ProcessView) (call : LocalCall) :
    (st.afterCall process call).jbod.encryptionEngine = st.jbod.encryptionEngine := by
  cases process with
  | none => exact call.engine_apply st.client
  | some v => rfl

theorem inv_call {process : Option ProcessView} {call : LocalCall} (h : st.Inv)
    (hok : StepOk st (.call process call)) : Inv { st with client := st.afterCall process call } := by
  intro p hp
  obtain ⟨habsent, hkey⟩ := h p hp
  obtain ⟨hrecord, hplace, hservice⟩ := hok p hp
  refine ⟨absent_afterCall habsent hrecord hplace hservice, ?_⟩
  calc (st.afterCall process call).jbod.encryptionEngine.isSome
      = st.jbod.encryptionEngine.isSome := by rw [engine_afterCall]
    _ = true := hkey

/-- A backup of a noted path is not asked for; one that is newly found missing has no file here. -/
theorem inv_backup {remote : RemoteRead} {iv : Bytes} {q : Text} {answers : List ChunkAnswer}
    (h : st.Inv) (hok : StepOk st (.backup remote iv q answers))
    (hstep : step m st (.backup remote iv q answers) = some st') : st'.Inv := by
  unfold step at hstep
  dsimp only at hstep
  by_cases hq : q ∈ st.waiting
  case neg =>
    rw [if_neg hq] at hstep
    cases hstep
  rw [if_pos hq] at hstep
  obtain rfl := Option.some_inj.mp hstep
  have hengine : (m.replicate st.jbod st.network remote iv q answers).2.1.encryptionEngine =
      st.jbod.encryptionEngine := by
    rcases m.replicate_volume st.jbod st.network remote iv q answers with hvolume | hvolume |
      ⟨status, hvolume⟩
    · rw [hvolume]
    · rw [hvolume]
      exact (JbodManager.readFile_sources rfl).1.engine
    · rw [hvolume]
  have hold : ∀ p, st.Noted p →
      (m.replicate st.jbod st.network remote iv q answers).2.1.Absent p ∧
        (m.replicate st.jbod st.network remote iv q answers).2.1.encryptionEngine.isSome = true := by
    intro p hp
    obtain ⟨habsent, hkey⟩ := h p hp
    exact ⟨ReplicationManager.absent_replicate habsent (hok p hp), by rw [hengine]; exact hkey⟩
  intro p hp
  by_cases hnew : p = q ∧ raisesNotFound (m.replicate st.jbod st.network remote iv q answers).1 = true
  · obtain ⟨rfl, hmissing⟩ := hnew
    obtain ⟨engine, hkey⟩ := ReplicationManager.engine_of_raisesNotFound hmissing
    have habsent := (ReplicationManager.replicate_notFound_iff hkey).mp hmissing
    have hsame := m.replicate_of_absent st.network remote iv answers hkey habsent
    refine ⟨?_, ?_⟩
    · change (m.replicate st.jbod st.network remote iv p answers).2.1.Absent p
      rw [hsame]
      exact habsent
    · change (m.replicate st.jbod st.network remote iv p answers).2.1.encryptionEngine.isSome = true
      rw [hsame, hkey, Option.isSome_some]
  · refine hold p (hp.imp_right fun hp => ?_)
    dsimp only at hp
    split_ifs at hp with hmissing
    · rcases List.mem_cons.mp hp with rfl | hp
      · exact absurd ⟨rfl, hmissing⟩ hnew
      · exact hp
    · exact hp

theorem inv_note {q : Text} (h : st.Inv) (hstep : step m st (.note q) = some st') : st'.Inv := by
  unfold step at hstep
  dsimp only at hstep
  split_ifs at hstep with hq
  obtain rfl := Option.some_inj.mp hstep
  intro p hp
  refine h p ?_
  rcases hp with hp | hp
  · rcases List.mem_cons.mp hp with rfl | hp
    · exact Or.inr hq
    · exact Or.inl hp
  · exact Or.inr (List.mem_of_mem_erase hp)

theorem inv_step {e : CycleEvent} (h : st.Inv) (hok : StepOk st e) (hstep : step m st e = some st') :
    st'.Inv := by
  cases e with
  | call process call =>
      obtain rfl := Option.some_inj.mp hstep
      exact inv_call h hok
  | cycle stopped =>
      unfold step at hstep
      dsimp only at hstep
      split_ifs at hstep
      obtain rfl := Option.some_inj.mp hstep
      exact h
  | backup remote iv q answers => exact inv_backup h hok hstep
  | note q => exact inv_note h hstep

end Step

/-- **What a cycle leaves out**: in every run of a scheduler that has just been started, where no step
brings a noted path its file, only paths are left out whose backup would find none. -/
theorem skips_justified (m : ReplicationManager) (start : BackupRun) (events : List CycleEvent)
    (hstart : start.Started) (hok : Transitions.StepsMeet (step m) StepOk start events) :
    Transitions.StatesMeet (step m) (Justified m) start events := by
  have hinv : start.Inv := by
    intro p hp
    unfold Noted at hp
    rw [hstart.skipBackup, hstart.missing] at hp
    exact absurd hp (by simp)
  exact Transitions.statesMeet_of_stepsMeet (fun _ => justified_of_inv)
    (fun _ _ _ hs hcond hstep => inv_step hs hcond hstep) hinv hok

open BackedUpDevice (newDevice newManager)

/-- The scheduler of a device, with a file that was shared without an owner and is not here. -/
def sharedFileRun : BackupRun where
  scheduler := { metadata := fun _ _ => [], ownerDeviceId := some "laptop" }
  client :=
    { jbod :=
        { newDevice.jbod with
          metadataStore :=
            { newDevice.jbod.metadataStore with
              files := Table.empty.put "/c".toList
                { sourceId := "s", physicalPath := "c".toList, fileSize := 1, createdAt := 0,
                  modifiedAt := 0 } } }
      deviceName := "laptop".toList }
  network := newDevice.network

/-- The backup of a file that is not found. -/
def missedBackup (p : Text) : List CycleEvent :=
  [.backup (fun _ _ _ => none) [] p [], .note p]

def writeFrom (process : Option ProcessView) (p : Text) : CycleEvent :=
  .call process (.write
    { now := 1, uuid := List.replicate 32 'a', diskFree := fun _ => 100 } p [7])

/-- The file is left out of the cycles, and a mount in another process writes a file of its own. -/
theorem skips_justified_sharedFile :
    Transitions.StatesMeet (step newManager) (Justified newManager) sharedFileRun
      (.cycle false :: missedBackup "/c".toList ++
        [writeFrom (some ⟨fun _ => true, fun _ => 0, true⟩) "/b".toList, .cycle false]) := by
  refine skips_justified newManager sharedFileRun _ ⟨rfl, rfl⟩ ?_
  refine ⟨trivial, fun s hs => ?_⟩
  obtain rfl := Option.some_inj.mp hs
  refine ⟨fun p hp => ?_, fun s hs => ?_⟩
  · exact absurd hp (by simp [Noted, sharedFileRun])
  obtain rfl := Option.some_inj.mp hs
  refine ⟨trivial, fun s hs => ?_⟩
  obtain rfl := Option.some_inj.mp hs
  refine ⟨fun p hp => ?_, fun s hs => ⟨trivial, fun _ _ => trivial⟩⟩
  obtain rfl : p = "/c".toList := by
    rcases hp with hp | hp
    · exact List.mem_singleton.mp hp
    · exact absurd hp List.not_mem_nil
  refine ⟨fun _ => by decide, fun row hrow target htarget hsource => ?_, fun hnone => nomatch hnone⟩
  obtain rfl := Option.some_inj.mp hrow
  obtain rfl := Option.some_inj.mp htarget
  exact ⟨by decide, fun _ => by decide⟩

/-- A device that has no file yet. -/
def emptyRun : BackupRun :=
  { sharedFileRun with client := { sharedFileRun.client with jbod := newDevice.jbod } }

/-- A file is written, deleted while its backup waits, and written again after the backup has noted it as
missing. -/
def rewrites : List CycleEvent :=
  writeFrom none "/a".toList :: .cycle false :: .call none (.delete 2 "/a".toList) ::
    missedBackup "/a".toList ++ [writeFrom none "/a".toList]

/-- The file is listed and is here, and the cycles leave it out. -/
theorem rewritten_file_is_left_out :
    ¬ ∀ (m : ReplicationManager) (start : BackupRun) (events : List CycleEvent), start.Started →
      Transitions.StatesMeet (step m) (Justified m) start events := by
  intro h
  obtain ⟨st, hst⟩ : ∃ st, Transitions.run (step newManager) emptyRun rewrites = some st := ⟨_, rfl⟩
  have hlast : (Transitions.run (step newManager) emptyRun rewrites).map (fun st =>
      (decide ("/a".toList ∈ sliceTo st.listing.backupPaths st.listing.maxFiles),
        decide ("/a".toList ∈ st.scheduler.skipBackup),
        raisesNotFound (newManager.replicate st.jbod st.network (fun _ _ _ => none) [] "/a".toList
          []).1)) = some (true, true, false) := by decide
  rw [hst, Option.map_some, Option.some_inj] at hlast
  obtain ⟨hlisted, hrest⟩ := Prod.mk.inj hlast
  obtain ⟨hskipped, hfound⟩ := Prod.mk.inj hrest
  have hjustified := (h newManager emptyRun rewrites ⟨rfl, rfl⟩).last hst
  have hnotFound := hjustified.leftOut _ (of_decide_eq_true hlisted) (of_decide_eq_true hskipped)
    (fun _ _ _ => none) [] []
  rw [hfound] at hnotFound
  cases hnotFound

end BackupRun

end StardustFS
