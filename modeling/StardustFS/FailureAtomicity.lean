import StardustFS.ManagedFiles
import StardustFS.SourceFaults

/-! Which failing calls leave a volume as it was. The bytes a write has put down are taken back by the
cleanup of a new file only, and the cleanup needs its source in service; what a deletion has taken away
stays away. -/

namespace StardustFS

/-- A call that writes or deletes a file. -/
inductive FileCall where
  | write (reading : Reading) (virtualPath : Text) (data : Bytes)
  | delete (now : Time) (virtualPath : Text)

namespace JbodManager

open StorageSource (resolve Leaves)

/-- What a file in the place reads as. -/
def plainAt (j : JbodManager) (place : Location) : Option Bytes :=
  (j.bytesAt place).bind fun b => (j.decrypt b).toOption

/-- A regular file is in the place, on a source in service or not. -/
def hasFile (j : JbodManager) (place : Location) : Bool :=
  ((j.sources.get place.1).map fun s => s.tree.isFile place.2).getD false

/-- What a call that raises is to leave: what every path reads as, the records, and no physical file
that was not there. -/
structure Unchanged (j j' : JbodManager) : Prop where
  reads : ∀ remote p, (j'.readFile remote p).1.toOption = (j.readFile remote p).1.toOption
  files : j'.metadataStore.files = j.metadataStore.files
  physical : ∀ place, j'.hasFile place = true → j.hasFile place = true

/-- No file of this device reads from the source. -/
def Unread (j : JbodManager) (sourceId : SourceId) : Prop :=
  ∀ p row, j.Held p row → row.sourceId = sourceId → j.plainAt row.location = none

theorem readFile_toOption (j : JbodManager) (remote : RemoteRead) {p : Text} {row : FileRow}
    (h : j.Held p row) : (j.readFile remote p).1.toOption = j.plainAt row.location := by
  refine Option.ext fun data => ?_
  have hread : (j.readFile remote p).1 = .ok data ↔ _ := readFile_eq_ok_iff remote h.1 h.2
  have hoption : ∀ x : Except JbodError Bytes, x.toOption = some data ↔ x = .ok data := by
    intro x
    cases x with
    | error e => simp [Except.toOption]
    | ok b => simp [Except.toOption]
  rw [hoption, hread, plainAt, Option.bind_eq_some_iff]
  simp only [hoption]

theorem Unchanged.refl (j : JbodManager) : Unchanged j j :=
  ⟨fun _ _ => rfl, rfl, fun _ h => h⟩

@[simp] theorem withSource_withSource (j : JbodManager) (sourceId : SourceId)
    (s s' : StorageSource) : (j.withSource sourceId s).withSource sourceId s' =
      j.withSource sourceId s' := by
  unfold withSource
  dsimp only
  rw [Table.update_update]

theorem withSource_self {j : JbodManager} {sourceId : SourceId} {s : StorageSource}
    (hs : j.sources.get sourceId = some s) : j.withSource sourceId s = j := by
  unfold withSource
  rw [Table.update_of_get hs]

theorem get_withSource {j : JbodManager} {sourceId : SourceId} {s : StorageSource}
    (hs : j.sources.get sourceId = some s) (s' : StorageSource) :
    (j.withSource sourceId s').sources.get sourceId = some s' := by
  unfold withSource
  rw [Table.get_update_self, hs]
  rfl

theorem plainAt_withSource {j : JbodManager} {sourceId : SourceId} {s s' : StorageSource}
    {withdrawn : Bool} {files : List FileName → Option Bytes}
    (hs : j.sources.get sourceId = some s) (hactive : s.isActive = true)
    (h : Leaves s s' withdrawn files) (place : Location) :
    (j.withSource sourceId s').plainAt place =
      if place.1 = sourceId then
        if withdrawn then none else (files place.2).bind fun b => (j.decrypt b).toOption
      else j.plainAt place := by
  unfold plainAt bytesAt withSource
  dsimp only
  rw [Table.get_update]
  split_ifs with hplace hwithdrawn
  · rw [hplace, hs, Option.map_some, Option.bind_some, h.active, hwithdrawn, Bool.not_true,
      Bool.and_false]
    rfl
  · rw [hplace, hs, Option.map_some, Option.bind_some, h.active, h.files, hactive]
    simp only [hwithdrawn]
    rfl
  · rfl

theorem hasFile_withSource {j : JbodManager} {sourceId : SourceId} {s s' : StorageSource}
    {withdrawn : Bool} {files : List FileName → Option Bytes}
    (hs : j.sources.get sourceId = some s) (h : Leaves s s' withdrawn files) (place : Location) :
    (j.withSource sourceId s').hasFile place =
      if place.1 = sourceId then (files place.2).isSome else j.hasFile place := by
  unfold hasFile withSource
  dsimp only
  rw [Table.get_update]
  split_ifs with hplace
  · rw [hplace, hs, ← h.files]
    rfl
  · rfl

/-- **A call that leaves the records**, by what it leaves of the one source it touched. -/
theorem unchanged_withSource_iff {j : JbodManager} {sourceId : SourceId} {s s' : StorageSource}
    {withdrawn : Bool} {files : List FileName → Option Bytes}
    (hs : j.sources.get sourceId = some s) (hactive : s.isActive = true)
    (h : Leaves s s' withdrawn files) :
    Unchanged j (j.withSource sourceId s') ↔
      (∀ path, (files path).isSome → s.tree.isFile path = true) ∧
        ∀ p row, j.Held p row → row.sourceId = sourceId →
          (if withdrawn then none
            else (files row.location.2).bind fun b => (j.decrypt b).toOption) =
          j.plainAt row.location := by
  have hheld : ∀ {p row}, j.Held p row → (j.withSource sourceId s').Held p row := fun h => h
  have hplain := plainAt_withSource hs hactive h
  have hfiles := hasFile_withSource hs h
  constructor
  · intro hsame
    refine ⟨fun path hpath => ?_, fun p row hrow hid => ?_⟩
    · have hphysical := hsame.physical (sourceId, path)
      rw [hfiles, if_pos rfl] at hphysical
      have := hphysical hpath
      rw [hasFile, hs] at this
      exact this
    · have hreads := hsame.reads (fun _ _ _ => none) p
      rw [readFile_toOption _ _ hrow, readFile_toOption _ _ (hheld hrow), hplain,
        if_pos (show row.location.1 = sourceId from hid)] at hreads
      exact hreads
  · rintro ⟨hold, hreads⟩
    refine ⟨fun remote p => ?_, rfl, fun place hplace => ?_⟩
    · cases hlookup : j.metadataStore.lookup p with
      | none =>
          have hlookup' : (j.withSource sourceId s').metadataStore.lookup p = none := hlookup
          unfold readFile
          rw [hlookup, hlookup']
      | some row =>
          cases howned : j.ownedElsewhere row with
          | true =>
              obtain ⟨owner, howner, hread⟩ := readFile_of_foreign remote hlookup howned
              obtain ⟨owner', howner', hread'⟩ :=
                readFile_of_foreign (j := j.withSource sourceId s') remote hlookup howned
              rw [howner, Option.some_inj] at howner'
              subst howner'
              rw [hread, hread']
              unfold readRemote
              cases remote owner row.sourceId row.physicalPath <;> rfl
          | false =>
              have hrow : j.Held p row := ⟨hlookup, howned⟩
              rw [readFile_toOption _ _ hrow, readFile_toOption _ _ (hheld hrow), hplain]
              split_ifs with hid hwithdrawn
              · rw [← hreads p row hrow hid, if_pos hwithdrawn]
              · rw [← hreads p row hrow hid, if_neg hwithdrawn]
              · rfl
    · rw [hfiles] at hplace
      split_ifs at hplace with hid
      · rw [hasFile, hid, hs]
        exact hold _ hplace
      · exact hplace

theorem plainAt_of_active {j : JbodManager} {sourceId : SourceId} {s : StorageSource}
    (hs : j.sources.get sourceId = some s) (hactive : s.isActive = true) {row : FileRow}
    (hid : row.sourceId = sourceId) :
    j.plainAt row.location =
      (s.tree.file? row.location.2).bind fun b => (j.decrypt b).toOption := by
  rw [plainAt, bytesAt, show row.location.1 = sourceId from hid, hs, Option.bind_some,
    if_pos hactive]

/-- The files are as they were: what matters is whether the source is in service. -/
theorem unchanged_of_sameFiles_iff {j : JbodManager} {sourceId : SourceId} {s s' : StorageSource}
    {withdrawn : Bool} (hs : j.sources.get sourceId = some s) (hactive : s.isActive = true)
    (h : Leaves s s' withdrawn s.tree.file?) :
    Unchanged j (j.withSource sourceId s') ↔ (withdrawn = true → j.Unread sourceId) := by
  rw [unchanged_withSource_iff hs hactive h]
  constructor
  · rintro ⟨-, hreads⟩ hwithdrawn p row hrow hid
    rw [← hreads p row hrow hid, if_pos hwithdrawn]
  · intro hunread
    refine ⟨fun _ hpath => hpath, fun p row hrow hid => ?_⟩
    split_ifs with hwithdrawn
    · exact (hunread hwithdrawn p row hrow hid).symm
    · exact (plainAt_of_active hs hactive hid).symm

/-- One file is another, or is there no longer. -/
theorem unchanged_of_update_iff {j : JbodManager} {sourceId : SourceId} {s s' : StorageSource}
    {withdrawn : Bool} {path : List FileName} {contents : Option Bytes}
    (hs : j.sources.get sourceId = some s) (hactive : s.isActive = true)
    (h : Leaves s s' withdrawn (Function.update s.tree.file? path contents)) :
    Unchanged j (j.withSource sourceId s') ↔
      (contents.isSome → s.tree.isFile path = true) ∧
        if withdrawn then j.Unread sourceId
        else ∀ p row, j.Held p row → row.location = (sourceId, path) →
          (contents.bind fun b => (j.decrypt b).toOption) = j.plainAt row.location := by
  rw [unchanged_withSource_iff hs hactive h]
  refine and_congr ⟨fun hall hpath => ?_, fun hpath q hq => ?_⟩ ?_
  · exact hall path (by rw [Function.update_self]; exact hpath)
  · by_cases hqpath : q = path
    · rw [hqpath, Function.update_self] at hq
      exact hqpath ▸ hpath hq
    · rwa [Function.update_of_ne hqpath] at hq
  · split_ifs with hwithdrawn
    · exact ⟨fun hreads p row hrow hid => (hreads p row hrow hid).symm,
        fun hunread p row hrow hid => (hunread p row hrow hid).symm⟩
    · constructor
      · intro hreads p row hrow hplace
        have hread := hreads p row hrow (congrArg Prod.fst hplace)
        rwa [show row.location.2 = path from congrArg Prod.snd hplace, Function.update_self] at hread
      · intro hreads p row hrow hid
        by_cases hpath : row.location.2 = path
        · rw [hpath, Function.update_self]
          exact hreads p row hrow (Prod.ext hid hpath)
        · rw [Function.update_of_ne hpath]
          exact (plainAt_of_active hs hactive hid).symm

/-! ### The calls -/

/-- What is to hold at a new place of the source, by how far the write gets. -/
def NewSpared (j : JbodManager) (faults : Faults) (sourceId : SourceId) (s : StorageSource) :
    Reach → Prop
  | .refused => True
  | .unopened r => s.withdraws r = true → j.Unread sourceId
  | .opened _ r => s.withdraws r = false ∧ faults.delete = none
  | .written => faults.statement.isSome ∧ faults.delete = none

/-- What is to hold of the file that is written in place, by how far the write gets. -/
def OverwriteSpared (j : JbodManager) (faults : Faults) (existing : FileRow)
    (encrypted data : Bytes) (s : StorageSource) : Reach → Prop
  | .refused => True
  | .unopened r => s.withdraws r = true → j.Unread existing.sourceId
  | .opened n r => s.tree.isFile (resolve existing.physicalPath) = true ∧
      if s.withdraws r then j.Unread existing.sourceId
      else (j.decrypt (encrypted.take n)).toOption = j.plainAt existing.location
  | .written => faults.statement.isSome ∧ j.plainAt existing.location = some data

/-- What is to hold of a file that is deleted: its bytes go before its record does. -/
def DeleteSpared (j : JbodManager) (faults : Faults) (metadata : FileRow) : Prop :=
  if j.ownedElsewhere metadata then faults.statement ≠ some .leftOpen
  else match j.sources.get metadata.sourceId with
    | none => faults.statement ≠ some .leftOpen
    | some s =>
        if !s.isActive then faults.statement ≠ some .leftOpen
        else match s.deletion faults.delete metadata.physicalPath with
          | none => faults.statement ≠ some .leftOpen ∧ j.plainAt metadata.location = none
          | some .missing => faults.statement ≠ some .leftOpen
          | some r => s.withdraws r = true → j.Unread metadata.sourceId

/-- The state before the call and the exceptions it meets allow the call to leave everything as it
was, should it raise. -/
def Spared (j : JbodManager) (faults : Faults) : FileCall → Prop
  | .write reading virtualPath data =>
      let encrypted := j.encrypt reading.iv data
      let atNewPlace := ∀ sourceId s,
        j.selectSource reading.diskFree encrypted.length = some sourceId →
        j.sources.get sourceId = some s →
        j.NewSpared faults sourceId s (s.reach faults.write
          (generatePhysicalPath reading.uuid virtualPath) encrypted.length)
      match j.metadataStore.lookup virtualPath with
      | none => atNewPlace
      | some existing =>
          if j.ownedElsewhere existing then atNewPlace
          else ∀ s, j.sources.get existing.sourceId = some s →
            j.OverwriteSpared faults existing encrypted data s
              (s.reach faults.write existing.physicalPath encrypted.length)
  | .delete _ virtualPath =>
      ∀ metadata, j.metadataStore.lookup virtualPath = some metadata →
        j.DeleteSpared faults metadata

def callUnder (faults : Faults) (j : JbodManager) : FileCall → Outcome
  | .write reading virtualPath data => j.writeFileUnder faults reading virtualPath data
  | .delete now virtualPath => j.deleteFileUnder faults now virtualPath

/-- The UUID of a write is one no file has. -/
def DrawsUnused (j : JbodManager) : FileCall → Prop
  | .write reading virtualPath _ => IsUuidHex reading.uuid ∧
      ∀ x ∈ j.sources.rows, x.2.tree.get (freshPath reading virtualPath) = none
  | .delete _ _ => True

instance (j : JbodManager) : DecidablePred j.DrawsUnused
  | .write reading virtualPath _ => inferInstanceAs (Decidable (IsUuidHex reading.uuid ∧
      ∀ x ∈ j.sources.rows, x.2.tree.get (freshPath reading virtualPath) = none))
  | .delete _ _ => inferInstanceAs (Decidable True)

/-! ### The cleanup -/

theorem metadataStore_discardPartialUnder (j : JbodManager) (faults : Faults) (sourceId : SourceId)
    (p : Text) (e : Failure) :
    (j.discardPartialUnder faults sourceId p e).2.metadataStore = j.metadataStore := by
  unfold discardPartialUnder
  split
  · rfl
  · split
    · rfl
    · rfl
    · split <;> rfl

/-- Out of service, a source is asked for nothing. -/
theorem discardPartialUnder_inactive {j : JbodManager} {sourceId : SourceId} {s : StorageSource}
    (hs : j.sources.get sourceId = some s) (hactive : s.isActive = false) (p : Text)
    (faults : Faults) (e : Failure) :
    (j.discardPartialUnder faults sourceId p e).2 = j := by
  unfold discardPartialUnder
  rw [hs]
  simp [StorageSource.exists, hactive]

theorem discardPartialUnder_absent {j : JbodManager} {sourceId : SourceId} {s : StorageSource}
    (hs : j.sources.get sourceId = some s) {p : Text} (hnode : s.tree.get (resolve p) = none)
    (faults : Faults) (e : Failure) :
    (j.discardPartialUnder faults sourceId p e).2 = j := by
  unfold discardPartialUnder
  rw [hs]
  cases hactive : s.isActive with
  | false => simp [StorageSource.exists, hactive]
  | true => simp [StorageSource.exists, hactive, DirectoryTree.exists?, hnode]

/-- The cleanup of a file of which something has been written. -/
theorem discardPartialUnder_file {j : JbodManager} {sourceId : SourceId} {s : StorageSource}
    (hs : j.sources.get sourceId = some s) (hactive : s.isActive = true) {p : Text}
    (hfile : s.tree.isFile (resolve p) = true) (faults : Faults) (e : Failure) :
    ∃ s' withdrawn files, (j.discardPartialUnder faults sourceId p e).2 = j.withSource sourceId s' ∧
      Leaves s s' withdrawn files ∧
      (faults.delete = none ∧ withdrawn = false ∧
          files = Function.update s.tree.file? (resolve p) none ∨
        faults.delete ≠ none ∧ files = s.tree.file?) := by
  have hexists : s.exists p = .ok true := by
    obtain ⟨b, hb⟩ := Option.isSome_iff_exists.mp hfile
    rw [StorageSource.exists, hactive, DirectoryTree.exists?,
      DirectoryTree.file?_eq_some_iff.mp hb]
    rfl
  have hdeletes := StorageSource.deleteUnder_deletes hactive faults.delete p
  have hdeletion : s.deletion faults.delete p = faults.delete := by
    unfold StorageSource.deletion
    exact if_pos hfile
  rw [hdeletion] at hdeletes
  unfold discardPartialUnder
  simp only [hs, hexists]
  generalize s.deleteUnder faults.delete p = outcome at hdeletes ⊢
  generalize hfault : faults.delete = fault at hdeletes ⊢
  cases hdeletes with
  | deleted h => exact ⟨_, _, _, rfl, h, Or.inl ⟨rfl, rfl, rfl⟩⟩
  | notFound => exact ⟨_, _, _, rfl, Leaves.refl s, Or.inr ⟨Option.some_ne_none _, rfl⟩⟩
  | missing => exact ⟨_, _, _, rfl, Leaves.refl s, Or.inr ⟨Option.some_ne_none _, rfl⟩⟩
  | failed _ _ h => exact ⟨_, _, _, rfl, h, Or.inr ⟨Option.some_ne_none _, rfl⟩⟩

/-- **The cleanup of a new file** leaves everything as it was where its source is still in service and
the deletion succeeds, and only there. -/
theorem unchanged_discardPartialUnder_iff {j : JbodManager} {sourceId : SourceId}
    {s s₁ : StorageSource} {p : Text} {withdrawn : Bool} {b : Bytes}
    (hs : j.sources.get sourceId = some s) (hactive : s.isActive = true)
    (hnode : s.tree.get (resolve p) = none)
    (h : Leaves s s₁ withdrawn (Function.update s.tree.file? (resolve p) (some b)))
    (faults : Faults) (e : Failure) :
    Unchanged j ((j.withSource sourceId s₁).discardPartialUnder faults sourceId p e).2 ↔
      withdrawn = false ∧ faults.delete = none := by
  have hnofile : s.tree.file? (resolve p) = none := by
    rw [DirectoryTree.file?, hnode]
  have hnew : ∀ {s' w}, Leaves s s' w (Function.update s.tree.file? (resolve p) (some b)) →
      ¬ Unchanged j (j.withSource sourceId s') := by
    intro s' w hleaves hsame
    have hfile := ((unchanged_of_update_iff hs hactive hleaves).mp hsame).1 rfl
    rw [DirectoryTree.isFile, hnofile] at hfile
    cases hfile
  have hs₁ := get_withSource hs s₁
  cases hwithdrawn : withdrawn with
  | true =>
      subst hwithdrawn
      have hinactive : s₁.isActive = false := by
        rw [h.active, Bool.not_true, Bool.and_false]
      rw [discardPartialUnder_inactive hs₁ hinactive]
      exact ⟨fun hsame => absurd hsame (hnew h), fun hc => absurd hc.1 (by decide)⟩
  | false =>
      subst hwithdrawn
      have hactive₁ : s₁.isActive = true := by
        rw [h.active, hactive]
        rfl
      have hfile₁ : s₁.tree.isFile (resolve p) = true := by
        rw [DirectoryTree.isFile, h.files, Function.update_self]
        rfl
      obtain ⟨s₂, w, files, hj, hleaves, hcase⟩ :=
        discardPartialUnder_file hs₁ hactive₁ hfile₁ faults e
      rw [hj, withSource_withSource]
      have hboth := h.trans hleaves
      rcases hcase with ⟨hfault, rfl, rfl⟩ | ⟨hfault, rfl⟩
      · have hsame : Function.update s₁.tree.file? (resolve p) none = s.tree.file? := by
          rw [h.files, Function.update_idem, Function.update_eq_self_iff]
          exact hnofile.symm
        rw [hsame] at hboth
        rw [unchanged_of_sameFiles_iff hs hactive hboth]
        exact ⟨fun _ => ⟨rfl, hfault⟩, fun _ hc => absurd hc (by decide)⟩
      · rw [h.files] at hboth
        exact ⟨fun hsame => absurd hsame (hnew hboth), fun hc => absurd hc.2 hfault⟩

/-! ### The three writes and the deletion -/

theorem not_unchanged_of_files {j j' : JbodManager}
    (h : j'.metadataStore.files ≠ j.metadataStore.files) : ¬ Unchanged j j' :=
  fun hsame => h hsame.files

theorem insert_files_ne {s : MetadataStore} {p : Text} (h : s.lookup p = none) (sourceId : SourceId)
    (physicalPath : Text) (size : Nat) (created modified : Time) (deviceId : Option DeviceId) :
    (s.insert p sourceId physicalPath size created modified deviceId).files ≠ s.files := by
  intro heq
  have hself := MetadataStore.lookupAny_insert_self s p sourceId physicalPath size created modified
    deviceId
  rw [MetadataStore.lookupAny, heq] at hself
  have hdeleted := MetadataStore.lookup_eq_none_iff.mp h _ hself
  cases hold : s.lookupAny p with
  | none =>
      rw [hold] at hdeleted
      cases hdeleted
  | some r =>
      rw [hold] at hdeleted
      cases hdeleted

theorem update_files_ne {s : MetadataStore} {p : Text} {row : FileRow} (h : s.lookup p = some row)
    (size : Nat) (modified : Time) (deviceId : Option DeviceId) (sourceId : Option SourceId)
    (physicalPath : Option Text) :
    (s.update p size modified deviceId sourceId physicalPath).files ≠ s.files := by
  intro heq
  have hself := MetadataStore.lookupAny_update_self s p size modified deviceId sourceId physicalPath
  rw [MetadataStore.lookupAny, heq, ← MetadataStore.lookupAny,
    (MetadataStore.lookup_eq_some_iff.mp h).1, Option.map_some, Option.some_inj] at hself
  have hversion : row.version = row.version + 1 := congrArg FileRow.version hself
  omega

theorem delete_files_ne {s : MetadataStore} {p : Text} {row : FileRow} (h : s.lookup p = some row)
    (now : Time) : (s.delete p now).files ≠ s.files := by
  intro heq
  have hself := MetadataStore.lookupAny_delete_self s p now
  rw [MetadataStore.lookupAny, heq, ← MetadataStore.lookupAny,
    (MetadataStore.lookup_eq_some_iff.mp h).1, Option.map_some, Option.some_inj] at hself
  have hversion : row.version = row.version + 1 := congrArg FileRow.version hself
  omega

/-- **A write at a new place that raises.** -/
theorem unchanged_writeNewUnder_iff {j j' : JbodManager} {faults : Faults} {reading : Reading}
    {p : Text} {encrypted : Bytes} {failure : Failure → Failure}
    {record : JbodManager → SourceId → MetadataStore} {done : JbodManager → JbodManager}
    {e : Failure} (hhex : IsUuidHex reading.uuid)
    (hunused : ∀ x ∈ j.sources.rows, x.2.tree.get (freshPath reading p) = none)
    (hrecord : ∀ sourceId s,
      (record (j.withSource sourceId s) sourceId).files ≠ j.metadataStore.files)
    (h : j.writeNewUnder faults reading p encrypted failure record done = (.error e, j')) :
    Unchanged j j' ↔ ∀ sourceId s,
      j.selectSource reading.diskFree encrypted.length = some sourceId →
      j.sources.get sourceId = some s →
      j.NewSpared faults sourceId s
        (s.reach faults.write (generatePhysicalPath reading.uuid p) encrypted.length) := by
  unfold writeNewUnder at h
  cases hselect : j.selectSource reading.diskFree encrypted.length with
  | none =>
      rw [hselect] at h
      rw [← (Prod.mk.inj h).2]
      refine ⟨fun _ _ _ hc => ?_, fun _ => Unchanged.refl j⟩
      cases hc
  | some sourceId =>
      cases hs : j.sources.get sourceId with
      | none =>
          rw [hselect] at h
          dsimp only at h
          rw [hs] at h
          rw [← (Prod.mk.inj h).2]
          refine ⟨fun _ id s hid hget => ?_, fun _ => Unchanged.refl j⟩
          cases hid
          rw [hs] at hget
          cases hget
      | some s =>
          rw [hselect] at h
          dsimp only at h
          rw [hs] at h
          dsimp only at h
          have hnode := hunused (sourceId, s) (Table.mem_rows_of_get hs)
          have hpath : freshPath reading p ≠ [] := by
            obtain ⟨dirs, hdirs⟩ := resolve_generatePhysicalPath hhex p
            rw [freshPath, hdirs]
            exact List.append_ne_nil_of_right_ne_nil _ (List.cons_ne_nil _ _)
          have hwrites := s.writeUnder_writes faults.write
            (generatePhysicalPath reading.uuid p) encrypted
          have hactive : s.reach faults.write (generatePhysicalPath reading.uuid p)
              encrypted.length ≠ .refused → s.isActive = true := StorageSource.isActive_of_reach
          trans j.NewSpared faults sourceId s
            (s.reach faults.write (generatePhysicalPath reading.uuid p) encrypted.length)
          · generalize s.reach faults.write (generatePhysicalPath reading.uuid p) encrypted.length =
              reach at hwrites hactive ⊢
            generalize s.writeUnder faults.write (generatePhysicalPath reading.uuid p) encrypted =
              outcome at hwrites h
            cases hwrites with
            | refused e' =>
                dsimp only at h
                have hj := discardPartialUnder_absent hs hnode faults (failure e')
                rw [withSource_self hs] at h
                rw [h] at hj
                dsimp only at hj
                rw [hj]
                exact ⟨fun _ => trivial, fun _ => Unchanged.refl j⟩
            | @unopened r e' s' hleaves hkept =>
                dsimp only at h
                have hj := discardPartialUnder_absent (get_withSource hs s')
                  ((hkept hpath).trans hnode) faults (failure e')
                rw [h] at hj
                dsimp only at hj
                rw [hj]
                exact unchanged_of_sameFiles_iff hs (hactive (by simp)) hleaves
            | @opened n r e' s' hleaves =>
                have hdiscard := unchanged_discardPartialUnder_iff hs (hactive (by simp)) hnode hleaves
                  faults (failure e')
                dsimp only at h
                rw [h] at hdiscard
                exact hdiscard
            | @written s' hleaves =>
                dsimp only at h
                split_ifs at h with hstatement hcommit
                · have hdiscard := unchanged_discardPartialUnder_iff hs (hactive (by simp)) hnode hleaves
                    faults .database
                  rw [h] at hdiscard
                  rw [hdiscard]
                  exact ⟨fun hc => ⟨hstatement, hc.2⟩, fun hc => ⟨rfl, hc.2⟩⟩
                · have hstore := congrArg (fun out => out.2.metadataStore) h
                  dsimp only at hstore
                  rw [metadataStore_discardPartialUnder] at hstore
                  refine iff_of_false (not_unchanged_of_files ?_) fun hc => hstatement hc.1
                  rw [← hstore]
                  exact hrecord sourceId s'
                · cases (Prod.mk.inj h).1
          · constructor
            · intro hspared id t hid hget
              cases hid
              rw [hs] at hget
              cases hget
              exact hspared
            · intro hall
              exact hall sourceId s rfl hs

/-- **A write in place that raises.** -/
theorem unchanged_overwriteUnder_iff {j j' : JbodManager} {faults : Faults} {reading : Reading}
    {p : Text} {existing : FileRow} {encrypted data : Bytes} {size : Nat} {e : Failure}
    (hrow : j.Held p existing) (hdata : j.decrypt encrypted = .ok data)
    (h : j.overwriteUnder faults reading p existing encrypted size = (.error e, j')) :
    Unchanged j j' ↔ ∀ s, j.sources.get existing.sourceId = some s →
      j.OverwriteSpared faults existing encrypted data s
        (s.reach faults.write existing.physicalPath encrypted.length) := by
  unfold overwriteUnder at h
  cases hs : j.sources.get existing.sourceId with
  | none =>
      rw [hs] at h
      rw [← (Prod.mk.inj h).2]
      refine ⟨fun _ _ hget => ?_, fun _ => Unchanged.refl j⟩
      cases hget
  | some s =>
      rw [hs] at h
      dsimp only at h
      trans j.OverwriteSpared faults existing encrypted data s
        (s.reach faults.write existing.physicalPath encrypted.length)
      · by_cases hinactive : (!s.isActive) = true
        · rw [if_pos hinactive] at h
          have hreach : s.reach faults.write existing.physicalPath encrypted.length = .refused := by
            unfold StorageSource.reach
            exact if_pos (by rw [hinactive, Bool.true_or])
          rw [← (Prod.mk.inj h).2, hreach]
          exact ⟨fun _ => trivial, fun _ => Unchanged.refl j⟩
        rw [if_neg hinactive] at h
        have hactive : s.isActive = true := by simpa using hinactive
        have hplain : j.plainAt existing.location = _ := plainAt_of_active hs hactive rfl
        have hwrites := s.writeUnder_writes faults.write existing.physicalPath encrypted
        generalize s.reach faults.write existing.physicalPath encrypted.length = reach
          at hwrites ⊢
        generalize s.writeUnder faults.write existing.physicalPath encrypted = outcome
          at hwrites h
        have hplace : ∀ contents : Option Bytes, (∀ q row, j.Held q row →
            row.location = (existing.sourceId, resolve existing.physicalPath) →
            (contents.bind fun b => (j.decrypt b).toOption) = j.plainAt row.location) ↔
            (contents.bind fun b => (j.decrypt b).toOption) = j.plainAt existing.location :=
          fun contents => ⟨fun hall => hall p existing hrow rfl, fun hread q row _ hloc => by
            rw [hread, hloc]
            rfl⟩
        cases hwrites with
        | refused e' =>
            rw [← (Prod.mk.inj h).2, withSource_self hs]
            exact ⟨fun _ => trivial, fun _ => Unchanged.refl j⟩
        | unopened hleaves _ =>
            rw [← (Prod.mk.inj h).2]
            exact unchanged_of_sameFiles_iff hs hactive hleaves
        | opened hleaves =>
            rw [← (Prod.mk.inj h).2, unchanged_of_update_iff hs hactive hleaves, hplace]
            exact and_congr ⟨fun hold => hold rfl, fun hold _ => hold⟩ Iff.rfl
        | @written s' hleaves =>
            dsimp only at h
            split_ifs at h with hstatement hcommit
            · rw [← (Prod.mk.inj h).2, unchanged_of_update_iff hs hactive hleaves, hplace,
                if_neg Bool.false_ne_true, Option.bind_some, hdata]
              constructor
              · rintro ⟨-, hread⟩
                exact ⟨hstatement, hread.symm⟩
              · rintro ⟨-, hread⟩
                refine ⟨fun _ => ?_, hread.symm⟩
                rw [hplain, Option.bind_eq_some_iff] at hread
                obtain ⟨b, hb, -⟩ := hread
                exact Option.isSome_iff_exists.mpr ⟨b, hb⟩
            · refine iff_of_false (not_unchanged_of_files ?_) fun hc => hstatement hc.1
              rw [← (Prod.mk.inj h).2]
              exact update_files_ne hrow.1 _ _ _ _ _
            · cases (Prod.mk.inj h).1
      · constructor
        · intro hspared t hget
          cases hget
          exact hspared
        · intro hall
          exact hall s rfl

/-- The tombstone that is not written leaves what there was before it. -/
theorem unchanged_buryUnder_iff {j j₁ j' : JbodManager} {faults : Faults} {now : Time} {p : Text}
    {row : FileRow} {e : Failure} (hstore : j₁.metadataStore = j.metadataStore)
    (hrow : j.metadataStore.lookup p = some row)
    (h : j₁.buryUnder faults now p = (.error e, j')) :
    Unchanged j j' ↔ faults.statement ≠ some .leftOpen ∧ Unchanged j j₁ := by
  unfold buryUnder at h
  dsimp only at h
  cases hstatement : faults.statement with
  | none =>
      rw [hstatement] at h
      cases (Prod.mk.inj h).1
  | some fault =>
      rw [hstatement] at h
      cases fault with
      | undone =>
          rw [← (Prod.mk.inj h).2]
          exact ⟨fun hsame => ⟨by decide, hsame⟩, fun hc => hc.2⟩
      | leftOpen =>
          refine iff_of_false (not_unchanged_of_files ?_) fun hc => hc.1 rfl
          rw [← (Prod.mk.inj h).2, hstore]
          exact delete_files_ne hrow now

/-- **A deletion that raises.** -/
theorem unchanged_deleteFileUnder_iff {j j' : JbodManager} {faults : Faults} {now : Time} {p : Text}
    {e : Failure} (h : j.deleteFileUnder faults now p = (.error e, j')) :
    Unchanged j j' ↔ ∀ metadata, j.metadataStore.lookup p = some metadata →
      j.DeleteSpared faults metadata := by
  unfold deleteFileUnder at h
  cases hlookup : j.metadataStore.lookup p with
  | none =>
      rw [hlookup] at h
      rw [← (Prod.mk.inj h).2]
      refine ⟨fun _ _ hc => ?_, fun _ => Unchanged.refl j⟩
      cases hc
  | some metadata =>
      rw [hlookup] at h
      dsimp only at h
      have hburied : j.buryUnder faults now p = (.error e, j') →
          (Unchanged j j' ↔ faults.statement ≠ some .leftOpen) := by
        intro hbury
        rw [unchanged_buryUnder_iff rfl hlookup hbury]
        exact ⟨fun hc => hc.1, fun hc => ⟨hc, Unchanged.refl j⟩⟩
      trans j.DeleteSpared faults metadata
      · unfold DeleteSpared
        cases howned : j.ownedElsewhere metadata with
        | true =>
            rw [howned] at h
            exact hburied h
        | false =>
            have hrow : j.Held p metadata := ⟨hlookup, howned⟩
            simp only [howned, Bool.false_eq_true, reduceIte] at h ⊢
            cases hs : j.sources.get metadata.sourceId with
            | none =>
                rw [hs] at h
                exact hburied h
            | some s =>
                rw [hs] at h
                dsimp only at h ⊢
                by_cases hinactive : (!s.isActive) = true
                · rw [if_pos hinactive] at h ⊢
                  exact hburied h
                rw [if_neg hinactive] at h ⊢
                have hactive : s.isActive = true := by simpa using hinactive
                have hdeletes :=
                  StorageSource.deleteUnder_deletes hactive faults.delete metadata.physicalPath
                generalize s.deletion faults.delete metadata.physicalPath = deletion
                  at hdeletes ⊢
                generalize s.deleteUnder faults.delete metadata.physicalPath = outcome
                  at hdeletes h
                cases hdeletes with
                | @deleted s' hleaves =>
                    dsimp only at h ⊢
                    have hstore : (j.withSource metadata.sourceId s').metadataStore =
                      j.metadataStore := rfl
                    have hbury := unchanged_buryUnder_iff hstore hlookup h
                    rw [hbury, unchanged_of_update_iff hs hactive hleaves,
                      if_neg Bool.false_ne_true]
                    refine and_congr_right fun _ => ⟨fun hc => ?_, fun hnone => ?_⟩
                    · exact (hc.2 p metadata hrow rfl).symm
                    · refine ⟨fun hc => absurd hc (by decide), fun q row _ hplace => ?_⟩
                      rw [hplace]
                      exact hnone.symm
                | notFound =>
                    dsimp only at h ⊢
                    rw [withSource_self hs] at h
                    exact hburied h
                | missing =>
                    dsimp only at h ⊢
                    rw [withSource_self hs] at h
                    exact hburied h
                | @failed r e' s' hr he hleaves =>
                    have hj : j.withSource metadata.sourceId s' = j' := by
                      split at h
                      · rename_i heq
                        cases (Prod.mk.inj heq).1
                      · rename_i heq
                        exact absurd (Except.error.inj (Prod.mk.inj heq).1) he.1
                      · rename_i heq
                        exact absurd (Except.error.inj (Prod.mk.inj heq).1) he.2
                      · rename_i heq
                        rw [(Prod.mk.inj heq).2]
                        exact (Prod.mk.inj h).2
                    rw [← hj, unchanged_of_sameFiles_iff hs hactive hleaves]
                    cases r with
                    | missing => exact absurd rfl hr
                    | os => exact Iff.rfl
                    | other => exact Iff.rfl
      · constructor
        · intro hspared t hget
          cases hget
          exact hspared
        · intro hall
          exact hall metadata rfl

/-- **A failing write or deletion leaves everything as it was exactly where it is spared.** -/
theorem unchanged_callUnder_iff {j j' : JbodManager} {faults : Faults} {call : FileCall}
    {e : Failure} (hunused : j.DrawsUnused call)
    (h : callUnder faults j call = (.error e, j')) :
    Unchanged j j' ↔ j.Spared faults call := by
  cases call with
  | delete now p => exact unchanged_deleteFileUnder_iff h
  | write reading p data =>
      obtain ⟨hhex, hnew⟩ := hunused
      unfold callUnder writeFileUnder at h
      unfold Spared
      dsimp only at h ⊢
      cases hlookup : j.metadataStore.lookup p with
      | none =>
          rw [hlookup] at h
          exact unchanged_writeNewUnder_iff hhex hnew
            (fun _ _ => insert_files_ne hlookup _ _ _ _ _ _) h
      | some existing =>
          rw [hlookup] at h
          dsimp only at h ⊢
          cases howned : j.ownedElsewhere existing with
          | true =>
              rw [howned, if_pos rfl, takeoverWriteUnder] at h
              exact unchanged_writeNewUnder_iff hhex hnew
                (fun _ _ => update_files_ne hlookup _ _ _ _ _) h
          | false =>
              rw [howned, if_neg Bool.false_ne_true] at h
              exact unchanged_overwriteUnder_iff ⟨hlookup, howned⟩ (decrypt_encrypt j _ data) h

/-- The one file of a volume with a loopback source of a hundred bytes. -/
def loopbackVolume : JbodManager :=
  (writeFile
    { metadataStore := MetadataStore.initial
      sources := Table.empty.insert "s" { kind := .loopback 100 } }
    { now := 0, uuid := List.replicate 32 'a', diskFree := fun _ => 0 } "/a".toList [7, 8]).2

/-- A second file is made, and the disk fails after one of its bytes. -/
def interruptedWrite (virtualPath : Text) : FileCall :=
  .write { now := 1, uuid := List.replicate 32 'b', diskFree := fun _ => 0 } virtualPath [1, 2, 3]

/-- The new file is taken back. -/
theorem unchanged_callUnder_interruptedWrite :
    Unchanged loopbackVolume
      (callUnder { write := some (.writing 1, .os) } loopbackVolume
        (interruptedWrite "/b".toList)).2 := by
  refine (unchanged_callUnder_iff (e := .injected .os) (by decide) (Prod.ext rfl rfl)).mpr ?_
  intro sourceId s hselect hget
  have hfirst : loopbackVolume.selectSource (fun _ => 0) 3 = some "s" := rfl
  rw [show sourceId = "s" from Option.some.inj (hselect.symm.trans hfirst)] at hget
  cases hget
  exact ⟨rfl, rfl⟩

/-- The old contents are gone: the file reads as the one byte that was written. -/
theorem interrupted_overwrite_truncates :
    ¬ ∀ (j j' : JbodManager) (faults : Faults) (call : FileCall) (e : Failure),
      j.DrawsUnused call → callUnder faults j call = (.error e, j') → Unchanged j j' := by
  intro h
  have hsame := h loopbackVolume _ { write := some (.writing 1, .os) }
    (interruptedWrite "/a".toList) (.injected .os) (by decide) (Prod.ext rfl rfl)
  have hreads := hsame.reads (fun _ _ _ => none) "/a".toList
  revert hreads
  decide

end JbodManager

end StardustFS
