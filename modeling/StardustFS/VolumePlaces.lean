import StardustFS.JbodOperations

/-! Where the bytes of a volume are. A place is a source and the names on the way to a file there;
every operation on files is described by the places it may change, and the records this device holds
the bytes of never share one. -/

namespace StardustFS

/-! ### One source -/

namespace StorageSource

/-- Nothing but the changed paths holds other bytes, and a source out of service stays so. -/
structure Frame (changed : List FileName → Prop) (s s' : StorageSource) : Prop where
  active : s'.isActive = true → s.isActive = true
  kept : ∀ q, ¬ changed q → s'.tree.file? q = s.tree.file? q

theorem Frame.refl {changed : List FileName → Prop} (s : StorageSource) : Frame changed s s :=
  ⟨fun h => h, fun _ _ => rfl⟩

theorem isActive_of_raised {s : StorageSource} {e : DirectoryTree.Error} {spared : Bool}
    (h : (s.raised e spared).isActive = true) : s.isActive = true := by
  unfold raised at h
  cases hkind : s.kind with
  | directory =>
      rw [hkind] at h
      dsimp only at h
      split_ifs at h
      exact h
  | loopback sizeBytes =>
      rw [hkind] at h
      exact h

theorem Frame.raised {changed : List FileName → Prop} (s : StorageSource)
    (e : DirectoryTree.Error) (spared : Bool) : Frame changed s (s.raised e spared) :=
  ⟨isActive_of_raised, fun _ _ => by rw [raised_tree]⟩

/-- Making directories leaves the regular files alone. -/
theorem file?_makedirs {t t' : DirectoryTree FileName Bytes} {d : List FileName}
    (h : t.makedirs d = .ok t') (q : List FileName) : t'.file? q = t.file? q := by
  rw [DirectoryTree.file?, DirectoryTree.get_makedirs h]
  split_ifs with hnew
  · rw [DirectoryTree.file?, hnew.1]
  · rfl

theorem read_frame {s s' : StorageSource} {p : Text} {result : Except SourceError Bytes}
    (h : s.read p = (result, s')) : Frame (fun _ => False) s s' := by
  unfold read at h
  split_ifs at h
  · rw [← (Prod.mk.inj h).2]
    exact Frame.refl s
  · split at h
    · rw [← (Prod.mk.inj h).2]
      exact Frame.refl s
    · rw [← (Prod.mk.inj h).2]
      exact Frame.raised s _ _

/-- A write that succeeds puts the bytes at its path and leaves every other file alone. -/
theorem write_ok {s s' : StorageSource} {p : Text} {data : Bytes}
    (h : s.write p data = (.ok (), s')) :
    s.isActive = true ∧ s'.isActive = true ∧
      ∀ q, s'.tree.file? q = if q = resolve p then some data else s.tree.file? q := by
  unfold write at h
  dsimp only at h
  split_ifs at h with hact hroom
  · cases (Prod.mk.inj h).1
  · cases (Prod.mk.inj h).1
  · cases hdirs : s.tree.makedirs (resolve p).dropLast with
    | error e =>
        rw [hdirs] at h
        cases (Prod.mk.inj h).1
    | ok tree =>
        rw [hdirs] at h
        dsimp only at h
        cases hfile : tree.write (resolve p) data with
        | error e =>
            rw [hfile] at h
            cases (Prod.mk.inj h).1
        | ok tree' =>
            rw [hfile] at h
            obtain ⟨-, rfl⟩ := Prod.mk.inj h
            have hactive : s.isActive = true := by simpa using hact
            refine ⟨hactive, hactive, fun q => ?_⟩
            rw [← file?_makedirs hdirs q]
            show tree'.file? q = _
            rw [DirectoryTree.file?, DirectoryTree.get_write hfile q]
            split_ifs
            · rfl
            · rfl

/-- A write that fails leaves every file alone. -/
theorem write_error {s s' : StorageSource} {p : Text} {data : Bytes} {e : SourceError}
    (h : s.write p data = (.error e, s')) : Frame (fun _ => False) s s' := by
  unfold write at h
  dsimp only at h
  split_ifs at h
  · rw [← (Prod.mk.inj h).2]
    exact Frame.refl s
  · rw [← (Prod.mk.inj h).2]
    exact Frame.refl s
  · cases hdirs : s.tree.makedirs (resolve p).dropLast with
    | error e =>
        rw [hdirs] at h
        rw [← (Prod.mk.inj h).2]
        exact Frame.raised s _ _
    | ok tree =>
        rw [hdirs] at h
        dsimp only at h
        cases hfile : tree.write (resolve p) data with
        | ok tree' =>
            rw [hfile] at h
            cases (Prod.mk.inj h).1
        | error e =>
            rw [hfile] at h
            rw [← (Prod.mk.inj h).2]
            refine ⟨fun hactive => ?_, fun q _ => ?_⟩
            · exact isActive_of_raised (s := { s with tree }) hactive
            · rw [raised_tree]
              exact file?_makedirs hdirs q

theorem write_frame {s s' : StorageSource} {p : Text} {data : Bytes}
    {result : Except SourceError Unit} (h : s.write p data = (result, s')) :
    Frame (fun q => q = resolve p) s s' := by
  cases result with
  | ok _ =>
      obtain ⟨hactive, -, hfiles⟩ := write_ok h
      exact ⟨fun _ => hactive, fun q hq => by rw [hfiles q, if_neg hq]⟩
  | error e =>
      have hframe := write_error h
      exact ⟨hframe.active, fun q _ => hframe.kept q not_false⟩

/-- A deletion that succeeds takes the file away and leaves every other file alone. -/
theorem delete_ok {s s' : StorageSource} {p : Text} (h : s.delete p = (.ok (), s')) :
    s.isActive = true ∧ s'.isActive = true ∧
      ∀ q, s'.tree.file? q = if q = resolve p then none else s.tree.file? q := by
  unfold delete at h
  dsimp only at h
  split_ifs at h with hact
  · cases (Prod.mk.inj h).1
  · have hactive : s.isActive = true := by simpa using hact
    cases hfile : s.tree.remove (resolve p) with
    | ok tree =>
        rw [hfile] at h
        obtain ⟨-, rfl⟩ := Prod.mk.inj h
        refine ⟨hactive, hactive, fun q => ?_⟩
        show tree.file? q = _
        rw [DirectoryTree.file?, DirectoryTree.get_remove hfile]
        split_ifs
        · rfl
        · rfl
    | error e =>
        rw [hfile] at h
        dsimp only at h
        split at h
        · cases (Prod.mk.inj h).1
        · obtain ⟨-, rfl⟩ := Prod.mk.inj h
          refine ⟨hactive, hactive, fun q => ?_⟩
          split_ifs with hq
          · rw [hq, ← Option.not_isSome_iff_eq_none, Option.isSome_iff_exists]
            rintro ⟨b, hb⟩
            obtain ⟨t', ht'⟩ := DirectoryTree.exists_remove (DirectoryTree.file?_eq_some_iff.mp hb)
            rw [hfile] at ht'
            cases ht'
          · rfl

/-- A deletion that fails leaves every file alone. -/
theorem delete_error {s s' : StorageSource} {p : Text} {e : SourceError}
    (h : s.delete p = (.error e, s')) : Frame (fun _ => False) s s' := by
  unfold delete at h
  dsimp only at h
  split_ifs at h
  · rw [← (Prod.mk.inj h).2]
    exact Frame.refl s
  · split at h
    · cases (Prod.mk.inj h).1
    · split at h
      · rw [← (Prod.mk.inj h).2]
        exact Frame.raised s _ _
      · cases (Prod.mk.inj h).1

theorem delete_frame {s s' : StorageSource} {p : Text} {result : Except SourceError Unit}
    (h : s.delete p = (result, s')) : Frame (fun q => q = resolve p) s s' := by
  cases result with
  | ok _ =>
      obtain ⟨hactive, -, hfiles⟩ := delete_ok h
      exact ⟨fun _ => hactive, fun q hq => by rw [hfiles q, if_neg hq]⟩
  | error e =>
      have hframe := delete_error h
      exact ⟨hframe.active, fun q _ => hframe.kept q not_false⟩

end StorageSource

/-! ### A volume -/

/-- A source and the names on the way from its root to a file. -/
abbrev Location := SourceId × List FileName

/-- Where the bytes of a record of this device are. -/
def FileRow.location (row : FileRow) : Location :=
  (row.sourceId, StorageSource.resolve row.physicalPath)

namespace JbodManager

/-- The bytes the volume can serve from a place. -/
def bytesAt (j : JbodManager) (place : Location) : Option Bytes :=
  (j.sources.get place.1).bind fun s => if s.isActive then s.tree.file? place.2 else none

theorem bytesAt_eq_some_iff {j : JbodManager} {place : Location} {b : Bytes} :
    j.bytesAt place = some b ↔
      ∃ s, j.sources.get place.1 = some s ∧ s.isActive = true ∧ s.tree.file? place.2 = some b := by
  simp [bytesAt, Option.bind_eq_some_iff]

theorem readLocal_eq_ok_iff {j : JbodManager} {row : FileRow} {data : Bytes} :
    (j.readLocal row).1 = .ok data ↔
      ∃ b, j.bytesAt row.location = some b ∧ j.decrypt b = .ok data := by
  unfold readLocal
  cases hs : j.sources.get row.sourceId with
  | none => simp [bytesAt, FileRow.location, hs]
  | some s =>
      have hbytes : ∀ b, j.bytesAt row.location = some b ↔ (s.read row.physicalPath).1 = .ok b := by
        intro b
        rw [StorageSource.read_eq_ok_iff, bytesAt_eq_some_iff]
        constructor
        · rintro ⟨s', hs', hactive, hfile⟩
          rw [FileRow.location, hs, Option.some_inj] at hs'
          subst hs'
          exact ⟨hactive, hfile⟩
        · rintro ⟨hactive, hfile⟩
          exact ⟨s, hs, hactive, hfile⟩
      simp only [hbytes]
      obtain ⟨result, s', hread⟩ : ∃ result s', s.read row.physicalPath = (result, s') := ⟨_, _, rfl⟩
      cases hactive : s.isActive with
      | false => simp [StorageSource.read, hactive]
      | true =>
          cases result with
          | ok b =>
              simp only [hread, onSource, Except.ok.injEq, exists_eq_left']
              exact Iff.rfl
          | error e => simp [onSource, hread]

theorem readLocal_of_ok (j : JbodManager) (row : FileRow) (data : Bytes)
    (h : (j.readLocal row).1 = .ok data) : (j.readLocal row).2 = j := by
  unfold readLocal at h ⊢
  cases hs : j.sources.get row.sourceId with
  | none => rfl
  | some s =>
      rw [hs] at h
      dsimp only at h ⊢
      split_ifs at h ⊢
      obtain ⟨result, s', hread⟩ : ∃ result s', s.read row.physicalPath = (result, s') := ⟨_, _, rfl⟩
      rw [onSource, hread] at h ⊢
      cases result with
      | error e => cases h
      | ok b =>
          have hsame := StorageSource.read_of_ok (by rw [hread] : (s.read row.physicalPath).1 = .ok b)
          rw [hread] at hsame
          rw [(Prod.mk.inj hsame).2]
          dsimp only
          rw [Table.update_of_get hs]

theorem readFile_of_held {j : JbodManager} (remote : RemoteRead) {p : Text} {row : FileRow}
    (hrow : j.metadataStore.lookup p = some row) (hheld : j.ownedElsewhere row = false) :
    j.readFile remote p = j.readLocal row := by
  unfold readFile
  rw [hrow]
  unfold ownedElsewhere at hheld
  cases howner : row.deviceId with
  | none => simp only [howner]
  | some owner =>
      rw [howner] at hheld
      have hmine : some owner = j.deviceId := by simpa using hheld
      simp only [howner, if_pos hmine]

theorem readFile_of_foreign {j : JbodManager} (remote : RemoteRead) {p : Text} {row : FileRow}
    (hrow : j.metadataStore.lookup p = some row) (hforeign : j.ownedElsewhere row = true) :
    ∃ owner, row.deviceId = some owner ∧ j.readFile remote p = j.readRemote remote owner row := by
  unfold readFile
  rw [hrow]
  unfold ownedElsewhere at hforeign
  cases howner : row.deviceId with
  | none => simp [howner] at hforeign
  | some owner =>
      rw [howner] at hforeign
      have hother : some owner ≠ j.deviceId := by simpa using hforeign
      exact ⟨owner, rfl, by simp only [howner, if_neg hother]⟩

/-- **What a read of a file of this device answers**: its bytes, decrypted. -/
theorem readFile_eq_ok_iff {j : JbodManager} (remote : RemoteRead) {p : Text} {row : FileRow}
    {data : Bytes} (hrow : j.metadataStore.lookup p = some row)
    (hheld : j.ownedElsewhere row = false) :
    (j.readFile remote p).1 = .ok data ↔
      ∃ b, j.bytesAt row.location = some b ∧ j.decrypt b = .ok data := by
  rw [readFile_of_held remote hrow hheld, readLocal_eq_ok_iff]

/-! ### What an operation may change -/

/-- Nothing but the changed places holds bytes it did not hold; the identity and the key are kept. -/
structure Frame (changed : Location → Prop) (j j' : JbodManager) : Prop where
  deviceId : j'.deviceId = j.deviceId
  engine : j'.encryptionEngine = j.encryptionEngine
  kept : ∀ place b, ¬ changed place → j'.bytesAt place = some b → j.bytesAt place = some b

namespace Frame

variable {changed : Location → Prop} {j j' : JbodManager}

theorem refl (j : JbodManager) : Frame changed j j := ⟨rfl, rfl, fun _ _ _ h => h⟩

/-- The records are no part of what a place holds. -/
theorem withRecords (h : Frame changed j j') (metadataStore : MetadataStore) (gcNeeded : Bool) :
    Frame changed j { j' with metadataStore, gcNeeded } :=
  ⟨h.deviceId, h.engine, fun place b hp hb => h.kept place b hp hb⟩

theorem decrypt_eq (h : Frame changed j j') (b : Bytes) : j'.decrypt b = j.decrypt b := by
  unfold JbodManager.decrypt
  rw [h.engine]

end Frame

/-- On every source nothing but the changed places holds other bytes, and no source comes into service;
the identity and the key are kept. -/
structure SourcesFrame (changed : Location → Prop) (j j' : JbodManager) : Prop where
  deviceId : j'.deviceId = j.deviceId
  engine : j'.encryptionEngine = j.encryptionEngine
  source : ∀ id s', j'.sources.get id = some s' → ∃ s, j.sources.get id = some s ∧
    StorageSource.Frame (fun path => changed (id, path)) s s'

namespace SourcesFrame

variable {changed changed' : Location → Prop} {j j' j'' : JbodManager}

theorem refl (j : JbodManager) : SourcesFrame changed j j :=
  ⟨rfl, rfl, fun _ s hs => ⟨s, hs, StorageSource.Frame.refl s⟩⟩

theorem trans (h : SourcesFrame changed j j') (h' : SourcesFrame changed j' j'') :
    SourcesFrame changed j j'' := by
  refine ⟨h'.deviceId.trans h.deviceId, h'.engine.trans h.engine, fun id s'' hs'' => ?_⟩
  obtain ⟨s', hs', hlast⟩ := h'.source id s'' hs''
  obtain ⟨s, hs, hfirst⟩ := h.source id s' hs'
  exact ⟨s, hs, fun hactive => hfirst.active (hlast.active hactive),
    fun q hq => (hlast.kept q hq).trans (hfirst.kept q hq)⟩

theorem mono (h : SourcesFrame changed j j') (himp : ∀ place, changed place → changed' place) :
    SourcesFrame changed' j j' := by
  refine ⟨h.deviceId, h.engine, fun id s' hs' => ?_⟩
  obtain ⟨s, hs, hframe⟩ := h.source id s' hs'
  exact ⟨s, hs, hframe.active, fun q hq => hframe.kept q fun hc => hq (himp _ hc)⟩

/-- The records are no part of what a place holds. -/
theorem withRecords (h : SourcesFrame changed j j') (metadataStore : MetadataStore)
    (gcNeeded : Bool) : SourcesFrame changed j { j' with metadataStore, gcNeeded } :=
  ⟨h.deviceId, h.engine, h.source⟩

/-- An operation on one source changes places of that source. -/
theorem onSource {sourceId : SourceId} {s s' : StorageSource} {paths : List FileName → Prop}
    (hs : j.sources.get sourceId = some s) (h : StorageSource.Frame paths s s')
    (hchanged : ∀ path, paths path → changed (sourceId, path)) :
    SourcesFrame changed j { j with sources := j.sources.update sourceId fun _ => s' } := by
  refine ⟨rfl, rfl, fun id t ht => ?_⟩
  dsimp only at ht
  rw [Table.get_update] at ht
  split_ifs at ht with hid
  · subst hid
    rw [hs, Option.map_some, Option.some_inj] at ht
    subst ht
    exact ⟨s, hs, h.active, fun q hq => h.kept q fun hpath => hq (hchanged q hpath)⟩
  · exact ⟨t, ht, StorageSource.Frame.refl t⟩

theorem frame (h : SourcesFrame changed j j') : Frame changed j j' := by
  refine ⟨h.deviceId, h.engine, fun place b hp hb => ?_⟩
  obtain ⟨s', hs', hactive, hfile⟩ := bytesAt_eq_some_iff.mp hb
  obtain ⟨s, hs, hframe⟩ := h.source place.1 s' hs'
  exact bytesAt_eq_some_iff.mpr ⟨s, hs, hframe.active hactive, by rw [← hframe.kept _ hp]; exact hfile⟩

end SourcesFrame

/-- The path a new file goes to, for the UUID that was drawn. -/
def freshPath (reading : Reading) (p : Text) : List FileName :=
  StorageSource.resolve (generatePhysicalPath reading.uuid p)

theorem discardPartial_sources {j j' : JbodManager} {sourceId : SourceId} {p : Text} {e : JbodError}
    {result : Except JbodError Unit} (h : j.discardPartial sourceId p e = (result, j')) :
    SourcesFrame (fun place => place = (sourceId, StorageSource.resolve p)) j j' ∧
      j'.metadataStore = j.metadataStore := by
  have hsame : SourcesFrame (fun place => place = (sourceId, StorageSource.resolve p)) j j ∧
      j.metadataStore = j.metadataStore := ⟨SourcesFrame.refl j, rfl⟩
  unfold discardPartial at h
  split at h
  · exact (Prod.mk.inj h).2 ▸ hsame
  · rename_i s hs
    split at h
    · exact (Prod.mk.inj h).2 ▸ hsame
    · exact (Prod.mk.inj h).2 ▸ hsame
    · have hdeleted : ∀ {r j₁}, j.onSource sourceId s (·.delete p) = (r, j₁) →
          SourcesFrame (fun place => place = (sourceId, StorageSource.resolve p)) j j₁ ∧
            j₁.metadataStore = j.metadataStore := by
        intro r j₁ hop
        obtain ⟨s', hdelete, rfl⟩ := onSource_eq hop
        exact ⟨SourcesFrame.onSource hs (StorageSource.delete_frame hdelete) fun _ hq => by rw [hq], rfl⟩
      split at h
      · rename_i hop
        exact (Prod.mk.inj h).2 ▸ hdeleted hop
      · rename_i hop
        exact (Prod.mk.inj h).2 ▸ hdeleted hop

theorem onSource_write_sources {j j' : JbodManager} {sourceId : SourceId} {s : StorageSource}
    {reading : Reading} {p : Text} {data : Bytes} {result : Except SourceError Unit}
    (hs : j.sources.get sourceId = some s)
    (h : j.onSource sourceId s (·.write (generatePhysicalPath reading.uuid p) data) =
      (result, j')) : SourcesFrame (fun place => place.2 = freshPath reading p) j j' := by
  obtain ⟨s', hwrite, rfl⟩ := onSource_eq h
  exact SourcesFrame.onSource hs (StorageSource.write_frame hwrite) fun _ hq => hq

/-- What is discarded after a failed write is at the path that was written. -/
theorem discardPartial_fresh {j j₁ j' : JbodManager} {reading : Reading} {p : Text}
    {sourceId : SourceId} {e : JbodError} {result : Except JbodError Unit}
    (hwritten : SourcesFrame (fun place => place.2 = freshPath reading p) j j₁)
    (h : j₁.discardPartial sourceId (generatePhysicalPath reading.uuid p) e = (result, j')) :
    SourcesFrame (fun place => place.2 = freshPath reading p) j j' := by
  refine hwritten.trans ((discardPartial_sources h).1.mono fun place hplace => ?_)
  rw [hplace]
  rfl

/-- A write at a new place, ended by recording it or by cleaning up, touches that path only. -/
theorem writeNew_sources {j j' : JbodManager} {reading : Reading} {p : Text} {encrypted : Bytes}
    {failure : SourceError → JbodError} {record : JbodManager → SourceId → JbodManager}
    {result : Except JbodError Unit}
    (hrecord : ∀ j sourceId, ∃ metadataStore gcNeeded,
      record j sourceId = { j with metadataStore, gcNeeded })
    (h : j.writeNew reading p encrypted failure record = (result, j')) :
    SourcesFrame (fun place => place.2 = freshPath reading p) j j' ∧
      (result ≠ .ok () → j'.metadataStore = j.metadataStore) := by
  unfold writeNew at h
  split at h
  · exact (Prod.mk.inj h).2 ▸ ⟨SourcesFrame.refl j, fun _ => rfl⟩
  · dsimp only at h
    split at h
    · exact (Prod.mk.inj h).2 ▸ ⟨SourcesFrame.refl j, fun _ => rfl⟩
    · rename_i s hs
      split at h
      · rename_i hop
        have hrecords := (discardPartial_sources h).2
        obtain ⟨s', -, rfl⟩ := onSource_eq hop
        exact ⟨discardPartial_fresh (onSource_write_sources hs hop) h, fun _ => hrecords⟩
      · rename_i j₁ hop
        obtain ⟨hresult, hj⟩ := Prod.mk.inj h
        obtain ⟨metadataStore, gcNeeded, hrec⟩ := hrecord j₁ _
        rw [← hj, hrec]
        exact ⟨(onSource_write_sources hs hop).withRecords _ _,
          fun hne => absurd hresult.symm hne⟩

/-- A read changes nothing, except that it may find a source out of service. -/
theorem readFile_sources {j j' : JbodManager} {remote : RemoteRead} {p : Text}
    {result : Except JbodError Bytes} (h : j.readFile remote p = (result, j')) :
    SourcesFrame (fun _ => False) j j' ∧ j'.metadataStore = j.metadataStore ∧
      ∀ data, result = .ok data → j' = j := by
  have hsame : ∀ {r : Except JbodError Bytes}, (r, j) = (result, j') →
      SourcesFrame (fun _ => False) j j' ∧ j'.metadataStore = j.metadataStore ∧
        ∀ data, result = .ok data → j' = j := by
    intro r heq
    obtain ⟨-, rfl⟩ := Prod.mk.inj heq
    exact ⟨SourcesFrame.refl j, rfl, fun _ _ => rfl⟩
  cases hlookup : j.metadataStore.lookup p with
  | none =>
      rw [readFile, hlookup] at h
      exact hsame h
  | some row =>
      cases howner : j.ownedElsewhere row with
      | true =>
          obtain ⟨owner, -, hread⟩ := readFile_of_foreign remote hlookup howner
          rw [hread, readRemote] at h
          split at h
          · exact hsame h
          · exact hsame h
      | false =>
          rw [readFile_of_held remote hlookup howner] at h
          have hok : ∀ data, result = .ok data → j' = j := by
            intro data hdata
            have hlocal := readLocal_of_ok j row data (by rw [h, hdata])
            rw [h] at hlocal
            exact hlocal
          rw [readLocal] at h
          split at h
          · exact hsame h
          · rename_i s hs
            split_ifs at h
            · exact hsame h
            · split at h
              · rename_i hop
                obtain ⟨s', hread, rfl⟩ := onSource_eq hop
                obtain ⟨-, rfl⟩ := Prod.mk.inj h
                exact ⟨SourcesFrame.onSource hs (StorageSource.read_frame hread) fun _ hq => hq.elim,
                  rfl, hok⟩
              · rename_i hop
                obtain ⟨s', hread, rfl⟩ := onSource_eq hop
                obtain ⟨-, rfl⟩ := Prod.mk.inj h
                exact ⟨SourcesFrame.onSource hs (StorageSource.read_frame hread) fun _ hq => hq.elim,
                  rfl, hok⟩

/-- A write in place touches the place of the record, and not even that where it fails. -/
theorem overwrite_sources {j j' : JbodManager} {reading : Reading} {p : Text} {existing : FileRow}
    {encrypted : Bytes} {size : Nat} {result : Except JbodError Unit}
    (h : j.overwrite reading p existing encrypted size = (result, j')) :
    SourcesFrame (fun place => result = .ok () ∧ place = existing.location) j j' ∧
      (result ≠ .ok () → j'.metadataStore = j.metadataStore) := by
  unfold overwrite at h
  split at h
  · exact (Prod.mk.inj h).2 ▸ ⟨SourcesFrame.refl j, fun _ => rfl⟩
  · rename_i s hs
    split_ifs at h
    · exact (Prod.mk.inj h).2 ▸ ⟨SourcesFrame.refl j, fun _ => rfl⟩
    · split at h
      · rename_i hop
        obtain ⟨s', hwrite, rfl⟩ := onSource_eq hop
        obtain ⟨-, rfl⟩ := Prod.mk.inj h
        exact ⟨SourcesFrame.onSource hs (StorageSource.write_error hwrite) fun _ hq => hq.elim,
          fun _ => rfl⟩
      · rename_i hop
        obtain ⟨s', hwrite, rfl⟩ := onSource_eq hop
        obtain ⟨hresult, hj⟩ := Prod.mk.inj h
        have hwritten : SourcesFrame (fun place => result = .ok () ∧ place = existing.location) j
            { j with sources := j.sources.update existing.sourceId fun _ => s' } :=
          SourcesFrame.onSource hs (StorageSource.write_frame hwrite) fun path hq =>
            ⟨hresult.symm, by rw [hq]; rfl⟩
        exact ⟨hj ▸ hwritten.withRecords _ _, fun hne => absurd hresult.symm hne⟩

/-- **A write, whatever its outcome**, touches the path of a new file and, where it succeeds over a
file of this device, the place of that file. A failed one leaves the records alone. -/
theorem writeFile_sources {j j' : JbodManager} {reading : Reading} {p : Text} {data : Bytes}
    {result : Except JbodError Unit} (h : j.writeFile reading p data = (result, j')) :
    SourcesFrame (fun place => place.2 = freshPath reading p ∨ result = .ok () ∧
        ∃ existing, j.metadataStore.lookup p = some existing ∧
          j.ownedElsewhere existing = false ∧ place = existing.location) j j' ∧
      (result ≠ .ok () → j'.metadataStore = j.metadataStore) := by
  unfold writeFile at h
  dsimp only at h
  split at h
  · rename_i existing hlookup
    split_ifs at h with howner
    · rw [takeoverWrite_eq] at h
      obtain ⟨hframe, hrecords⟩ := writeNew_sources (fun _ _ => ⟨_, _, rfl⟩) h
      exact ⟨hframe.mono fun _ => Or.inl, hrecords⟩
    · obtain ⟨hframe, hrecords⟩ := overwrite_sources h
      refine ⟨hframe.mono fun place hplace => Or.inr ⟨hplace.1, existing, hlookup, ?_, hplace.2⟩,
        hrecords⟩
      simpa using howner
  · rw [createFile_eq] at h
    obtain ⟨hframe, hrecords⟩ := writeNew_sources (fun _ _ => ⟨_, _, rfl⟩) h
    exact ⟨hframe.mono fun _ => Or.inl, hrecords⟩

/-- **A deletion, whatever its outcome**, touches the place of a file of this device, and not even
that where it fails. -/
theorem deleteFile_sources {j j' : JbodManager} {now : Time} {p : Text}
    {result : Except JbodError Unit} (h : j.deleteFile now p = (result, j')) :
    SourcesFrame (fun place => result = .ok () ∧ ∃ row, j.metadataStore.lookup p = some row ∧
        j.ownedElsewhere row = false ∧ place = row.location) j j' ∧
      (result ≠ .ok () → j'.metadataStore = j.metadataStore) := by
  unfold deleteFile at h
  split at h
  · exact (Prod.mk.inj h).2 ▸ ⟨SourcesFrame.refl j, fun _ => rfl⟩
  · rename_i row hlookup
    dsimp only at h
    have hburied : ∀ {j₁ : JbodManager},
        ((.ok () : Except JbodError Unit),
          ({ j₁ with metadataStore := j₁.metadataStore.delete p now } : JbodManager)) = (result, j') →
        SourcesFrame (fun place => ∃ row, j.metadataStore.lookup p = some row ∧
          j.ownedElsewhere row = false ∧ place = row.location) j j₁ →
        SourcesFrame (fun place => result = .ok () ∧ ∃ row, j.metadataStore.lookup p = some row ∧
          j.ownedElsewhere row = false ∧ place = row.location) j j' ∧
        (result ≠ .ok () → j'.metadataStore = j.metadataStore) := by
      intro j₁ heq hframe
      obtain ⟨hresult, rfl⟩ := Prod.mk.inj heq
      exact ⟨(hframe.mono fun _ hplace => ⟨hresult.symm, hplace⟩).withRecords _ _,
        fun hne => absurd hresult.symm hne⟩
    split_ifs at h with howner
    · exact hburied h (SourcesFrame.refl j)
    · split at h
      · exact hburied h (SourcesFrame.refl j)
      · rename_i s hs
        split_ifs at h
        · exact hburied h (SourcesFrame.refl j)
        · have hdeleted : ∀ {r j₁}, j.onSource row.sourceId s (·.delete row.physicalPath) = (r, j₁) →
              SourcesFrame (fun place => ∃ row, j.metadataStore.lookup p = some row ∧
                j.ownedElsewhere row = false ∧ place = row.location) j j₁ := by
            intro r j₁ hop
            obtain ⟨s', hdelete, rfl⟩ := onSource_eq hop
            refine SourcesFrame.onSource hs (StorageSource.delete_frame hdelete) fun path hq => ?_
            exact ⟨row, hlookup, by simpa using howner, by rw [hq]; rfl⟩
          split at h
          · rename_i hop
            exact hburied h (hdeleted hop)
          · rename_i hop
            exact hburied h (hdeleted hop)
          · rename_i hop
            obtain ⟨s', hdelete, rfl⟩ := onSource_eq hop
            obtain ⟨-, rfl⟩ := Prod.mk.inj h
            exact ⟨SourcesFrame.onSource hs (StorageSource.delete_error hdelete) fun _ hq => hq.elim,
              fun _ => rfl⟩

theorem readFile_frame {j j' : JbodManager} {remote : RemoteRead} {p : Text}
    {result : Except JbodError Bytes} (h : j.readFile remote p = (result, j')) :
    Frame (fun _ => False) j j' ∧ j'.metadataStore = j.metadataStore ∧
      ∀ data, result = .ok data → j' = j :=
  ⟨(readFile_sources h).1.frame, (readFile_sources h).2⟩

theorem writeFile_frame {j j' : JbodManager} {reading : Reading} {p : Text} {data : Bytes}
    {result : Except JbodError Unit} (h : j.writeFile reading p data = (result, j')) :
    Frame (fun place => place.2 = freshPath reading p ∨ result = .ok () ∧
        ∃ existing, j.metadataStore.lookup p = some existing ∧
          j.ownedElsewhere existing = false ∧ place = existing.location) j j' ∧
      (result ≠ .ok () → j'.metadataStore = j.metadataStore) :=
  ⟨(writeFile_sources h).1.frame, (writeFile_sources h).2⟩

theorem deleteFile_frame {j j' : JbodManager} {now : Time} {p : Text}
    {result : Except JbodError Unit} (h : j.deleteFile now p = (result, j')) :
    Frame (fun place => result = .ok () ∧ ∃ row, j.metadataStore.lookup p = some row ∧
        j.ownedElsewhere row = false ∧ place = row.location) j j' ∧
      (result ≠ .ok () → j'.metadataStore = j.metadataStore) :=
  ⟨(deleteFile_sources h).1.frame, (deleteFile_sources h).2⟩

/-- A move leaves the volume alone or takes the record of one path to another. -/
theorem moveFile_cases {j j' : JbodManager} {src dst : Text} {result : Except JbodError Unit}
    (h : j.moveFile src dst = (result, j')) :
    j' = j ∨ src ≠ dst ∧ ∃ row metadataStore, j.metadataStore.lookup src = some row ∧
      j' = { j with metadataStore } ∧ ∀ k, metadataStore.lookupAny k =
        if k = dst then some row else if k = src then none else j.metadataStore.lookupAny k := by
  unfold moveFile at h
  split at h
  · exact Or.inl (Prod.mk.inj h).2.symm
  · rename_i row hrow
    split at h
    · exact Or.inl (Prod.mk.inj h).2.symm
    · rename_i s hs
      have hany := (MetadataStore.lookup_eq_some_iff.mp hrow).1
      by_cases hne : src = dst
      · subst hne
        rw [MetadataStore.renamePath, Option.map_eq_some_iff] at hs
        obtain ⟨files, hfiles, rfl⟩ := hs
        rw [Table.rename?, dif_pos (Table.mem_keys_iff.mpr ⟨row, hany⟩), if_pos rfl,
          Option.some_inj] at hfiles
        subst hfiles
        exact Or.inl (Prod.mk.inj h).2.symm
      · exact Or.inr ⟨hne, row, s, hrow, (Prod.mk.inj h).2.symm,
          MetadataStore.lookupAny_renamePath hany hne hs⟩

/-! ### The places of the records -/

/-- The path has a live record whose bytes are this device's to hold. -/
def Held (j : JbodManager) (p : Text) (row : FileRow) : Prop :=
  j.metadataStore.lookup p = some row ∧ j.ownedElsewhere row = false

/-- **No two files of this device share their place.** -/
def PlacesApart (j : JbodManager) : Prop :=
  ∀ p q row row', j.Held p row → j.Held q row' → row.location = row'.location → p = q

/-- The UUID that was drawn for the path is in no record. -/
def FreshUuid (j : JbodManager) (reading : Reading) (p : Text) : Prop :=
  ∀ x ∈ j.metadataStore.files.rows,
    StorageSource.resolve x.2.physicalPath ≠ freshPath reading p

instance (j : JbodManager) (reading : Reading) (p : Text) : Decidable (j.FreshUuid reading p) :=
  inferInstanceAs (Decidable (∀ x ∈ j.metadataStore.files.rows, _ ≠ _))

theorem FreshUuid.ne {j : JbodManager} {reading : Reading} {p q : Text} {row : FileRow}
    (h : j.FreshUuid reading p) (hrow : j.Held q row) : row.location.2 ≠ freshPath reading p :=
  h (q, row) (Table.mem_rows_of_get (MetadataStore.lookup_eq_some_iff.mp hrow.1).1)

theorem PlacesApart.of_subset {j j' : JbodManager} (h : j.PlacesApart)
    (hsub : ∀ p row, j'.Held p row → j.Held p row) : j'.PlacesApart :=
  fun p q row row' hrow hrow' hplace => h p q row row' (hsub p row hrow) (hsub q row' hrow') hplace

theorem writtenRow_place (old : Option FileRow) (now : Time) (size : Nat)
    (deviceId : Option DeviceId) (place : SourceId × Text) :
    (writtenRow old now size deviceId place).location =
      (place.1, StorageSource.resolve place.2) := by
  unfold writtenRow
  cases old with
  | none => rfl
  | some r =>
      dsimp only
      split_ifs <;> rfl

theorem writtenRow_physicalPath (old : Option FileRow) (now : Time) (size : Nat)
    (deviceId : Option DeviceId) (place : SourceId × Text) :
    (writtenRow old now size deviceId place).physicalPath = place.2 := by
  unfold writtenRow
  cases old with
  | none => rfl
  | some r =>
      dsimp only
      split_ifs <;> rfl

theorem writtenRow_deleted (old : Option FileRow) (now : Time) (size : Nat)
    (deviceId : Option DeviceId) (place : SourceId × Text) :
    (writtenRow old now size deviceId place).deleted = false := by
  unfold writtenRow
  cases old with
  | none => rfl
  | some r =>
      dsimp only
      split_ifs with hdel
      · rfl
      · simpa [MetadataStore.edited] using hdel

/-- The replication status is not among the columns a write sets. -/
theorem writtenRow_replicationStatus (old : Option FileRow) (now : Time) (size : Nat)
    (deviceId : Option DeviceId) (place : SourceId × Text) :
    (writtenRow old now size deviceId place).replicationStatus =
      (old.map FileRow.replicationStatus).getD .none := by
  unfold writtenRow
  cases old with
  | none => rfl
  | some r =>
      dsimp only
      split_ifs <;> rfl

/-- The bytes of a write go to a path made for it, or over the file of this device at its path. -/
theorem writeTarget_path {j : JbodManager} {reading : Reading} {p : Text} {data : Bytes}
    {place : SourceId × Text} (h : j.writeTarget reading p data = some place) :
    place.2 = generatePhysicalPath reading.uuid p ∨
      ∃ existing, j.Held p existing ∧ place = (existing.sourceId, existing.physicalPath) := by
  unfold writeTarget at h
  dsimp only at h
  have hfresh : ∀ {sourceId : Option SourceId},
      sourceId.map (fun id => (id, generatePhysicalPath reading.uuid p)) = some place →
      place.2 = generatePhysicalPath reading.uuid p := by
    intro sourceId hmap
    obtain ⟨id, -, rfl⟩ := Option.map_eq_some_iff.mp hmap
    rfl
  split at h
  · rename_i existing hlookup
    split_ifs at h with howner
    · exact Or.inl (hfresh h)
    · exact Or.inr ⟨existing, ⟨hlookup, by simpa using howner⟩, (Option.some_inj.mp h).symm⟩
  · exact Or.inl (hfresh h)

/-- The bytes of a write go to a path nothing has, or over the file of this device at its path. -/
theorem writeTarget_cases {j : JbodManager} {reading : Reading} {p : Text} {data : Bytes}
    {place : SourceId × Text} (h : j.writeTarget reading p data = some place) :
    StorageSource.resolve place.2 = freshPath reading p ∨
      ∃ existing, j.Held p existing ∧ place = (existing.sourceId, existing.physicalPath) :=
  (writeTarget_path h).imp_left fun hpath => by rw [hpath, freshPath]

namespace Written

variable {j j' : JbodManager} {reading : Reading} {p : Text} {data : Bytes} {place : SourceId × Text}

theorem lookup_self (h : Written j j' reading p data place) :
    j'.metadataStore.lookup p = some
      (writtenRow (j.metadataStore.lookupAny p) reading.now data.length j.deviceId place) := by
  refine MetadataStore.lookup_eq_some_iff.mpr ⟨?_, writtenRow_deleted _ _ _ _ _⟩
  rw [h.rows, if_pos rfl]

theorem lookup_of_ne (h : Written j j' reading p data place) {q : Text} (hq : q ≠ p) :
    j'.metadataStore.lookup q = j.metadataStore.lookup q := by
  rw [MetadataStore.lookup, MetadataStore.lookup, h.rows, if_neg hq]

theorem held_of_ne (h : Written j j' reading p data place) {q : Text} {row : FileRow}
    (hq : q ≠ p) (hrow : j'.Held q row) : j.Held q row := by
  obtain ⟨hlookup, howned⟩ := hrow
  rw [h.lookup_of_ne hq] at hlookup
  refine ⟨hlookup, ?_⟩
  rw [ownedElsewhere, h.deviceId] at howned
  exact howned

/-- The place of the written file is nobody else's. -/
theorem place_ne (h : Written j j' reading p data place) (hapart : j.PlacesApart)
    (hfresh : j.FreshUuid reading p) {q : Text} {row : FileRow} (hq : q ≠ p) (hrow : j.Held q row) :
    row.location ≠ (place.1, StorageSource.resolve place.2) := by
  intro heq
  rcases writeTarget_cases h.target with hpath | ⟨existing, hexisting, rfl⟩
  · exact hfresh.ne hrow (by rw [heq]; exact hpath)
  · exact hq (hapart q p row existing hrow hexisting heq)

/-- What was written is what the place holds. -/
theorem bytesAt_self (h : Written j j' reading p data place) :
    j'.bytesAt (place.1, StorageSource.resolve place.2) = some (j.encrypt reading.iv data) := by
  obtain ⟨s, s', hs, hwrite, hsources⟩ := h.stored
  obtain ⟨-, hactive, hfiles⟩ := StorageSource.write_ok hwrite
  refine bytesAt_eq_some_iff.mpr ⟨s', ?_, hactive, ?_⟩
  · rw [hsources, Table.get_update_self, hs]
    rfl
  · rw [hfiles, if_pos rfl]

/-- Every other place holds what it held. -/
theorem bytesAt_of_ne (h : Written j j' reading p data place) {other : Location}
    (hne : other ≠ (place.1, StorageSource.resolve place.2)) : j'.bytesAt other = j.bytesAt other := by
  obtain ⟨s, s', hs, hwrite, hsources⟩ := h.stored
  obtain ⟨hactive, hactive', hfiles⟩ := StorageSource.write_ok hwrite
  rw [bytesAt, bytesAt, hsources, Table.get_update]
  split_ifs with hid
  · have hpath : other.2 ≠ StorageSource.resolve place.2 := fun h => hne (Prod.ext hid h)
    rw [hid, hs, Option.map_some, Option.bind_some, Option.bind_some, if_pos hactive, if_pos hactive',
      hfiles, if_neg hpath]
  · rfl

end Written

theorem held_setReplicationStatus {j : JbodManager} {p q : Text} {st : ReplicationStatus}
    {row : FileRow} (h : Held { j with
      metadataStore := j.metadataStore.setReplicationStatus p st } q row) :
    q ≠ p ∧ j.Held q row ∨
      q = p ∧ ∃ r, j.Held p r ∧ row = { r with replicationStatus := st } := by
  obtain ⟨hlookup, howned⟩ := h
  obtain ⟨hany, hlive⟩ := MetadataStore.lookup_eq_some_iff.mp hlookup
  dsimp only at hany
  rw [MetadataStore.lookupAny_setReplicationStatus] at hany
  split_ifs at hany with hq
  · subst hq
    obtain ⟨r, hr, rfl⟩ := Option.map_eq_some_iff.mp hany
    exact Or.inr ⟨rfl, r, ⟨MetadataStore.lookup_eq_some_iff.mpr ⟨hr, hlive⟩, howned⟩, rfl⟩
  · exact Or.inl ⟨hq, MetadataStore.lookup_eq_some_iff.mpr ⟨hany, hlive⟩, howned⟩

theorem held_of_records {j j' : JbodManager} (hrecords : j'.metadataStore = j.metadataStore)
    (hdevice : j'.deviceId = j.deviceId) {p : Text} {row : FileRow} (h : j'.Held p row) :
    j.Held p row := by
  obtain ⟨hlookup, howned⟩ := h
  rw [hrecords] at hlookup
  rw [ownedElsewhere, hdevice] at howned
  exact ⟨hlookup, howned⟩

/-- A file that reads after an operation and is in a place it left alone has read so before. -/
theorem readFile_of_frame {changed : Location → Prop} {j j' : JbodManager} {remote : RemoteRead}
    {p q : Text} {row : FileRow} {data : Bytes} (hframe : Frame changed j j') (hp : j.Held p row)
    (hq : j'.Held q row) (hplace : ¬ changed row.location) (h : (j'.readFile remote q).1 = .ok data) :
    (j.readFile remote p).1 = .ok data := by
  obtain ⟨b, hb, hdecrypt⟩ := (readFile_eq_ok_iff _ hq.1 hq.2).mp h
  rw [hframe.decrypt_eq] at hdecrypt
  exact (readFile_eq_ok_iff _ hp.1 hp.2).mpr ⟨b, hframe.kept _ b hplace hb, hdecrypt⟩

theorem decrypt_encrypt (j : JbodManager) (iv data : Bytes) :
    j.decrypt (j.encrypt iv data) = .ok data := by
  unfold decrypt encrypt
  cases j.encryptionEngine with
  | none => rfl
  | some engine => simp only [engine.decrypt_encrypt]

/-- A file of this device reads back what was written to it. -/
theorem Written.readFile_eq {j j' : JbodManager} {reading : Reading} {p : Text} {data : Bytes}
    {place : SourceId × Text} (h : Written j j' reading p data place) {row : FileRow}
    (hrow : j'.Held p row) (remote : RemoteRead) : (j'.readFile remote p).1 = .ok data := by
  refine (readFile_eq_ok_iff _ hrow.1 hrow.2).mpr ⟨j.encrypt reading.iv data, ?_, ?_⟩
  · have hlookup := hrow.1
    rw [h.lookup_self, Option.some_inj] at hlookup
    rw [← hlookup, writtenRow_place, h.bytesAt_self]
  · have hdecrypt := decrypt_encrypt j reading.iv data
    rw [decrypt] at hdecrypt ⊢
    rw [h.engine]
    exact hdecrypt

theorem placesApart_writeFile {j j' : JbodManager} {reading : Reading} {p : Text} {data : Bytes}
    {result : Except JbodError Unit} (hapart : j.PlacesApart) (hfresh : j.FreshUuid reading p)
    (h : j.writeFile reading p data = (result, j')) : j'.PlacesApart := by
  cases result with
  | error e =>
      obtain ⟨hframe, hrecords⟩ := writeFile_frame h
      exact hapart.of_subset fun q row =>
        held_of_records (hrecords (fun heq => nomatch heq)) hframe.deviceId
  | ok _ =>
      obtain ⟨place, hw⟩ := writeFile_ok h
      have hself : ∀ row, j'.Held p row → row.location = (place.1, StorageSource.resolve place.2) := by
        intro row hrow
        have hlookup := hrow.1
        rw [hw.lookup_self, Option.some_inj] at hlookup
        rw [← hlookup, writtenRow_place]
      intro q q' row row' hrow hrow' hplace
      by_cases hq : q = p
      · by_cases hq' : q' = p
        · rw [hq, hq']
        · rw [hself row (hq ▸ hrow)] at hplace
          exact absurd hplace.symm (hw.place_ne hapart hfresh hq' (hw.held_of_ne hq' hrow'))
      · by_cases hq' : q' = p
        · rw [hself row' (hq' ▸ hrow')] at hplace
          exact absurd hplace (hw.place_ne hapart hfresh hq (hw.held_of_ne hq hrow))
        · exact hapart q q' row row' (hw.held_of_ne hq hrow) (hw.held_of_ne hq' hrow') hplace

theorem lookup_delete {s : MetadataStore} {p q : Text} {now : Time} {row : FileRow}
    (h : (s.delete p now).lookup q = some row) : q ≠ p ∧ s.lookup q = some row := by
  obtain ⟨hany, hlive⟩ := MetadataStore.lookup_eq_some_iff.mp h
  by_cases hq : q = p
  · subst hq
    rw [MetadataStore.lookupAny_delete_self] at hany
    obtain ⟨r, -, rfl⟩ := Option.map_eq_some_iff.mp hany
    cases hlive
  · rw [MetadataStore.lookupAny_delete_of_ne _ _ hq] at hany
    exact ⟨hq, MetadataStore.lookup_eq_some_iff.mpr ⟨hany, hlive⟩⟩

/-- After a deletion the files of this device are among those it had, and where it succeeded the
deleted one is not among them. -/
theorem held_deleteFile {j j' : JbodManager} {now : Time} {p : Text}
    {result : Except JbodError Unit} (h : j.deleteFile now p = (result, j')) {q : Text}
    {row : FileRow} (hrow : j'.Held q row) : j.Held q row ∧ (result = .ok () → q ≠ p) := by
  cases result with
  | error e =>
      obtain ⟨hframe, hrecords⟩ := deleteFile_frame h
      exact ⟨held_of_records (hrecords (fun heq => nomatch heq)) hframe.deviceId hrow,
        fun heq => nomatch heq⟩
  | ok _ =>
      obtain ⟨metadata, -, hstore, hdevice, -⟩ := deleteFile_ok h
      obtain ⟨hlookup, howned⟩ := hrow
      rw [hstore] at hlookup
      rw [ownedElsewhere, hdevice] at howned
      obtain ⟨hne, hlookup⟩ := lookup_delete hlookup
      exact ⟨⟨hlookup, howned⟩, fun _ => hne⟩

theorem placesApart_deleteFile {j j' : JbodManager} {now : Time} {p : Text}
    {result : Except JbodError Unit} (hapart : j.PlacesApart)
    (h : j.deleteFile now p = (result, j')) : j'.PlacesApart :=
  hapart.of_subset fun _ _ hrow => (held_deleteFile h hrow).1

theorem placesApart_setReplicationStatus {j : JbodManager} (hapart : j.PlacesApart) (p : Text)
    (st : ReplicationStatus) :
    PlacesApart { j with metadataStore := j.metadataStore.setReplicationStatus p st } := by
  have hbefore : ∀ {q row}, Held { j with
      metadataStore := j.metadataStore.setReplicationStatus p st } q row →
      ∃ r, j.Held q r ∧ row.location = r.location := by
    intro q row hrow
    rcases held_setReplicationStatus hrow with ⟨-, hq⟩ | ⟨rfl, r, hr, rfl⟩
    · exact ⟨row, hq, rfl⟩
    · exact ⟨r, hr, rfl⟩
  intro q q' row row' hrow hrow' hplace
  obtain ⟨r, hr, hplaces⟩ := hbefore hrow
  obtain ⟨r', hr', hplaces'⟩ := hbefore hrow'
  exact hapart q q' r r' hr hr' (by rw [← hplaces, ← hplaces', hplace])

/-- A file of this device after a move is the moved one, or is where it was. -/
theorem held_moveFile {j j' : JbodManager} {src dst : Text} {result : Except JbodError Unit}
    (h : j.moveFile src dst = (result, j')) {q : Text} {row : FileRow} (hrow : j'.Held q row) :
    j.Held q row ∧ (j' = j ∨ q ≠ src ∧ q ≠ dst) ∨ src ≠ dst ∧ q = dst ∧ j.Held src row := by
  rcases moveFile_cases h with rfl | ⟨hne, moved, s, hmoved, rfl, hrows⟩
  · exact Or.inl ⟨hrow, Or.inl rfl⟩
  · obtain ⟨hlookup, howned⟩ := hrow
    obtain ⟨hany, hlive⟩ := MetadataStore.lookup_eq_some_iff.mp hlookup
    dsimp only at hany
    rw [hrows] at hany
    split_ifs at hany with h1 h2
    · rw [Option.some_inj] at hany
      subst hany
      exact Or.inr ⟨hne, h1, hmoved, howned⟩
    · exact Or.inl ⟨⟨MetadataStore.lookup_eq_some_iff.mpr ⟨hany, hlive⟩, howned⟩, Or.inr ⟨h2, h1⟩⟩

theorem placesApart_moveFile {j j' : JbodManager} {src dst : Text} {result : Except JbodError Unit}
    (hapart : j.PlacesApart) (h : j.moveFile src dst = (result, j')) : j'.PlacesApart := by
  intro q q' row row' hrow hrow' hplace
  rcases held_moveFile h hrow with ⟨hq, hcase⟩ | ⟨hne, rfl, hq⟩
  · rcases held_moveFile h hrow' with ⟨hq', -⟩ | ⟨hne', rfl, hq'⟩
    · exact hapart q q' row row' hq hq' hplace
    · have hsrc := hapart q src row row' hq hq' hplace
      rcases hcase with rfl | ⟨hnot, -⟩
      · exact hapart q q' row row' hrow hrow' hplace
      · exact absurd hsrc hnot
  · rcases held_moveFile h hrow' with ⟨hq', hcase'⟩ | ⟨-, rfl, -⟩
    · have hsrc := hapart src q' row row' hq hq' hplace
      rcases hcase' with rfl | ⟨hnot, -⟩
      · exact hapart q q' row row' hrow hrow' hplace
      · exact absurd hsrc.symm hnot
    · rfl

end JbodManager

end StardustFS
