import StardustFS.ManagedFiles
import StardustFS.OwnWrites
import StardustFS.Simulation

/-! What a volume is for: a map from paths to bytes. A run of file operations, scans and purges of
tombstones answers as the map does, as long as the sources serve it as maps from physical paths to
bytes. -/

namespace StardustFS

inductive VolumeOp where
  | write (reading : Reading) (virtualPath : Text) (data : Bytes)
  | copy (reading : Reading) (srcPath dstPath : Text)
  | delete (now : Time) (virtualPath : Text)
  | read (virtualPath : Text)
  | gcOrphanFiles
  | purgeExpiredTombstones (now retentionSeconds : Time)

namespace VolumeOp

/-- The UUID a call draws. -/
def uuid? : VolumeOp → Option Text
  | write reading _ _ => some reading.uuid
  | copy reading _ _ => some reading.uuid
  | _ => none

/-- The UUIDs of a run. -/
def uuids (ops : List VolumeOp) : List Text := ops.filterMap uuid?

end VolumeOp

/-- The abstract volume. -/
abbrev FileMap := Text → Option Bytes

namespace FileMap

/-- The empty map. -/
def empty : FileMap := fun _ => none

/-- What a call does to the abstract volume, and what it answers. -/
def step (m : FileMap) : VolumeOp → Except JbodError (Option Bytes) × FileMap
  | .write _ p data => (.ok none, Function.update m p (some data))
  | .copy _ src dst =>
      match m src with
      | none => (.error .fileNotFound, m)
      | some data => (.ok none, Function.update m dst (some data))
  | .delete _ p =>
      match m p with
      | none => (.error .fileNotFound, m)
      | some _ => (.ok none, Function.update m p none)
  | .read p =>
      match m p with
      | none => (.error .fileNotFound, m)
      | some data => (.ok (some data), m)
  | .gcOrphanFiles => (.ok none, m)
  | .purgeExpiredTombstones _ _ => (.ok none, m)

end FileMap

namespace JbodManager

open StorageSource (resolve)
open VolumeOp (uuids)

/-- A call on the volume. -/
def volumeStep (remote : RemoteRead) (j : JbodManager) :
    VolumeOp → Except JbodError (Option Bytes) × JbodManager
  | .write reading p data => ((j.writeFile reading p data).1.map fun _ => none,
      (j.writeFile reading p data).2)
  | .copy reading src dst => ((j.copyFile remote reading src dst).1.map fun _ => none,
      (j.copyFile remote reading src dst).2)
  | .delete now p => ((j.deleteFile now p).1.map fun _ => none, (j.deleteFile now p).2)
  | .read p => ((j.readFile remote p).1.map some, (j.readFile remote p).2)
  | .gcOrphanFiles => (.ok none, j.gcOrphanFiles.2)
  | .purgeExpiredTombstones now retentionSeconds =>
      (.ok none, { j with
        metadataStore := j.metadataStore.purgeExpiredTombstones now retentionSeconds })

/-- The physical path is the only one for its file among the names of the root. -/
def NamesOneFile (physicalPath : Text) : Prop :=
  ∀ name ∈ resolve physicalPath, resolve physicalPath = [name] → physicalPath = name.val

instance (physicalPath : Text) : Decidable (NamesOneFile physicalPath) :=
  inferInstanceAs (Decidable (∀ name ∈ resolve physicalPath, _ → _))

/-- A source is there for the bytes of the write, takes them, and tells their physical path from
others, as a map with enough space does. -/
def Accepts (j : JbodManager) (reading : Reading) (p : Text) (data : Bytes) : Prop :=
  ∃ place ∈ j.writeTarget reading p data, ∃ s ∈ j.sources.get place.1,
    (s.write place.2 (j.encrypt reading.iv data)).1 = .ok () ∧ NamesOneFile place.2

instance (j : JbodManager) (reading : Reading) (p : Text) (data : Bytes) :
    Decidable (j.Accepts reading p data) :=
  inferInstanceAs (Decidable (∃ place ∈ j.writeTarget reading p data, _))

/-- The sources accept what the call writes. -/
def Serves (remote : RemoteRead) (j : JbodManager) : VolumeOp → Prop
  | .write reading p data => j.Accepts reading p data
  | .copy reading src dst =>
      ∀ data, (j.readFile remote src).1 = .ok data → j.Accepts reading dst data
  | _ => True

/-- No two live records name the same physical path of the same source. -/
def LivePlacesDistinct (j : JbodManager) : Prop :=
  ∀ p q row row', j.metadataStore.lookup p = some row → j.metadataStore.lookup q = some row' →
    row.sourceId = row'.sourceId → row.physicalPath = row'.physicalPath → p = q

/-! ### One call -/

/-- A write whose bytes a source accepts succeeds. -/
theorem writeFile_of_accepts {j : JbodManager} {reading : Reading} {p : Text} {data : Bytes}
    (h : j.Accepts reading p data) :
    ∃ j' place, j.writeFile reading p data = (.ok (), j') ∧ Written j j' reading p data place ∧
      NamesOneFile place.2 := by
  obtain ⟨place, htarget, s, hs, hwrite, hnames⟩ := h
  have hop : s.write place.2 (j.encrypt reading.iv data) =
      (.ok (), (s.write place.2 (j.encrypt reading.iv data)).2) := Prod.ext hwrite rfl
  have hactive := (StorageSource.write_ok hop).1
  have hnew : ∀ {failure record sourceId},
      j.selectSource reading.diskFree (j.encrypt reading.iv data).length = some sourceId →
      place = (sourceId, generatePhysicalPath reading.uuid p) →
      ∃ j', j.writeNew reading p (j.encrypt reading.iv data) failure record = (.ok (), j') := by
    rintro failure record sourceId hselect rfl
    simp only [writeNew, hselect, Option.mem_def.mp hs, onSource, hwrite]
    exact ⟨_, rfl⟩
  have hok : ∃ j', j.writeFile reading p data = (.ok (), j') := by
    rw [Option.mem_def, writeTarget] at htarget
    unfold writeFile
    dsimp only at htarget ⊢
    cases hlookup : j.metadataStore.lookup p with
    | none =>
        rw [hlookup] at htarget
        obtain ⟨sourceId, hselect, hplace⟩ := Option.map_eq_some_iff.mp htarget
        rw [createFile_eq]
        exact hnew hselect hplace.symm
    | some existing =>
        rw [hlookup] at htarget
        dsimp only at htarget ⊢
        split_ifs at htarget ⊢ with howner
        · obtain ⟨sourceId, hselect, hplace⟩ := Option.map_eq_some_iff.mp htarget
          rw [takeoverWrite_eq]
          exact hnew hselect hplace.symm
        · rw [Option.some_inj] at htarget
          subst htarget
          simp only [overwrite, Option.mem_def.mp hs, hactive, onSource, hwrite]
          exact ⟨_, rfl⟩
  obtain ⟨j', hj'⟩ := hok
  obtain ⟨place', hw⟩ := writeFile_ok hj'
  have hsame : place' = place := Option.some_inj.mp (hw.target.symm.trans htarget)
  exact ⟨j', place', hj', hw, hsame ▸ hnames⟩

/-- A file of this device whose bytes are there can be deleted, and nothing else is touched. -/
theorem deleteFile_of_held {j : JbodManager} {p : Text} {row : FileRow} {b : Bytes} (now : Time)
    (hrow : j.Held p row) (hb : j.bytesAt row.location = some b) :
    ∃ j', j.deleteFile now p = (.ok (), j') ∧ j'.metadataStore = j.metadataStore.delete p now ∧
      j'.deviceId = j.deviceId ∧ j'.encryptionEngine = j.encryptionEngine ∧
      ∀ place, place ≠ row.location → j'.bytesAt place = j.bytesAt place := by
  obtain ⟨s, hs, hactive, hfile⟩ := bytesAt_eq_some_iff.mp hb
  obtain ⟨s', hdelete⟩ := StorageSource.exists_delete hactive hfile
  obtain ⟨-, hactive', hfiles⟩ := StorageSource.delete_ok hdelete
  have hsource : j.sources.get row.sourceId = some s := hs
  refine ⟨{ j with
    sources := j.sources.update row.sourceId fun _ => s'
    metadataStore := j.metadataStore.delete p now }, ?_, rfl, rfl, rfl, fun place hne => ?_⟩
  · simp only [deleteFile, hrow.1, hrow.2, hsource, hactive, onSource, hdelete]
    rfl
  · rw [bytesAt, bytesAt, Table.get_update]
    split_ifs with hid
    · have hpath : place.2 ≠ resolve row.physicalPath := fun h => hne (Prod.ext hid h)
      rw [hid, hsource, Option.map_some, Option.bind_some, Option.bind_some, if_pos hactive,
        if_pos hactive', hfiles, if_neg hpath]
    · rfl

/-- The scan leaves the file of a live record of this device. -/
theorem bytesAt_gcOrphanFiles {j : JbodManager} {p : Text} {row : FileRow}
    (hrow : j.metadataStore.lookup p = some row) (howner : row.deviceId = j.deviceId)
    (hnames : NamesOneFile row.physicalPath) :
    j.gcOrphanFiles.2.bytesAt row.location = j.bytesAt row.location := by
  unfold gcOrphanFiles
  cases hdevice : j.deviceId with
  | none => rfl
  | some device =>
      show ((j.sources.mapRows _).get row.sourceId).bind _ = (j.sources.get row.sourceId).bind _
      rw [Table.get_mapRows]
      cases hs : j.sources.get row.sourceId with
      | none => rfl
      | some s =>
          rw [Option.map_some, Option.bind_some, Option.bind_some]
          cases hactive : s.isActive with
          | false =>
              rw [sweep_of_inactive hactive, hactive]
          | true =>
              obtain ⟨hactive', hfiles⟩ := sweep_active hactive
                (j.metadataStore.livePhysicalPathsForDevice device) row.sourceId
              rw [if_pos hactive', hfiles, if_pos rfl, if_neg]
              intro hdoom
              unfold doomedAt at hdoom
              split at hdoom
              · rename_i name hresolve
                change resolve row.physicalPath = [name] at hresolve
                have hmem : name ∈ resolve row.physicalPath := by
                  rw [hresolve]
                  exact List.mem_cons_self
                have hpath := hnames name hmem hresolve
                rw [doomed, Bool.and_eq_true, Bool.not_eq_true', ← Bool.not_eq_true,
                  List.contains_iff_mem] at hdoom
                exact hdoom.2 (mem_livePhysicalPathsForDevice.mpr
                  ⟨p, row, hrow, rfl, hpath, Or.inl (howner.trans hdevice)⟩)
              · cases hdoom

/-! ### The simulation -/

/-- **The volume stands for the map** while the calls `rest` are to come: what is live is mapped to
the plain bytes of its place, the places are apart, the records are this device's, and every
physical path was made from a UUID that is not drawn again. -/
structure StandsFor (remote : RemoteRead) (rest : List VolumeOp) (j : JbodManager) (m : FileMap) :
    Prop where
  owned : ∀ q row, j.metadataStore.lookupAny q = some row → row.deviceId = j.deviceId
  made : ∀ q row, j.metadataStore.lookupAny q = some row → ∃ uuid p, IsUuidHex uuid ∧
    uuid ∉ uuids rest ∧ row.physicalPath = generatePhysicalPath uuid p
  apart : j.PlacesApart
  absent : ∀ q, j.metadataStore.lookup q = none → m q = none
  present : ∀ q row, j.metadataStore.lookup q = some row → NamesOneFile row.physicalPath ∧
    ∃ data iv, m q = some data ∧ j.bytesAt row.location = some (j.encrypt iv data)
  nodup : (uuids rest).Nodup
  hex : ∀ uuid ∈ uuids rest, IsUuidHex uuid
  served : Transitions.StepsMeet (fun j op => some (volumeStep remote j op).2) (Serves remote) j rest

namespace StandsFor

variable {remote : RemoteRead} {rest : List VolumeOp} {j j' : JbodManager} {m : FileMap}

theorem held (h : StandsFor remote rest j m) {q : Text} {row : FileRow}
    (hrow : j.metadataStore.lookup q = some row) : j.Held q row := by
  refine ⟨hrow, ?_⟩
  rw [ownedElsewhere, h.owned q row (MetadataStore.lookup_eq_some_iff.mp hrow).1]
  simp

theorem livePlacesDistinct (h : StandsFor remote rest j m) : j.LivePlacesDistinct := by
  intro p q row row' hrow hrow' hsource hpath
  refine h.apart p q row row' (h.held hrow) (h.held hrow') ?_
  rw [FileRow.location, FileRow.location, hsource, hpath]

/-- A path without a live record is missing for a read, one with a live record has its bytes. -/
theorem readFile_eq (h : StandsFor remote rest j m) (p : Text) :
    (m p = none ∧ j.readFile remote p = (.error .fileNotFound, j)) ∨
      ∃ data, m p = some data ∧ j.readFile remote p = (.ok data, j) := by
  cases hlookup : j.metadataStore.lookup p with
  | none =>
      refine Or.inl ⟨h.absent p hlookup, ?_⟩
      rw [readFile, hlookup]
  | some row =>
      obtain ⟨-, data, iv, hdata, hbytes⟩ := h.present p row hlookup
      have hread : (j.readFile remote p).1 = .ok data :=
        (readFile_eq_ok_iff remote hlookup (h.held hlookup).2).mpr
          ⟨_, hbytes, decrypt_encrypt j iv data⟩
      have hsame : (j.readFile remote p).2 = j :=
        (readFile_sources (Prod.mk.eta (p := j.readFile remote p)).symm).2.2 data hread
      exact Or.inr ⟨data, hdata, Prod.ext hread hsame⟩

/-- The UUID of a write is in no record. -/
theorem freshUuid {reading : Reading} {p : Text} (h : StandsFor remote rest j m)
    (hhex : IsUuidHex reading.uuid) (hnew : ∀ uuid, uuid ∉ uuids rest → uuid ≠ reading.uuid) :
    j.FreshUuid reading p := by
  rintro ⟨q, row⟩ hmem hpath
  obtain ⟨uuid, p', hhex', hnot, hmade⟩ := h.made q row (Table.get_of_mem_rows hmem)
  dsimp only at hpath
  rw [hmade] at hpath
  exact hnew uuid hnot (uuid_eq_of_resolve_eq hhex' hhex hpath)

/-- **A write** of a call that draws its UUID, where the calls `rest'` are to come. -/
theorem written {rest' : List VolumeOp} {reading : Reading} {p : Text} {data : Bytes}
    {place : SourceId × Text} (h : StandsFor remote rest j m)
    (huuids : uuids rest = reading.uuid :: uuids rest') (hw : Written j j' reading p data place)
    (hnames : NamesOneFile place.2) (happly : j.writeFile reading p data = (.ok (), j'))
    (hserved : Transitions.StepsMeet (fun j op => some (volumeStep remote j op).2) (Serves remote) j'
      rest') : StandsFor remote rest' j' (Function.update m p (some data)) := by
  have hnodup := h.nodup
  rw [huuids, List.nodup_cons] at hnodup
  have hhex : IsUuidHex reading.uuid := h.hex _ (by rw [huuids]; exact List.mem_cons_self)
  have hsub : ∀ {uuid}, uuid ∉ uuids rest → uuid ∉ uuids rest' := by
    intro uuid hnot hin
    exact hnot (by rw [huuids]; exact List.mem_cons_of_mem _ hin)
  have hfresh : j.FreshUuid reading p := h.freshUuid hhex fun uuid hnot heq =>
    hnot (by rw [huuids, heq]; exact List.mem_cons_self)
  have hself : ∀ row, j'.metadataStore.lookupAny p = some row → row =
      writtenRow (j.metadataStore.lookupAny p) reading.now data.length j.deviceId place := by
    intro row hrow
    rw [hw.rows, if_pos rfl, Option.some_inj] at hrow
    exact hrow.symm
  refine ⟨fun q row hrow => ?_, fun q row hrow => ?_, placesApart_writeFile h.apart hfresh happly,
    fun q hq => ?_, fun q row hrow => ?_, hnodup.2, fun uuid hin => h.hex uuid (by
      rw [huuids]
      exact List.mem_cons_of_mem _ hin), hserved⟩
  · rw [hw.deviceId]
    by_cases hq : q = p
    · subst hq
      rw [hself row hrow, writtenRow_deviceId]
      cases hold : j.metadataStore.lookupAny q with
      | none => rfl
      | some r =>
          have howner := h.owned q r hold
          cases hdel : r.deleted with
          | false =>
              rw [Option.filter_some_pos (by rw [hdel]; rfl), Option.map_some, Option.getD_some, howner]
              cases j.deviceId <;> rfl
          | true => rw [Option.filter_some_neg (by rw [hdel]; decide), Option.map_none, Option.getD_none]
    · rw [hw.rows, if_neg hq] at hrow
      exact h.owned q row hrow
  · by_cases hq : q = p
    · subst hq
      rw [hself row hrow, writtenRow_physicalPath]
      rcases writeTarget_path hw.target with hpath | ⟨existing, hexisting, rfl⟩
      · exact ⟨reading.uuid, q, hhex, hnodup.1, hpath⟩
      · obtain ⟨uuid, p', hhex', hnot, hmade⟩ := h.made q existing
          (MetadataStore.lookup_eq_some_iff.mp hexisting.1).1
        exact ⟨uuid, p', hhex', hsub hnot, hmade⟩
    · rw [hw.rows, if_neg hq] at hrow
      obtain ⟨uuid, p', hhex', hnot, hmade⟩ := h.made q row hrow
      exact ⟨uuid, p', hhex', hsub hnot, hmade⟩
  · have hne : q ≠ p := by
      rintro rfl
      rw [hw.lookup_self] at hq
      cases hq
    rw [Function.update_of_ne hne]
    rw [hw.lookup_of_ne hne] at hq
    exact h.absent q hq
  · have hencrypt : ∀ iv d, j'.encrypt iv d = j.encrypt iv d := by
      intro iv d
      rw [encrypt, encrypt, hw.engine]
    by_cases hq : q = p
    · subst hq
      have hrow' := hself row (MetadataStore.lookup_eq_some_iff.mp hrow).1
      refine ⟨by rw [hrow', writtenRow_physicalPath]; exact hnames, data, reading.iv,
        Function.update_self .., ?_⟩
      rw [hrow', writtenRow_place, hw.bytesAt_self, hencrypt]
    · rw [hw.lookup_of_ne hq] at hrow
      obtain ⟨hnames', d, iv, hd, hbytes⟩ := h.present q row hrow
      refine ⟨hnames', d, iv, by rw [Function.update_of_ne hq, hd], ?_⟩
      rw [hw.bytesAt_of_ne (hw.place_ne h.apart hfresh hq (h.held hrow)), hbytes, hencrypt]

/-- **A deletion** of a live path. -/
theorem deleted {rest' : List VolumeOp} {now : Time} {p : Text} {row : FileRow}
    (h : StandsFor remote rest j m) (huuids : uuids rest = uuids rest')
    (hrow : j.metadataStore.lookup p = some row)
    (hstore : j'.metadataStore = j.metadataStore.delete p now) (hdevice : j'.deviceId = j.deviceId)
    (hengine : j'.encryptionEngine = j.encryptionEngine)
    (hplaces : ∀ place, place ≠ row.location → j'.bytesAt place = j.bytesAt place)
    (happly : j.deleteFile now p = (.ok (), j'))
    (hserved : Transitions.StepsMeet (fun j op => some (volumeStep remote j op).2) (Serves remote) j'
      rest') : StandsFor remote rest' j' (Function.update m p none) := by
  have hany : ∀ q r, j'.metadataStore.lookupAny q = some r → ∃ r₀,
      j.metadataStore.lookupAny q = some r₀ ∧ r.deviceId = r₀.deviceId ∧
        r.physicalPath = r₀.physicalPath := by
    intro q r hr
    rw [hstore] at hr
    by_cases hq : q = p
    · subst hq
      rw [MetadataStore.lookupAny_delete_self] at hr
      obtain ⟨r₀, hr₀, rfl⟩ := Option.map_eq_some_iff.mp hr
      exact ⟨r₀, hr₀, rfl, rfl⟩
    · rw [MetadataStore.lookupAny_delete_of_ne _ _ hq] at hr
      exact ⟨r, hr, rfl, rfl⟩
  have hencrypt : ∀ iv d, j'.encrypt iv d = j.encrypt iv d := by
    intro iv d
    rw [encrypt, encrypt, hengine]
  refine ⟨fun q r hr => ?_, fun q r hr => ?_, placesApart_deleteFile h.apart happly, fun q hq => ?_,
    fun q r hr => ?_, huuids ▸ h.nodup, fun uuid hin => h.hex uuid (huuids ▸ hin), hserved⟩
  · obtain ⟨r₀, hr₀, howner, -⟩ := hany q r hr
    rw [howner, hdevice, h.owned q r₀ hr₀]
  · obtain ⟨r₀, hr₀, -, hpath⟩ := hany q r hr
    rw [hpath, ← huuids]
    exact h.made q r₀ hr₀
  · by_cases hqp : q = p
    · rw [hqp, Function.update_self]
    · rw [Function.update_of_ne hqp]
      refine h.absent q ?_
      rwa [hstore, MetadataStore.lookup, MetadataStore.lookupAny_delete_of_ne _ _ hqp] at hq
  · rw [hstore] at hr
    obtain ⟨hqp, hr⟩ := lookup_delete hr
    obtain ⟨hnames, d, iv, hd, hbytes⟩ := h.present q r hr
    refine ⟨hnames, d, iv, by rw [Function.update_of_ne hqp, hd], ?_⟩
    have hne : r.location ≠ row.location := fun heq =>
      hqp (h.apart q p r row (h.held hr) (h.held hrow) heq)
    rw [hplaces _ hne, hbytes, hencrypt]

/-- A call that keeps the records or only drops tombstones, and the bytes of the live ones. -/
theorem kept {rest' : List VolumeOp} (h : StandsFor remote rest j m)
    (huuids : uuids rest = uuids rest') (hdevice : j'.deviceId = j.deviceId)
    (hengine : j'.encryptionEngine = j.encryptionEngine)
    (hany : ∀ q r, j'.metadataStore.lookupAny q = some r → j.metadataStore.lookupAny q = some r)
    (hlive : ∀ q, j'.metadataStore.lookup q = j.metadataStore.lookup q)
    (hbytes : ∀ q r, j.metadataStore.lookup q = some r →
      j'.bytesAt r.location = j.bytesAt r.location)
    (hserved : Transitions.StepsMeet (fun j op => some (volumeStep remote j op).2) (Serves remote) j'
      rest') : StandsFor remote rest' j' m := by
  refine ⟨fun q r hr => ?_, fun q r hr => ?_, ?_, fun q hq => ?_, fun q r hr => ?_, huuids ▸ h.nodup,
    fun uuid hin => h.hex uuid (huuids ▸ hin), hserved⟩
  · rw [hdevice]
    exact h.owned q r (hany q r hr)
  · rw [← huuids]
    exact h.made q r (hany q r hr)
  · refine h.apart.of_subset fun q r hr => h.held ?_
    rw [← hlive q]
    exact hr.1
  · exact h.absent q (by rw [← hlive q, hq])
  · rw [hlive] at hr
    obtain ⟨hnames, d, iv, hd, hb⟩ := h.present q r hr
    refine ⟨hnames, d, iv, hd, ?_⟩
    rw [hbytes q r hr, hb, encrypt, encrypt, hengine]

/-- **One call** on the volume answers as the map does and leaves a volume that stands for the map. -/
theorem volumeStep {op : VolumeOp} (h : StandsFor remote (op :: rest) j m) :
    (JbodManager.volumeStep remote j op).1 = (FileMap.step m op).1 ∧
      StandsFor remote rest (JbodManager.volumeStep remote j op).2 (FileMap.step m op).2 := by
  obtain ⟨hserves, hrest⟩ := h.served
  have hserved := hrest _ rfl
  cases op with
  | write reading p data =>
      obtain ⟨j', place, hwrite, hw, hnames⟩ := writeFile_of_accepts hserves
      simp only [JbodManager.volumeStep, hwrite] at hserved ⊢
      exact ⟨rfl, h.written rfl hw hnames hwrite hserved⟩
  | copy reading src dst =>
      rcases h.readFile_eq src with ⟨hnone, hread⟩ | ⟨data, hdata, hread⟩
      · simp only [JbodManager.volumeStep, copyFile, hread, FileMap.step, hnone] at hserved ⊢
        refine ⟨rfl, ?_⟩
        have hnodup := h.nodup
        have hcons : uuids (.copy reading src dst :: rest) = reading.uuid :: uuids rest := rfl
        rw [hcons, List.nodup_cons] at hnodup
        exact ⟨h.owned, fun q row hrow => by
          obtain ⟨uuid, p, hhex, hnot, hmade⟩ := h.made q row hrow
          exact ⟨uuid, p, hhex, fun hin => hnot (List.mem_cons_of_mem _ hin), hmade⟩, h.apart,
          h.absent, h.present, hnodup.2, fun uuid hin => h.hex uuid (List.mem_cons_of_mem _ hin),
          hserved⟩
      · obtain ⟨j', place, hwrite, hw, hnames⟩ := writeFile_of_accepts (hserves data (by rw [hread]))
        simp only [JbodManager.volumeStep, copyFile, hread, hwrite, FileMap.step, hdata] at hserved ⊢
        exact ⟨rfl, h.written rfl hw hnames hwrite hserved⟩
  | delete now p =>
      cases hlookup : j.metadataStore.lookup p with
      | none =>
          have hdelete : j.deleteFile now p = (.error .fileNotFound, j) := by
            rw [deleteFile, hlookup]
          simp only [JbodManager.volumeStep, hdelete, FileMap.step, h.absent p hlookup] at hserved ⊢
          exact ⟨rfl, h.kept rfl rfl rfl (fun _ _ hr => hr) (fun _ => rfl) (fun _ _ _ => rfl) hserved⟩
      | some row =>
          obtain ⟨-, data, iv, hdata, hbytes⟩ := h.present p row hlookup
          obtain ⟨j', hdelete, hstore, hdevice, hengine, hplaces⟩ :=
            deleteFile_of_held now (h.held hlookup) hbytes
          simp only [JbodManager.volumeStep, hdelete, FileMap.step, hdata] at hserved ⊢
          exact ⟨rfl, h.deleted rfl hlookup hstore hdevice hengine hplaces hdelete hserved⟩
  | read p =>
      rcases h.readFile_eq p with ⟨hnone, hread⟩ | ⟨data, hdata, hread⟩
      · simp only [JbodManager.volumeStep, hread, FileMap.step, hnone] at hserved ⊢
        exact ⟨rfl, h.kept rfl rfl rfl (fun _ _ hr => hr) (fun _ => rfl) (fun _ _ _ => rfl) hserved⟩
      · simp only [JbodManager.volumeStep, hread, FileMap.step, hdata] at hserved ⊢
        exact ⟨rfl, h.kept rfl rfl rfl (fun _ _ hr => hr) (fun _ => rfl) (fun _ _ _ => rfl) hserved⟩
  | gcOrphanFiles =>
      have hrecords := metadataStore_gcOrphanFiles j
      have hsame : j.gcOrphanFiles.2.deviceId = j.deviceId ∧
          j.gcOrphanFiles.2.encryptionEngine = j.encryptionEngine := by
        unfold gcOrphanFiles
        split <;> exact ⟨rfl, rfl⟩
      refine ⟨rfl, h.kept rfl hsame.1 hsame.2 ?_ ?_ ?_ hserved⟩
      · intro q r hr
        rwa [JbodManager.volumeStep, hrecords] at hr
      · intro q
        rw [JbodManager.volumeStep, hrecords]
      · intro q r hr
        exact bytesAt_gcOrphanFiles hr
          (h.owned q r (MetadataStore.lookup_eq_some_iff.mp hr).1) (h.present q r hr).1
  | purgeExpiredTombstones now retentionSeconds =>
      refine ⟨rfl, h.kept rfl rfl rfl ?_ ?_ (fun _ _ _ => rfl) hserved⟩
      · intro q r hr
        rw [JbodManager.volumeStep, MetadataStore.lookupAny_purgeExpiredTombstones] at hr
        exact (Option.filter_eq_some_iff.mp hr).1
      · intro q
        rw [JbodManager.volumeStep, MetadataStore.lookup,
          MetadataStore.lookupAny_purgeExpiredTombstones, Option.filter_filter]
        congr 1
        funext r
        cases hdel : r.deleted <;> simp [MetadataStore.expired, hdel]

end StandsFor

/-- **The volume refines a map from paths to bytes.** From an empty store, with UUIDs that are drawn
once and sources that take what is written, every run of calls answers as the map does, and in every
state it reaches the live records have places of their own. -/
theorem volume_refines_fileMap (remote : RemoteRead) (j : JbodManager) (ops : List VolumeOp)
    (hempty : j.metadataStore = MetadataStore.initial) (hnodup : (uuids ops).Nodup)
    (hhex : ∀ uuid ∈ uuids ops, IsUuidHex uuid)
    (hserved : Transitions.StepsMeet (fun j op => some (volumeStep remote j op).2) (Serves remote) j
      ops) :
    Simulation.outputs (volumeStep remote) j ops = Simulation.outputs FileMap.step FileMap.empty ops ∧
      ∀ done rest, ops = done ++ rest →
        LivePlacesDistinct (Simulation.after (volumeStep remote) j done) := by
  have hnone : ∀ q, j.metadataStore.lookupAny q = none := by
    intro q
    rw [hempty]
    rfl
  have hlookup : ∀ q, j.metadataStore.lookup q = none := by
    intro q
    rw [MetadataStore.lookup, hnone]
    rfl
  have hstart : StandsFor remote ops j FileMap.empty := by
    refine ⟨fun q row hrow => ?_, fun q row hrow => ?_, fun p q row row' hrow => ?_, fun _ _ => rfl,
      fun q row hrow => ?_, hnodup, hhex, hserved⟩
    · rw [hnone] at hrow
      cases hrow
    · rw [hnone] at hrow
      cases hrow
    · rw [Held, hlookup] at hrow
      cases hrow.1
    · rw [hlookup] at hrow
      cases hrow
  obtain ⟨houts, hafter⟩ := Simulation.simulates (R := StandsFor remote)
    (fun _ _ _ _ h => h.volumeStep) hstart
  exact ⟨houts, fun done rest heq => (hafter done rest heq).livePlacesDistinct⟩

/-- A reading with the UUID that repeats one digit. -/
def digitReading (digit : Char) : Reading where
  now := 5
  uuid := List.replicate 32 digit
  diskFree := fun _ => 100

/-- A file is written, overwritten, copied, deleted and made again over its tombstone. -/
def sampleOps : List VolumeOp :=
  [.write (digitReading 'a') "/a".toList [1], .write (digitReading 'b') "/a".toList [2],
    .copy (digitReading 'c') "/a".toList "/d/b".toList, .delete 6 "/a".toList,
    .write (digitReading 'd') "/a".toList [3], .gcOrphanFiles, .purgeExpiredTombstones 100 10,
    .read "/a".toList, .read "/d/b".toList]

/-- A volume with one empty directory source. -/
def sampleVolume : JbodManager where
  metadataStore := MetadataStore.initial
  sources := Table.empty.insert "s" { kind := .directory }
  deviceId := some "laptop"

theorem volume_refines_fileMap_sample :
    Simulation.outputs (volumeStep fun _ _ _ => none) sampleVolume sampleOps =
        Simulation.outputs FileMap.step FileMap.empty sampleOps ∧
      ∀ done rest, sampleOps = done ++ rest →
        LivePlacesDistinct (Simulation.after (volumeStep fun _ _ _ => none) sampleVolume done) := by
  refine volume_refines_fileMap _ sampleVolume sampleOps rfl (by decide) (by decide)
    ⟨by rw [Serves]; decide, ?_⟩
  rintro _ ⟨⟩
  refine ⟨by rw [Serves]; decide, ?_⟩
  rintro _ ⟨⟩
  refine ⟨fun data hdata => ?_, ?_⟩
  · obtain rfl : [2] = data := Except.ok.inj hdata
    decide
  rintro _ ⟨⟩
  refine ⟨trivial, ?_⟩
  rintro _ ⟨⟩
  refine ⟨by rw [Serves]; decide, ?_⟩
  rintro _ ⟨⟩
  refine ⟨trivial, ?_⟩
  rintro _ ⟨⟩
  refine ⟨trivial, ?_⟩
  rintro _ ⟨⟩
  refine ⟨trivial, ?_⟩
  rintro _ ⟨⟩
  refine ⟨trivial, ?_⟩
  rintro _ ⟨⟩
  trivial

end JbodManager

end StardustFS
