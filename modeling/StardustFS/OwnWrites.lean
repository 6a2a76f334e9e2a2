import StardustFS.VolumePlaces

/-! Reading one's own writes. A write routes by the owner of the live record and the id of the device,
and a read routes by the owner the write left. The two agree unless a device without an id takes over
the file of another one: the update keeps the old owner where the new one is absent. -/

namespace StardustFS

namespace JbodManager

/-- The live record of the path is owned by some device, while this one has no id. -/
def TakesOverUnnamed (j : JbodManager) (p : Text) : Prop :=
  j.deviceId = none ∧ ∃ row, j.metadataStore.lookup p = some row ∧ row.deviceId ≠ none

/-- The owner a write leaves in the record. -/
theorem writtenRow_deviceId (old : Option FileRow) (now : Time) (size : Nat)
    (deviceId : Option DeviceId) (place : SourceId × Text) :
    (writtenRow old now size deviceId place).deviceId =
      ((old.filter fun r => !r.deleted).map fun r => deviceId <|> r.deviceId).getD deviceId := by
  unfold writtenRow
  cases old with
  | none => rfl
  | some r =>
      dsimp only
      cases hdel : r.deleted with
      | false =>
          rw [if_neg (by decide), Option.filter_some_pos (by rw [hdel]; rfl)]
          rfl
      | true =>
          rw [if_pos rfl, Option.filter_some_neg (by rw [hdel]; decide)]
          rfl

/-- A written record is another device's exactly where a device without an id took it over. -/
theorem Written.ownedElsewhere_iff {j j' : JbodManager} {reading : Reading} {p : Text} {data : Bytes}
    {place : SourceId × Text} (h : Written j j' reading p data place) :
    j'.ownedElsewhere (writtenRow (j.metadataStore.lookupAny p) reading.now data.length j.deviceId
      place) = true ↔ j.TakesOverUnnamed p := by
  have howner := writtenRow_deviceId (j.metadataStore.lookupAny p) reading.now data.length j.deviceId
    place
  change _ = ((j.metadataStore.lookup p).map fun r => j.deviceId <|> r.deviceId).getD
    j.deviceId at howner
  rw [ownedElsewhere, howner, h.deviceId, TakesOverUnnamed]
  cases hdevice : j.deviceId with
  | some device => cases j.metadataStore.lookup p <;> simp
  | none =>
      cases hrow : j.metadataStore.lookup p with
      | none => simp
      | some row =>
          cases hold : row.deviceId with
          | none => simp [hold]
          | some owner => simp [hold]

/-- **A device reads its own writes**, whatever the other devices serve, exactly where it has an id or
no device owns the live record it writes over. -/
theorem readFile_writeFile_iff {j j' : JbodManager} {reading : Reading} {p : Text} {data : Bytes}
    (h : j.writeFile reading p data = (.ok (), j')) :
    (∀ remote, (j'.readFile remote p).1 = .ok data) ↔ ¬ j.TakesOverUnnamed p := by
  obtain ⟨place, hw⟩ := writeFile_ok h
  have howner := hw.ownedElsewhere_iff
  constructor
  · intro hreads htaken
    obtain ⟨owner, -, hread⟩ := readFile_of_foreign (fun _ _ _ => none) hw.lookup_self
      (howner.mpr htaken)
    have hoffline := hreads fun _ _ _ => none
    rw [hread] at hoffline
    cases hoffline
  · intro hkept remote
    have hheld := Bool.eq_false_iff.mpr (mt howner.mp hkept)
    exact hw.readFile_eq ⟨hw.lookup_self, hheld⟩ remote

/-- A volume with one directory source and the record of a file of another device. -/
def volumeBesidePhone (deviceId : Option DeviceId) : JbodManager where
  metadataStore := MetadataStore.initial.insert "/a".toList "phone-source" "a".toList 1 0 0
    (some "phone")
  sources := Table.empty.insert "s" { kind := .directory }
  deviceId := deviceId

/-- One reading with room on every disk. -/
def roomyReading : Reading where
  now := 1
  uuid := List.replicate 32 'a'
  diskFree := fun _ => 100

theorem readFile_writeFile_iff_laptop :
    (∀ remote, ((((volumeBesidePhone (some "laptop")).writeFile roomyReading "/a".toList [7]).2.readFile
        remote "/a".toList).1 = .ok [7])) ↔
      ¬ (volumeBesidePhone (some "laptop")).TakesOverUnnamed "/a".toList :=
  readFile_writeFile_iff (Prod.ext (by decide) rfl)

/-- A session without a device id writes over the file of the phone and reads from the phone. -/
theorem unnamed_takeover_reads_remote :
    ¬ ∀ (j j' : JbodManager) (reading : Reading) (p : Text) (data : Bytes) (remote : RemoteRead),
      j.writeFile reading p data = (.ok (), j') → (j'.readFile remote p).1 = .ok data := by
  intro h
  have hread := h (volumeBesidePhone none) _ roomyReading "/a".toList [7] (fun _ _ _ => none)
    (Prod.ext (by decide) rfl)
  revert hread
  decide

end JbodManager

end StardustFS
