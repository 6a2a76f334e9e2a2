import StardustFS.ManagedFiles

/-! Orphan collection beside writers in other processes. The collector reads the live set, lists a
source and deletes file by file; a writer puts its bytes on a source and commits the record after that.
Nothing keeps the two apart, so every order of these steps is a run. -/

namespace StardustFS

open StorageSource (resolve)

/-- What the record of a write becomes when it is committed. -/
inductive CommitKind where
  | insert
  | takeover
  | overwrite
  deriving DecidableEq, Repr

/-- A write whose bytes are on a source and whose record is not committed yet. -/
structure PendingWrite where
  virtualPath : Text
  size : Nat
  now : Time
  deviceId : Option DeviceId
  place : SourceId × Text
  kind : CommitKind
  deriving DecidableEq, Repr

namespace PendingWrite

/-- Where the bytes of the write are. -/
def location (f : PendingWrite) : Location := (f.place.1, resolve f.place.2)

/-- The statement that commits the record. -/
def commit (f : PendingWrite) (store : MetadataStore) : MetadataStore :=
  match f.kind with
  | .insert => store.insert f.virtualPath f.place.1 f.place.2 f.size f.now f.now f.deviceId
  | .takeover => store.update f.virtualPath f.size f.now f.deviceId (some f.place.1) (some f.place.2)
  | .overwrite => store.update f.virtualPath f.size f.now f.deviceId none none

end PendingWrite

namespace JbodManager

/-- The branch a write takes, by the record it finds. -/
def commitKind (j : JbodManager) (p : Text) : CommitKind :=
  match j.metadataStore.lookup p with
  | none => .insert
  | some existing => if j.ownedElsewhere existing then .takeover else .overwrite

/-- The first half of a write: the bytes go to their place. -/
def beginWrite (j : JbodManager) (reading : Reading) (p : Text) (data : Bytes) :
    Option (PendingWrite × JbodManager) :=
  (j.writeTarget reading p data).bind fun place =>
    (j.sources.get place.1).bind fun s =>
      match s.write place.2 (j.encrypt reading.iv data) with
      | (.error _, _) => none
      | (.ok _, s') =>
          some (⟨p, data.length, reading.now, j.deviceId, place, j.commitKind p⟩,
            { j with sources := j.sources.update place.1 fun _ => s' })

/-- **A write is its two halves**: where it succeeds, the first half has put the bytes where it did, and
the second commits the record it did. -/
theorem writeFile_halves {j j' : JbodManager} {reading : Reading} {p : Text} {data : Bytes}
    (h : j.writeFile reading p data = (.ok (), j')) :
    ∃ f j₁, j.beginWrite reading p data = some (f, j₁) ∧ j'.sources = j₁.sources ∧
      j'.metadataStore = f.commit j₁.metadataStore := by
  obtain ⟨place, hw⟩ := writeFile_ok h
  obtain ⟨s, s', hs, hwrite, hsources⟩ := hw.stored
  refine ⟨⟨p, data.length, reading.now, j.deviceId, place, j.commitKind p⟩,
    { j with sources := j.sources.update place.1 fun _ => s' }, ?_, hsources, ?_⟩
  · rw [beginWrite, hw.target, Option.bind_some, hs, Option.bind_some, hwrite]
  · have htarget := hw.target
    rw [writeTarget] at htarget
    unfold writeFile at h
    unfold PendingWrite.commit commitKind
    dsimp only at h htarget ⊢
    cases hlookup : j.metadataStore.lookup p with
    | none =>
        rw [hlookup] at h htarget
        obtain ⟨sourceId, _, _, hselect, -, -, rfl⟩ := createFile_ok h
        rw [hselect, Option.map_some, Option.some_inj] at htarget
        rw [← htarget]
    | some existing =>
        rw [hlookup] at h htarget
        dsimp only at h htarget ⊢
        split_ifs at h htarget ⊢
        · obtain ⟨sourceId, _, _, hselect, -, -, rfl⟩ := takeoverWrite_ok h
          rw [hselect, Option.map_some, Option.some_inj] at htarget
          rw [← htarget]
        · obtain ⟨_, _, -, -, rfl⟩ := overwrite_ok h
          rfl

end JbodManager

/-- What the collector is about: nothing, the sources still to be scanned with the live set it has
read, or the files of one source that it has listed. -/
inductive Scan where
  | idle
  | scanning (live : List (SourceId × Text)) (sources : List SourceId)
  | deleting (live : List (SourceId × Text)) (sources : List SourceId) (sourceId : SourceId)
      (names : List Text)

/-- The daemon's volume, its collector, the writes under way in any number of processes, the places the
collector has deleted files at, and the paths whose writes have returned. -/
structure GcRace where
  jbod : JbodManager
  scan : Scan := .idle
  flights : List PendingWrite := []
  collected : List Location := []
  returned : List Text := []

inductive ScanEvent where
  | readLive
  | list
  | delete
  | write (deviceId : Option DeviceId) (reading : Reading) (virtualPath : Text) (data : Bytes)
  | commit (i : Nat)

namespace GcRace

/-- The live set is read once for the whole scan. -/
def readLive (r : GcRace) : Option GcRace :=
  match r.scan, r.jbod.deviceId with
  | .idle, some deviceId =>
      let live := r.jbod.metadataStore.livePhysicalPathsForDevice deviceId
      some { r with scan := .scanning live r.jbod.sources.keys }
  | _, _ => none

/-- The next source is listed; one that cannot be listed is passed over. -/
def listSource (r : GcRace) : Option GcRace :=
  match r.scan with
  | .scanning _ [] => some { r with scan := .idle }
  | .scanning live (sourceId :: sources) =>
      match (r.jbod.sources.get sourceId).map StorageSource.listPhysicalFiles with
      | some (.ok names) => some { r with scan := .deleting live sources sourceId names }
      | _ => some { r with scan := .scanning live sources }
  | _ => none

/-- The next of the listed files is looked at. -/
def sweepNext (r : GcRace) : Option GcRace :=
  match r.scan with
  | .deleting live sources _ [] => some { r with scan := .scanning live sources }
  | .deleting live sources sourceId (name :: names) =>
      some { r with
        jbod := { r.jbod with sources := r.jbod.sources.update sourceId fun s =>
          (JbodManager.sweepFile live sourceId (0, s) name).2 }
        scan := .deleting live sources sourceId names
        collected := if !JbodManager.isManagedFile name || live.contains (sourceId, name) then
          r.collected else (sourceId, resolve name) :: r.collected }
  | _ => none

/-- A process with the device id puts the bytes of a write on a source. -/
def writeBytes (r : GcRace) (deviceId : Option DeviceId) (reading : Reading) (p : Text)
    (data : Bytes) : Option GcRace :=
  (JbodManager.beginWrite { r.jbod with deviceId } reading p data).map fun x =>
    { r with jbod := { r.jbod with sources := x.2.sources }, flights := r.flights ++ [x.1] }

/-- One of the writes under way commits its record and returns. -/
def commitRecord (r : GcRace) (i : Nat) : Option GcRace :=
  r.flights[i]?.map fun f =>
    { r with
      jbod := { r.jbod with metadataStore := f.commit r.jbod.metadataStore }
      flights := r.flights.eraseIdx i
      returned := f.virtualPath :: r.returned }

def step (r : GcRace) : ScanEvent → Option GcRace
  | .readLive => r.readLive
  | .list => r.listSource
  | .delete => r.sweepNext
  | .write deviceId reading p data => r.writeBytes deviceId reading p data
  | .commit i => r.commitRecord i

/-- The places live records name. -/
def recorded (r : GcRace) : List Location :=
  (r.jbod.metadataStore.files.rows.filter fun x => !x.2.deleted).map fun x => x.2.location

/-- The places live records name and writes under way have put bytes at. -/
def inUse (r : GcRace) : List Location := r.recorded ++ r.flights.map PendingWrite.location

/-- The files of a source that are still to be looked at. -/
def listed (r : GcRace) : List Location :=
  match r.scan with
  | .deleting _ _ sourceId names => names.map fun name => (sourceId, resolve name)
  | _ => []

/-- **No file of a committed live record has been deleted, and what was written is there.** -/
structure Safe (r : GcRace) : Prop where
  notCollected : ∀ p row, r.jbod.metadataStore.lookup p = some row → row.location ∉ r.collected
  readable : ∀ p ∈ r.returned, ∃ row s, r.jbod.metadataStore.lookup p = some row ∧
    r.jbod.sources.get row.sourceId = some s ∧ (s.tree.file? (resolve row.physicalPath)).isSome

/-- The UUID of a write names no place in use, listed or collected. -/
def DrawsNew (r : GcRace) : ScanEvent → Prop
  | .write _ reading p _ => ∀ place ∈ r.inUse ++ r.listed ++ r.collected,
      place.2 ≠ JbodManager.freshPath reading p
  | _ => True

/-- The live set has every managed file of the source that a live record names or a write under way
has made. -/
def Knows (r : GcRace) (live : List (SourceId × Text)) (sourceId : SourceId) (s : StorageSource) :
    Prop :=
  ∀ name ∈ s.tree.rootFiles, JbodManager.isManagedFile name.val = true →
    (sourceId, [name]) ∈ r.inUse → (sourceId, name.val) ∈ live

/-- The live set that was read and the source that is listed next. -/
def nextSource (r : GcRace) : Option (List (SourceId × Text) × SourceId × StorageSource) :=
  match r.scan with
  | .scanning live (sourceId :: _) =>
      (r.jbod.sources.get sourceId).map fun s => (live, sourceId, s)
  | _ => none

/-- When a source is listed, the live set that was read before knows its files. -/
def ListsKnown (r : GcRace) : ScanEvent → Prop
  | .list => ∀ x ∈ r.nextSource, r.Knows x.1 x.2.1 x.2.2
  | _ => True

instance (r : GcRace) : ∀ e, Decidable (r.DrawsNew e)
  | .readLive => instDecidableTrue
  | .list => instDecidableTrue
  | .delete => instDecidableTrue
  | .write _ reading p _ => inferInstanceAs (Decidable (∀ place ∈ r.inUse ++ r.listed ++ r.collected,
      place.2 ≠ JbodManager.freshPath reading p))
  | .commit _ => instDecidableTrue

instance (r : GcRace) (live : List (SourceId × Text)) (sourceId : SourceId) (s : StorageSource) :
    Decidable (r.Knows live sourceId s) :=
  inferInstanceAs (Decidable (∀ name ∈ s.tree.rootFiles, _ → _ → _))

instance (r : GcRace) : ∀ e, Decidable (r.ListsKnown e)
  | .readLive => instDecidableTrue
  | .list => inferInstanceAs (Decidable (∀ x ∈ r.nextSource, r.Knows x.1 x.2.1 x.2.2))
  | .delete => instDecidableTrue
  | .write _ _ _ _ => instDecidableTrue
  | .commit _ => instDecidableTrue

/-! ### What the steps leave -/

/-- A file is there. -/
def Stored (r : GcRace) (place : Location) : Prop :=
  ∃ s, r.jbod.sources.get place.1 = some s ∧ (s.tree.file? place.2).isSome

theorem mem_inUse {r : GcRace} {place : Location} :
    place ∈ r.inUse ↔
      (∃ p row, r.jbod.metadataStore.lookup p = some row ∧ row.location = place) ∨
        ∃ f ∈ r.flights, f.location = place := by
  rw [inUse, recorded, List.mem_append, List.mem_map, List.mem_map]
  refine or_congr_left ⟨?_, ?_⟩
  · rintro ⟨⟨p, row⟩, hmem, hplace⟩
    rw [List.mem_filter, Bool.not_eq_true'] at hmem
    exact ⟨p, row, MetadataStore.lookup_eq_some_iff.mpr ⟨Table.get_of_mem_rows hmem.1, hmem.2⟩,
      hplace⟩
  · rintro ⟨p, row, hrow, hplace⟩
    obtain ⟨hany, hlive⟩ := MetadataStore.lookup_eq_some_iff.mp hrow
    exact ⟨(p, row), List.mem_filter.mpr ⟨Table.mem_rows_of_get hany, by rw [hlive]; rfl⟩, hplace⟩

/-- A file that the scan looks at and keeps in any case, or that is at another path, stays. -/
theorem file?_sweepFile_of_ne (live : List (SourceId × Text)) (sourceId : SourceId)
    (s : StorageSource) {name : Text} {q : List FileName} (hq : q ≠ resolve name) :
    (JbodManager.sweepFile live sourceId (0, s) name).2.tree.file? q = s.tree.file? q := by
  unfold JbodManager.sweepFile
  split_ifs
  · rfl
  · obtain ⟨result, s', hdelete⟩ : ∃ result s', s.delete name = (result, s') := ⟨_, _, rfl⟩
    have hkept := (StorageSource.delete_frame hdelete).kept q hq
    rw [hdelete]
    cases result with
    | ok _ => exact hkept
    | error e => exact hkept

/-- The number of files deleted so far is no part of what the scan does next. -/
theorem foldl_sweepFile_snd (live : List (SourceId × Text)) (sourceId : SourceId)
    (names : List Text) (n m : Nat) (s : StorageSource) :
    (names.foldl (JbodManager.sweepFile live sourceId) (n, s)).2 =
      (names.foldl (JbodManager.sweepFile live sourceId) (m, s)).2 := by
  induction names generalizing n m s with
  | nil => rfl
  | cons name names ih =>
      obtain ⟨k, k', s', hk, hk'⟩ : ∃ k k' s', JbodManager.sweepFile live sourceId (n, s) name = (k, s') ∧
          JbodManager.sweepFile live sourceId (m, s) name = (k', s') := by
        unfold JbodManager.sweepFile
        dsimp only
        split_ifs
        · exact ⟨n, m, s, rfl, rfl⟩
        · cases s.delete name with
          | mk result s' =>
              cases result with
              | ok _ => exact ⟨_, _, s', rfl, rfl⟩
              | error e => exact ⟨_, _, s', rfl, rfl⟩
      rw [List.foldl_cons, List.foldl_cons, hk, hk']
      exact ih k k' s'

/-- **Without a writer in between** the steps over the listed files of a source come to the scan of that
source. -/
theorem run_sweepNext {r : GcRace} {live : List (SourceId × Text)} {sources : List SourceId}
    {sourceId : SourceId} {names : List Text} (hscan : r.scan = .deleting live sources sourceId names) :
    ∃ r', Transitions.run step r (List.replicate names.length .delete) = some r' ∧
      r'.scan = .deleting live sources sourceId [] ∧
      r'.jbod = { r.jbod with sources := r.jbod.sources.update sourceId fun s =>
        (names.foldl (JbodManager.sweepFile live sourceId) (0, s)).2 } := by
  induction names generalizing r with
  | nil =>
      refine ⟨r, rfl, hscan, ?_⟩
      have hsame : (r.jbod.sources.update sourceId fun s =>
          (List.foldl (JbodManager.sweepFile live sourceId) (0, s) []).2) = r.jbod.sources :=
        Table.update_eq_self fun _ _ => rfl
      rw [hsame]
  | cons name names ih =>
      obtain ⟨m, hm, hmscan, hmjbod⟩ : ∃ m, r.step .delete = some m ∧
          m.scan = .deleting live sources sourceId names ∧
          m.jbod = { r.jbod with sources := r.jbod.sources.update sourceId fun s =>
            (JbodManager.sweepFile live sourceId (0, s) name).2 } := by
        rw [step, sweepNext, hscan]
        exact ⟨_, rfl, rfl, rfl⟩
      obtain ⟨r', hrun, hscan', hjbod⟩ := ih hmscan
      refine ⟨r', Transitions.run_cons_eq_some.mpr ⟨m, hm, hrun⟩, hscan', ?_⟩
      rw [hjbod, hmjbod]
      dsimp only
      rw [Table.update_update]
      congr 2
      funext s
      rw [List.foldl_cons]
      exact foldl_sweepFile_snd live sourceId names 0 _ _

/-- After the commit of a write its path has a live record: at the place of the write, or for a write
in place where the record was. -/
theorem lookup_commit_self {f : PendingWrite} {store : MetadataStore}
    (h : f.kind ≠ .insert → (store.lookup f.virtualPath).isSome) :
    ∃ row, (f.commit store).lookup f.virtualPath = some row ∧
      (f.kind ≠ .overwrite → row.location = f.location) ∧
      (f.kind = .overwrite → ∃ old, store.lookup f.virtualPath = some old ∧
        row.location = old.location) := by
  have hupdate : ∀ (sourceId : Option SourceId) (physicalPath : Option Text) (old : FileRow),
      store.lookup f.virtualPath = some old →
      (store.update f.virtualPath f.size f.now f.deviceId sourceId physicalPath).lookup
        f.virtualPath =
          some (MetadataStore.edited old f.size f.now f.deviceId sourceId physicalPath) := by
    intro sourceId physicalPath old hold
    obtain ⟨hany, hlive⟩ := MetadataStore.lookup_eq_some_iff.mp hold
    refine MetadataStore.lookup_eq_some_iff.mpr ⟨?_, hlive⟩
    rw [MetadataStore.lookupAny_update_self, hany, Option.map_some]
  unfold PendingWrite.commit
  cases hkind : f.kind with
  | insert =>
      have hrow := MetadataStore.lookupAny_insert_self store f.virtualPath f.place.1 f.place.2 f.size
        f.now f.now f.deviceId
      cases hold : store.lookupAny f.virtualPath with
      | none =>
          rw [hold] at hrow
          exact ⟨_, MetadataStore.lookup_eq_some_iff.mpr ⟨hrow, rfl⟩, fun _ => rfl,
            fun h => (nomatch h)⟩
      | some r =>
          rw [hold] at hrow
          exact ⟨_, MetadataStore.lookup_eq_some_iff.mpr ⟨hrow, rfl⟩, fun _ => rfl,
            fun h => (nomatch h)⟩
  | takeover =>
      obtain ⟨old, hold⟩ := Option.isSome_iff_exists.mp (h (by rw [hkind]; decide))
      exact ⟨_, hupdate _ _ old hold, fun _ => rfl, fun h => (nomatch h)⟩
  | overwrite =>
      obtain ⟨old, hold⟩ := Option.isSome_iff_exists.mp (h (by rw [hkind]; decide))
      exact ⟨_, hupdate none none old hold, fun h => absurd rfl h, fun _ => ⟨old, hold, rfl⟩⟩

theorem lookup_commit_of_ne {f : PendingWrite} {store : MetadataStore} {q : Text}
    (hq : q ≠ f.virtualPath) : (f.commit store).lookup q = store.lookup q := by
  unfold PendingWrite.commit MetadataStore.lookup
  cases f.kind with
  | insert => rw [MetadataStore.lookupAny_insert_of_ne _ _ _ _ _ _ _ hq]
  | takeover => rw [MetadataStore.lookupAny_update_of_ne _ _ _ _ _ _ hq]
  | overwrite => rw [MetadataStore.lookupAny_update_of_ne _ _ _ _ _ _ hq]

/-- What the first half of a write has done. -/
theorem beginWrite_spec {j j' : JbodManager} {reading : Reading} {p : Text} {data : Bytes}
    {f : PendingWrite} (h : j.beginWrite reading p data = some (f, j')) :
    f.virtualPath = p ∧ f.kind = j.commitKind p ∧ (f.location.2 = JbodManager.freshPath reading p ∨
        ∃ row, j.metadataStore.lookup p = some row ∧ row.location = f.location) ∧
      (f.kind = .overwrite → ∃ row, j.metadataStore.lookup p = some row ∧
        row.location = f.location) ∧
      ∃ s s', j.sources.get f.location.1 = some s ∧
        j'.sources = j.sources.update f.location.1 (fun _ => s') ∧
        ∀ q, s'.tree.file? q =
          if q = f.location.2 then some (j.encrypt reading.iv data) else s.tree.file? q := by
  rw [JbodManager.beginWrite, Option.bind_eq_some_iff] at h
  obtain ⟨place, htarget, h⟩ := h
  obtain ⟨s, hs, h⟩ := Option.bind_eq_some_iff.mp h
  split at h
  · cases h
  · rename_i s' hwrite
    obtain ⟨rfl, rfl⟩ := Prod.mk.inj (Option.some_inj.mp h)
    refine ⟨rfl, rfl, ?_, fun hkind => ?_, s, s', hs, rfl, (StorageSource.write_ok hwrite).2.2⟩
    · rcases JbodManager.writeTarget_cases htarget with hfresh | ⟨row, hrow, rfl⟩
      · exact Or.inl hfresh
      · exact Or.inr ⟨row, hrow.1, rfl⟩
    · dsimp only [JbodManager.commitKind] at hkind
      unfold JbodManager.writeTarget at htarget
      dsimp only at htarget
      split at hkind
      · cases hkind
      · rename_i row hrow
        split_ifs at hkind with howner
        rw [hrow] at htarget
        dsimp only at htarget
        rw [if_neg howner, Option.some_inj] at htarget
        subst htarget
        exact ⟨row, hrow, rfl⟩

/-! ### The invariant -/

/-- Nothing in use is collected or about to be, the bytes of the writes under way and of the returned
ones are there, and the record a write under way is going to change is live. -/
structure Sound (r : GcRace) : Prop where
  notCollected : ∀ place ∈ r.inUse, place ∉ r.collected
  spared : ∀ live sources sourceId names, r.scan = .deleting live sources sourceId names →
    ∀ name ∈ names, JbodManager.isManagedFile name = true → (sourceId, name) ∉ live →
      (sourceId, resolve name) ∉ r.inUse
  flown : ∀ f ∈ r.flights, r.Stored f.location
  live : ∀ f ∈ r.flights, f.kind ≠ .insert →
    (r.jbod.metadataStore.lookup f.virtualPath).isSome
  inPlace : ∀ f ∈ r.flights, f.kind = .overwrite → f.virtualPath ∉ r.returned →
    ∃ row, r.jbod.metadataStore.lookup f.virtualPath = some row ∧ row.location = f.location
  readable : ∀ p ∈ r.returned, ∃ row, r.jbod.metadataStore.lookup p = some row ∧
    r.Stored row.location

theorem Sound.safe {r : GcRace} (h : r.Sound) : r.Safe := by
  refine ⟨fun p row hrow => h.notCollected _ (mem_inUse.mpr (Or.inl ⟨p, row, hrow, rfl⟩)),
    fun p hp => ?_⟩
  obtain ⟨row, hrow, s, hs, hfile⟩ := h.readable p hp
  exact ⟨row, s, hrow, hs, hfile⟩

/-- A step of the collector that only changes what it is about. -/
theorem Sound.withScan {r : GcRace} (h : r.Sound) {scan : Scan}
    (hspared : ∀ live sources sourceId names, scan = .deleting live sources sourceId names →
      ∀ name ∈ names, JbodManager.isManagedFile name = true → (sourceId, name) ∉ live →
        (sourceId, resolve name) ∉ r.inUse) : Sound { r with scan } :=
  ⟨h.notCollected, hspared, h.flown, h.live, h.inPlace, h.readable⟩

/-- The sources change, and the files in use stay. -/
theorem Sound.withSources {r : GcRace} (h : r.Sound) {sources : Table SourceId StorageSource}
    {scan : Scan} {collected : List Location}
    (hstored : ∀ place ∈ r.inUse, r.Stored place →
      Stored { r with jbod := { r.jbod with sources }, scan, collected } place)
    (hcollected : ∀ place ∈ r.inUse, place ∉ collected)
    (hspared : ∀ live sources sourceId names, scan = .deleting live sources sourceId names →
      ∀ name ∈ names, JbodManager.isManagedFile name = true → (sourceId, name) ∉ live →
        (sourceId, resolve name) ∉ r.inUse) :
    Sound { r with jbod := { r.jbod with sources }, scan, collected } := by
  refine ⟨hcollected, hspared, fun f hf => ?_, h.live, h.inPlace, fun p hp => ?_⟩
  · exact hstored _ (mem_inUse.mpr (Or.inr ⟨f, hf, rfl⟩)) (h.flown f hf)
  · obtain ⟨row, hrow, hfile⟩ := h.readable p hp
    exact ⟨row, hrow, hstored _ (mem_inUse.mpr (Or.inl ⟨p, row, hrow, rfl⟩)) hfile⟩

theorem Sound.listSource {r r' : GcRace} (h : r.Sound) (hknown : r.ListsKnown .list)
    (hstep : r.listSource = some r') : r'.Sound := by
  unfold GcRace.listSource at hstep
  cases hscan : r.scan with
  | idle => simp [hscan] at hstep
  | deleting live sources sourceId names => simp [hscan] at hstep
  | scanning live sources =>
      cases sources with
      | nil =>
          simp only [hscan, Option.some_inj] at hstep
          exact hstep ▸ h.withScan fun _ _ _ _ heq => (nomatch heq)
      | cons sourceId sources =>
          simp only [hscan] at hstep
          split at hstep
          · rename_i names hlisted
            rw [Option.some_inj] at hstep
            subst hstep
            refine h.withScan ?_
            rintro live' sources' sourceId' names' ⟨⟩ name hname hmanaged hlive huse
            obtain ⟨s, hs, hlist⟩ := Option.map_eq_some_iff.mp hlisted
            unfold StorageSource.listPhysicalFiles at hlist
            split_ifs at hlist
            rw [Except.ok.injEq] at hlist
            subst hlist
            obtain ⟨file, hfile, rfl⟩ := List.mem_map.mp hname
            rw [StorageSource.resolve_name] at huse
            refine hlive (hknown (live, sourceId, s) ?_ file hfile hmanaged huse)
            simp only [nextSource, hscan, hs, Option.map_some, Option.mem_def]
          · rw [Option.some_inj] at hstep
            exact hstep ▸ h.withScan fun _ _ _ _ heq => (nomatch heq)

/-- Looking at a listed file keeps the files at all other places. -/
theorem Stored.sweep {r : GcRace} {live : List (SourceId × Text)} {sourceId : SourceId} {name : Text}
    {place : Location} (h : r.Stored place) (hne : place ≠ (sourceId, resolve name)) (scan : Scan)
    (collected : List Location) :
    Stored { r with
      jbod := { r.jbod with sources := r.jbod.sources.update sourceId fun s =>
        (JbodManager.sweepFile live sourceId (0, s) name).2 }
      scan, collected } place := by
  obtain ⟨s, hs, hfile⟩ := h
  by_cases hid : place.1 = sourceId
  · have hpath : place.2 ≠ resolve name := fun heq => hne (Prod.ext hid heq)
    refine ⟨(JbodManager.sweepFile live sourceId (0, s) name).2, ?_, ?_⟩
    · rw [hid] at hs
      show (r.jbod.sources.update sourceId _).get place.1 = _
      rw [hid, Table.get_update_self, hs, Option.map_some]
    · rw [file?_sweepFile_of_ne _ _ _ hpath]
      exact hfile
  · refine ⟨s, ?_, hfile⟩
    show (r.jbod.sources.update sourceId _).get place.1 = _
    rw [Table.get_update_of_ne _ _ hid, hs]

theorem Sound.sweepNext {r r' : GcRace} (h : r.Sound) (hstep : r.sweepNext = some r') :
    r'.Sound := by
  unfold GcRace.sweepNext at hstep
  cases hscan : r.scan with
  | idle => simp [hscan] at hstep
  | scanning live sources => simp [hscan] at hstep
  | deleting live sources sourceId names =>
      cases names with
      | nil =>
          simp only [hscan, Option.some_inj] at hstep
          exact hstep ▸ h.withScan fun _ _ _ _ heq => (nomatch heq)
      | cons name names =>
          simp only [hscan, Option.some_inj] at hstep
          subst hstep
          have hrest : ∀ live' sources' sourceId' names',
              Scan.deleting live sources sourceId names =
                .deleting live' sources' sourceId' names' →
              ∀ name ∈ names', JbodManager.isManagedFile name = true → (sourceId', name) ∉ live' →
                (sourceId', resolve name) ∉ r.inUse := by
            rintro live' sources' sourceId' names' ⟨⟩ other hother
            exact h.spared live sources sourceId (name :: names) hscan other
              (List.mem_cons_of_mem _ hother)
          split_ifs with hspare
          · -- a file that is kept is not deleted, so the sources are as they were
            have hsame : (r.jbod.sources.update sourceId fun s =>
                (JbodManager.sweepFile live sourceId (0, s) name).2) = r.jbod.sources := by
              refine Table.update_eq_self fun s _ => ?_
              rw [JbodManager.sweepFile, if_pos hspare]
            rw [hsame]
            exact h.withSources (fun _ _ hplace => hplace) h.notCollected hrest
          · have hfree : (sourceId, resolve name) ∉ r.inUse := by
              rw [Bool.or_eq_true, not_or, Bool.not_eq_true', Bool.not_eq_false,
                List.contains_iff_mem] at hspare
              exact h.spared live sources sourceId (name :: names) hscan name List.mem_cons_self
                hspare.1 hspare.2
            refine h.withSources (fun place hplace hfile =>
              hfile.sweep (fun heq => hfree (heq ▸ hplace)) _ _) (fun place hplace hin => ?_) hrest
            rcases List.mem_cons.mp hin with heq | hold
            · exact hfree (heq ▸ hplace)
            · exact h.notCollected place hplace hold

theorem Sound.writeBytes {r r' : GcRace} {deviceId : Option DeviceId} {reading : Reading} {p : Text}
    {data : Bytes} (h : r.Sound) (hnew : r.DrawsNew (.write deviceId reading p data))
    (hstep : r.writeBytes deviceId reading p data = some r') : r'.Sound := by
  unfold GcRace.writeBytes at hstep
  obtain ⟨⟨f, j⟩, hbegin, rfl⟩ := Option.map_eq_some_iff.mp hstep
  obtain ⟨hpath, hkind, hplace, hover, s, s', hs, hsources, hfiles⟩ := beginWrite_spec hbegin
  have huse : ∀ place, place ∈ inUse { r with
      jbod := { r.jbod with sources := j.sources }, flights := r.flights ++ [f] } →
      place ∈ r.inUse ∨ place = f.location := by
    intro place hin
    rcases mem_inUse.mp hin with hrow | ⟨g, hg, rfl⟩
    · exact Or.inl (mem_inUse.mpr (Or.inl hrow))
    · rcases List.mem_append.mp hg with hold | hlast
      · exact Or.inl (mem_inUse.mpr (Or.inr ⟨g, hold, rfl⟩))
      · rw [List.mem_singleton.mp hlast]
        exact Or.inr rfl
  -- the place of the write is new, or that of a live record
  have hfree : f.location ∈ r.inUse ∨ ∀ place ∈ r.inUse ++ r.listed ++ r.collected,
      place ≠ f.location := by
    rcases hplace with hfresh | ⟨row, hrow, heq⟩
    · exact Or.inr fun place hin heq => hnew place hin (heq ▸ hfresh)
    · exact Or.inl (mem_inUse.mpr (Or.inl ⟨p, row, hrow, heq⟩))
  have hstored : ∀ place, r.Stored place ∨ place = f.location → Stored { r with
      jbod := { r.jbod with sources := j.sources }, flights := r.flights ++ [f] } place := by
    intro place hplace
    dsimp only at hs hsources
    by_cases hid : place.1 = f.location.1
    · refine ⟨s', ?_, ?_⟩
      · dsimp only
        rw [hsources, hid, Table.get_update_self, hs, Option.map_some]
      · rw [hfiles]
        split_ifs with hq
        · rfl
        · rcases hplace with ⟨t, ht, hfile⟩ | heq
          · rw [hid, hs, Option.some_inj] at ht
            rw [ht]
            exact hfile
          · exact absurd (congrArg Prod.snd heq) hq
    · rcases hplace with ⟨t, ht, hfile⟩ | heq
      · refine ⟨t, ?_, hfile⟩
        dsimp only
        rw [hsources, Table.get_update_of_ne _ _ hid, ht]
      · exact absurd (congrArg Prod.fst heq) hid
  refine ⟨fun place hin => ?_, fun live sources sourceId names hscan name hname hmanaged hlive hin =>
    ?_, fun g hg => ?_, fun g hg => ?_, fun g hg => ?_, fun q hq => ?_⟩
  · rcases huse place hin with hold | rfl
    · exact h.notCollected place hold
    · rcases hfree with hold | hfree
      · exact h.notCollected _ hold
      · exact fun hin => hfree _ (List.mem_append_right _ hin) rfl
  · have hold := h.spared live sources sourceId names hscan name hname hmanaged hlive
    rcases huse _ hin with hin | heq
    · exact hold hin
    · rcases hfree with hin | hfree
      · exact hold (heq ▸ hin)
      · refine hfree (sourceId, resolve name) (List.mem_append_left _ (List.mem_append_right _ ?_)) heq
        have hscan' : r.scan = .deleting live sources sourceId names := hscan
        rw [listed, hscan']
        exact List.mem_map_of_mem hname
  · rcases List.mem_append.mp hg with hold | hlast
    · exact hstored _ (Or.inl (h.flown g hold))
    · rw [List.mem_singleton.mp hlast]
      exact hstored _ (Or.inr rfl)
  · rcases List.mem_append.mp hg with hold | hlast
    · exact h.live g hold
    · rw [List.mem_singleton.mp hlast, hpath, hkind]
      intro hne
      show (r.jbod.metadataStore.lookup p).isSome
      rw [JbodManager.commitKind] at hne
      dsimp only at hne
      cases hrow : r.jbod.metadataStore.lookup p with
      | none =>
          rw [hrow] at hne
          exact absurd rfl hne
      | some row => rfl
  · rcases List.mem_append.mp hg with hold | hlast
    · exact h.inPlace g hold
    · rw [List.mem_singleton.mp hlast]
      intro hkind' _
      rw [hpath]
      exact hover hkind'
  · obtain ⟨row, hrow, hfile⟩ := h.readable q hq
    exact ⟨row, hrow, hstored _ (Or.inl hfile)⟩

theorem Sound.commitRecord {r r' : GcRace} {i : Nat} (h : r.Sound)
    (hstep : r.commitRecord i = some r') : r'.Sound := by
  unfold GcRace.commitRecord at hstep
  obtain ⟨f, hget, rfl⟩ := Option.map_eq_some_iff.mp hstep
  have hf : f ∈ r.flights := List.mem_of_getElem? hget
  obtain ⟨row, hrow, hplaced, hkept⟩ := lookup_commit_self (h.live f hf)
  have hothers : ∀ q, q ≠ f.virtualPath →
      (f.commit r.jbod.metadataStore).lookup q = r.jbod.metadataStore.lookup q :=
    fun q hq => lookup_commit_of_ne hq
  -- the record of the committed path is where the write put its bytes, or where it was
  have hwhere : row.location = f.location ∨ ∃ old,
      r.jbod.metadataStore.lookup f.virtualPath = some old ∧ row.location = old.location := by
    by_cases hkind : f.kind = .overwrite
    · exact Or.inr (hkept hkind)
    · exact Or.inl (hplaced hkind)
  have hstored : r.Stored row.location := by
    by_cases hkind : f.kind = .overwrite
    · obtain ⟨old, hold, heq⟩ := hkept hkind
      rw [heq]
      by_cases hback : f.virtualPath ∈ r.returned
      · obtain ⟨old', hold', hfile⟩ := h.readable _ hback
        rw [hold, Option.some_inj] at hold'
        exact hold' ▸ hfile
      · obtain ⟨old', hold', heq'⟩ := h.inPlace f hf hkind hback
        rw [hold, Option.some_inj] at hold'
        rw [hold', heq']
        exact h.flown f hf
    · rw [hplaced hkind]
      exact h.flown f hf
  have huse : ∀ place, place ∈ inUse { r with
      jbod := { r.jbod with metadataStore := f.commit r.jbod.metadataStore }
      flights := r.flights.eraseIdx i, returned := f.virtualPath :: r.returned } →
      place ∈ r.inUse := by
    intro place hin
    rcases mem_inUse.mp hin with ⟨q, row', hrow', rfl⟩ | ⟨g, hg, rfl⟩
    · by_cases hq : q = f.virtualPath
      · subst hq
        rw [hrow, Option.some_inj] at hrow'
        rw [← hrow']
        rcases hwhere with heq | ⟨old, hold, heq⟩
        · exact mem_inUse.mpr (Or.inr ⟨f, hf, heq.symm⟩)
        · exact mem_inUse.mpr (Or.inl ⟨_, old, hold, heq.symm⟩)
      · dsimp only at hrow'
        rw [hothers q hq] at hrow'
        exact mem_inUse.mpr (Or.inl ⟨q, row', hrow', rfl⟩)
    · exact mem_inUse.mpr (Or.inr ⟨g, List.mem_of_mem_eraseIdx hg, rfl⟩)
  refine ⟨fun place hin => h.notCollected place (huse place hin),
    fun live sources sourceId names hscan name hname hmanaged hlive hin =>
      h.spared live sources sourceId names hscan name hname hmanaged hlive (huse _ hin),
    fun g hg => h.flown g (List.mem_of_mem_eraseIdx hg), fun g hg hkind => ?_,
    fun g hg hkind hback => ?_, fun q hq => ?_⟩
  · dsimp only
    by_cases hq : g.virtualPath = f.virtualPath
    · rw [hq, hrow]
      rfl
    · rw [hothers _ hq]
      exact h.live g (List.mem_of_mem_eraseIdx hg) hkind
  · have hne : g.virtualPath ≠ f.virtualPath := fun heq =>
      hback (heq ▸ List.mem_cons_self)
    dsimp only
    rw [hothers _ hne]
    exact h.inPlace g (List.mem_of_mem_eraseIdx hg) hkind fun hin =>
      hback (List.mem_cons_of_mem _ hin)
  · dsimp only
    by_cases hqf : q = f.virtualPath
    · rw [hqf]
      exact ⟨row, hrow, hstored⟩
    · rw [hothers q hqf]
      rcases List.mem_cons.mp hq with heq | hold
      · exact absurd heq hqf
      · exact h.readable q hold

/-- **One step** of the collector or of a writer. -/
theorem sound_step {r r' : GcRace} {e : ScanEvent} (h : r.Sound)
    (hok : r.DrawsNew e ∧ r.ListsKnown e) (hstep : r.step e = some r') : r'.Sound := by
  cases e with
  | readLive =>
      rw [step, readLive] at hstep
      split at hstep
      · rw [Option.some_inj] at hstep
        exact hstep ▸ h.withScan fun _ _ _ _ heq => (nomatch heq)
      · cases hstep
  | list => exact h.listSource hok.2 hstep
  | delete => exact h.sweepNext hstep
  | write deviceId reading p data => exact h.writeBytes hok.1 hstep
  | commit i => exact h.commitRecord hstep

/-- A volume with one empty directory source. -/
def raceVolume : JbodManager where
  metadataStore := MetadataStore.initial
  sources := Table.empty.insert "s" { kind := .directory }
  deviceId := some "laptop"

/-- The bytes of one new file. -/
def writeNote : ScanEvent :=
  .write (some "laptop") { now := 1, uuid := List.replicate 32 'a', diskFree := fun _ => 100 }
    "/a".toList [7]

/-- The file is committed before the scan begins. -/
def scanAfterReturn : List ScanEvent := [writeNote, .commit 0, .readLive, .list, .delete]

/-- The collector lists a source between the two halves of a write, with a live set from before. -/
def scanBetweenHalves : List ScanEvent := [.readLive, writeNote, .list, .delete, .commit 0]

end GcRace

end StardustFS
