import StardustFS.LoopbackSource

/-! Several processes with a loopback source on one companion directory. Each of them scans the
directory when it mounts and then counts its own calls only, so the space a process counts with and
the space that is really left drift apart with every call of another one. -/

namespace StardustFS

/-- The processes, and what the deletions of the others have freed since a process mounted. -/
structure SharedLoopback (ι : Type) extends Loopback ι where
  freed : ι → Nat

/-- The calls that delete. -/
def SourceOp.isDeletion : SourceOp → Bool
  | .delete | .rmdir => true
  | _ => false

namespace SharedLoopback

variable {ι : Type} [DecidableEq ι]

def initializeSource (s : SharedLoopback ι) (i : ι) (creation : Creation) : SharedLoopback ι where
  toLoopback := s.toLoopback.initializeSource i creation
  freed := Function.update s.freed i 0

/-- A call of one process; a deletion frees space for the others without their knowing. -/
def call (s : SharedLoopback ι) (i : ι) (c : CompanionCall) : SharedLoopback ι :=
  let after := s.toLoopback.call i c.toSourceCall
  { toLoopback := after
    freed := fun k =>
      if k ≠ i ∧ c.op.isDeletion then s.freed k + (s.storedBytes - after.storedBytes)
      else s.freed k }

def step (s : SharedLoopback ι) : LoopbackEvent ι → Option (SharedLoopback ι)
  | .initializeSource i creation => some (s.initializeSource i creation)
  | .call i c => some (s.call i c)

/-- A companion directory that no process has opened yet. -/
def unopened (sizeBytes : LoopbackSize) (fileExists : Bool)
    (companion : DirectoryTree FileName Bytes) : SharedLoopback ι where
  sizeBytes := sizeBytes
  fileExists := fileExists
  companion := companion
  handle := fun _ => {}
  freed := fun _ => 0

/-- The companion directory is within the reserved size. -/
def KeepsLimit (s : SharedLoopback ι) : Prop := s.storedBytes ≤ s.sizeBytes

/-- What a write adds to the companion directory. -/
def growth (s : SharedLoopback ι) (i : ι) (p : Text) (data : Bytes) : Int :=
  data.length - (s.source i).existingSize p

/-- The space that is left. -/
def freeSpace (s : SharedLoopback ι) : Int := (s.sizeBytes : Nat) - s.storedBytes

/-- The space that a process counts with. -/
def countedSpace (s : SharedLoopback ι) (i : ι) : Int := (s.sizeBytes : Nat) - (s.handle i).usedBytes

/-- The write fits in the space that is left, and in what the process would count with if the
deletions of the others had been given back to its counter; and it is refused for lack of space. -/
def RefusedForDeletions (s : SharedLoopback ι) : LoopbackEvent ι → Prop
  | .call i c => ∃ data, c.op = .write data ∧
      ((s.source i).write c.physicalPath data).1 = .error .insufficientSpace ∧
      s.growth i c.physicalPath data ≤ s.freeSpace ∧
      s.growth i c.physicalPath data ≤ s.countedSpace i + s.freed i
  | .initializeSource _ _ => False

/-- A write that adds bytes adds no more than is left where the counter is behind the calls of the
others. -/
def WithinFree (s : SharedLoopback ι) : LoopbackEvent ι → Prop
  | .call i c => ∀ data, c.op = .write data → (s.handle i).isActive = true →
      (s.source i).writable c.physicalPath = true → 0 < s.growth i c.physicalPath data →
      s.growth i c.physicalPath data ≤ s.countedSpace i →
        s.growth i c.physicalPath data ≤ s.freeSpace
  | .initializeSource _ _ => True

/-- A write that adds bytes adds no more than the process counts with where the counter is ahead by
what the others have deleted. -/
def WithinCounted (s : SharedLoopback ι) : LoopbackEvent ι → Prop
  | .call i c => ∀ data, c.op = .write data → (s.handle i).isActive = true →
      0 < s.growth i c.physicalPath data → s.growth i c.physicalPath data ≤ s.freeSpace →
      s.growth i c.physicalPath data ≤ s.countedSpace i + s.freed i →
        s.growth i c.physicalPath data ≤ s.countedSpace i
  | .initializeSource _ _ => True

variable {s s' : SharedLoopback ι} {i : ι}

omit [DecidableEq ι] in
/-- When a process refuses a write: it adds more than the process counts with. -/
theorem write_refused_iff_growth (hactive : (s.handle i).isActive = true) (p : Text) (data : Bytes) :
    ((s.source i).write p data).1 = .error .insufficientSpace ↔
      0 < s.growth i p data ∧ s.countedSpace i < s.growth i p data := by
  have hroom := StorageSource.hasRoom_iff (s := s.source i) rfl ((s.source i).existingSize p)
    data.length
  have hused : (s.source i).usedBytes = (s.handle i).usedBytes := rfl
  rw [StorageSource.write_refused_iff hactive, ← Bool.not_eq_true, hroom, hused]
  unfold growth countedSpace
  omega

omit [DecidableEq ι] in
/-- A process out of service refuses a write for that reason. -/
theorem isActive_of_refused {p : Text} {data : Bytes}
    (h : ((s.source i).write p data).1 = .error .insufficientSpace) :
    (s.handle i).isActive = true := by
  by_contra hinactive
  have hoff : (s.source i).isActive = false := Bool.not_eq_true _ ▸ hinactive
  unfold StorageSource.write at h
  rw [hoff] at h
  cases h

omit [DecidableEq ι] in
theorem not_refusedForDeletions_iff (s : SharedLoopback ι) (e : LoopbackEvent ι) :
    ¬ s.RefusedForDeletions e ↔ s.WithinCounted e := by
  cases e with
  | initializeSource i creation => exact ⟨fun _ => trivial, fun _ h => h⟩
  | call i c =>
      constructor
      · intro hnot data hop hactive hgrows hfits hfreed
        by_contra hover
        refine hnot ⟨data, hop, ?_, hfits, hfreed⟩
        exact (write_refused_iff_growth hactive _ _).mpr ⟨hgrows, Int.lt_of_not_ge hover⟩
      · intro hwithin hrefusal
        obtain ⟨data, hop, hrefused, hfits, hfreed⟩ := hrefusal
        have hactive := isActive_of_refused hrefused
        obtain ⟨hgrows, hover⟩ := (write_refused_iff_growth hactive _ _).mp hrefused
        exact absurd (hwithin data hop hactive hgrows hfits hfreed) (Int.not_le_of_gt hover)

/-! ### The reserved size -/

theorem exists_step (s : SharedLoopback ι) (e : LoopbackEvent ι) : ∃ s', s.step e = some s' := by
  cases e with
  | initializeSource i creation => exact ⟨_, rfl⟩
  | call i c => exact ⟨_, rfl⟩

/-- An initialization adds nothing to the companion directory. -/
theorem storedBytes_initializeSource (s : SharedLoopback ι) (i : ι) (creation : Creation) :
    (s.initializeSource i creation).storedBytes ≤ s.storedBytes := by
  show (s.toLoopback.initializeSource i creation).storedBytes ≤ s.storedBytes
  cases s.toLoopback.initialize_effect i creation with
  | mounted _ _ hstored _ => exact Nat.le_of_eq hstored
  | raised _ _ _ hstored _ => exact Nat.le_of_eq hstored
  | cleaned _ _ hstored _ => exact hstored

theorem sizeBytes_step {e : LoopbackEvent ι} (he : s.step e = some s') :
    s'.sizeBytes = s.sizeBytes := by
  cases e with
  | initializeSource i creation =>
      obtain rfl := Option.some_inj.mp he
      show (s.toLoopback.initializeSource i creation).sizeBytes = s.sizeBytes
      cases s.toLoopback.initialize_effect i creation with
      | mounted hsize _ _ _ => exact hsize
      | raised _ hsize _ _ _ => exact hsize
      | cleaned _ hsize _ _ => exact hsize
  | call i c =>
      obtain rfl := Option.some_inj.mp he
      rfl

/-- A call adds no more than the free space where each of its writes does. -/
theorem storedBytes_call_le (h : s.KeepsLimit) {c : SourceCall}
    (hwithin : ∀ data, c.op = .write data → (s.handle i).isActive = true →
      (s.source i).writable c.physicalPath = true → 0 < s.growth i c.physicalPath data →
      s.growth i c.physicalPath data ≤ s.countedSpace i →
        s.growth i c.physicalPath data ≤ s.freeSpace) :
    (s.toLoopback.call i c).storedBytes ≤ s.sizeBytes := by
  have hscan : (s.source i).scanUsedSpace = s.storedBytes := rfl
  have hlimit : s.storedBytes ≤ s.sizeBytes := h
  rw [Loopback.storedBytes_call]
  cases s.call_effect i c with
  | same _ hscan' =>
      rw [hscan']
      exact hlimit
  | @written id p data _ hactive hwritable hroom _ hscan' =>
      have hcounted := (StorageSource.hasRoom_iff rfl _ _).mp hroom
      have hfits := hwithin data rfl hactive hwritable
      have hused : (s.source i).usedBytes = (s.handle i).usedBytes := rfl
      unfold growth countedSpace freeSpace at hfits
      dsimp only at hfits
      rw [hused] at hcounted
      omega
  | deleted _ hscan' => omega
  | removed _ _ _ hscan' => omega

/-- What a step that stays within the free space leaves. -/
theorem KeepsLimit.step (h : s.KeepsLimit) {e : LoopbackEvent ι} (hwithin : s.WithinFree e)
    (he : s.step e = some s') : s'.KeepsLimit := by
  have hsize : (s'.sizeBytes : Nat) = s.sizeBytes := congrArg Subtype.val (sizeBytes_step he)
  unfold KeepsLimit at h ⊢
  rw [hsize]
  cases e with
  | initializeSource i creation =>
      obtain rfl := Option.some_inj.mp he
      exact Nat.le_trans (s.storedBytes_initializeSource i creation) h
  | call i c =>
      obtain rfl := Option.some_inj.mp he
      exact storedBytes_call_le h hwithin

/-- A write of more than is left, where the counter has fallen behind, goes over the reserved size. -/
theorem not_keepsLimit_of_not_withinFree {e : LoopbackEvent ι} (hover : ¬ s.WithinFree e)
    (he : s.step e = some s') : ¬ s'.KeepsLimit := by
  cases e with
  | initializeSource i creation => exact absurd trivial hover
  | call i c =>
      obtain rfl := Option.some_inj.mp he
      intro hlimit
      refine hover fun data hop hactive hwritable hgrows hcounted => ?_
      have hroom : (s.source i).hasRoom ((s.source i).existingSize c.physicalPath) data.length = true :=
        (StorageSource.hasRoom_iff rfl _ _).mpr fun _ => hcounted
      have happly : c.toSourceCall.apply (s.source i) = ((s.source i).write c.physicalPath data).2 := by
        unfold SourceCall.apply
        rw [hop]
      have hwrite := StorageSource.write_of_room hactive hroom
      rw [if_pos hwritable, ← happly] at hwrite
      have hscan : (s.source i).scanUsedSpace = s.storedBytes := rfl
      have hstored : (c.toSourceCall.apply (s.source i)).scanUsedSpace ≤ s.sizeBytes := hlimit
      have hsum := hwrite.2.2
      unfold growth freeSpace
      omega

/-! ### All runs -/

/-- What a write adds fits in the free space where it fits in what the process counts with, and the
other way round where the process counts with too little because of what the others deleted. -/
def CountsRight (s : SharedLoopback ι) (e : LoopbackEvent ι) : Prop :=
  s.WithinFree e ∧ s.WithinCounted e

omit [DecidableEq ι] in
/-- A process whose counter is what is there counts right. -/
theorem countsRight_of_counted (hcounted : (s.handle i).usedBytes = s.storedBytes)
    (c : CompanionCall) : s.CountsRight (.call i c) := by
  have hspace : s.countedSpace i = s.freeSpace := by
    unfold countedSpace freeSpace
    rw [hcounted]
  constructor
  · intro data _ _ _ _ hfits
    exact hspace ▸ hfits
  · intro data _ _ _ hfits _
    exact hspace.symm ▸ hfits

/-- A process that has just mounted counts right. -/
theorem countsRight_of_mounted (hfile : s.fileExists = true)
    (hroot : s.companion.isFile [] = false) (creation : Creation) (c : CompanionCall) :
    (s.initializeSource i creation).CountsRight (.call i c) := by
  refine countsRight_of_counted ?_ c
  show ((s.toLoopback.initializeSource i creation).handle i).usedBytes =
    (s.toLoopback.initializeSource i creation).storedBytes
  cases s.toLoopback.initialize_effect i creation with
  | mounted _ _ hstored hhandle => rw [hhandle, hstored, Function.update_self]
  | raised hno _ _ _ _ =>
      rw [hroot] at hno
      cases hno
  | cleaned hno _ _ _ =>
      rw [hfile] at hno
      cases hno

/-! ### Two processes -/

/-- A companion directory with one file. -/
def withFile (name : FileName) (data : Bytes) : DirectoryTree FileName Bytes :=
  match DirectoryTree.root.write [name] data with
  | .ok companion => companion
  | .error _ => DirectoryTree.root

/-- A file of the least size a loopback source has. -/
def largeFile : Bytes := List.replicate minLoopbackSize 0

def smallWrite : CompanionCall where
  sourceId := "s"
  op := .write [7]
  physicalPath := "a".toList
  relative := by decide
  plain := by decide
  named := (by decide : ¬ Text.Silent ['a'])

def largeWrite : CompanionCall where
  sourceId := "s"
  op := .write largeFile
  physicalPath := "b".toList
  relative := by decide
  plain := by decide
  named := (by decide : ¬ Text.Silent ['b'])

def largeDelete : CompanionCall where
  sourceId := "s"
  op := .delete
  physicalPath := "b".toList
  relative := by decide
  plain := by decide
  named := (by decide : ¬ Text.Silent ['b'])

end SharedLoopback

end StardustFS
