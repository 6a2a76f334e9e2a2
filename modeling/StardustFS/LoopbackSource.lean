import StardustFS.PosixPath
import StardustFS.SourceCalls
import StardustFS.SourceFaults
import StardustFS.Transitions
import StardustFS.TreeSize

/-! The loopback source: a reserved size, a companion directory with the data, and the counter of the
bytes in it that every process keeps for itself from the scan of its mount on. -/

namespace StardustFS

/-- `MIN_LOOPBACK_SIZE` and `MAX_LOOPBACK_SIZE`. -/
def minLoopbackSize : Nat := 10 * 1024 * 1024

def maxLoopbackSize : Nat := 2 * 1024 * 1024 * 1024 * 1024

/-- A size the constructor does not refuse. -/
abbrev LoopbackSize := { n : Nat // minLoopbackSize ≤ n ∧ n ≤ maxLoopbackSize }

namespace StorageSource

/-- `_scan_used_space`: the bytes of all files below the source. -/
def scanUsedSpace (s : StorageSource) : Nat := s.tree.totalSize List.length

/-- Nothing on the way to the path is a file, and no directory is in its place. -/
def writable (s : StorageSource) (physicalPath : Text) : Bool :=
  let path := resolve physicalPath
  !path.dropLast.inits.any s.tree.isFile && !(path = [] || s.tree.isDirectory path)

/-- The size of the file a write replaces. -/
def existingSize (s : StorageSource) (physicalPath : Text) : Nat :=
  s.tree.sizeAt List.length (resolve physicalPath)

end StorageSource

/-- What a call changes of a loopback source: its counter, and the bytes that are there. -/
inductive LoopbackEffect (s : StorageSource) : SourceCall → StorageSource → Prop where
  | same {c : SourceCall} {s' : StorageSource} (hused : s'.usedBytes = s.usedBytes)
      (hscan : s'.scanUsedSpace = s.scanUsedSpace) : LoopbackEffect s c s'
  | written {id : SourceId} {p : Text} {data : Bytes} {s' : StorageSource}
      (hactive : s.isActive = true) (hwritable : s.writable p = true)
      (hroom : s.hasRoom (s.existingSize p) data.length = true)
      (hused : s'.usedBytes = s.usedBytes + (data.length - s.existingSize p))
      (hscan : s'.scanUsedSpace + s.existingSize p = s.scanUsedSpace + data.length) :
      LoopbackEffect s ⟨id, .write data, p⟩ s'
  | deleted {id : SourceId} {p : Text} {s' : StorageSource}
      (hused : s'.usedBytes = max 0 (s.usedBytes - s.existingSize p))
      (hscan : s'.scanUsedSpace + s.existingSize p = s.scanUsedSpace) :
      LoopbackEffect s ⟨id, .delete, p⟩ s'
  | removed {id : SourceId} {p : Text} {s' : StorageSource} (hactive : s.isActive = true)
      (hdir : s.tree.isDirectory (StorageSource.resolve p) = true)
      (hused : s'.usedBytes = s.usedBytes)
      (hscan : s'.scanUsedSpace + s.tree.sizeBelow List.length (StorageSource.resolve p) =
        s.scanUsedSpace) :
      LoopbackEffect s ⟨id, .rmdir, p⟩ s'

namespace StorageSource

variable {s : StorageSource} {p : Text}

theorem usedBytes_raised (s : StorageSource) (e : DirectoryTree.Error) (spared : Bool) :
    (s.raised e spared).usedBytes = s.usedBytes := by
  unfold raised
  split
  · split_ifs <;> rfl
  · rfl

theorem raised_of_loopback {n : Nat} (hkind : s.kind = .loopback n)
    (e : DirectoryTree.Error) (spared : Bool) : s.raised e spared = s := by
  unfold raised
  rw [hkind]

/-- How a write of an active source that has room ends. -/
theorem write_of_room (hactive : s.isActive = true) {data : Bytes} (hroom : s.hasRoom (s.existingSize p) data.length = true) :
    if s.writable p then
      (s.write p data).1 = .ok () ∧
        (s.write p data).2.usedBytes = s.usedBytes + (data.length - s.existingSize p) ∧
        (s.write p data).2.scanUsedSpace + s.existingSize p = s.scanUsedSpace + data.length
    else
      (∃ e, (s.write p data).1 = .error (.os e)) ∧ (s.write p data).2.usedBytes = s.usedBytes ∧
        (s.write p data).2.scanUsedSpace = s.scanUsedSpace := by
  have hroom' : s.hasRoom (((s.tree.file? (resolve p)).map List.length).getD 0) data.length =
    true := hroom
  unfold write
  simp only [hactive, hroom', Bool.not_true, Bool.false_eq_true, if_false]
  cases hmake : s.tree.makedirs (resolve p).dropLast with
  | error e =>
      have hway : (resolve p).dropLast.inits.any s.tree.isFile = true := by
        by_contra hnone
        obtain ⟨t, ht⟩ := DirectoryTree.makedirs_eq_ok_iff.mpr (Bool.not_eq_true _ ▸ hnone)
        cases hmake.symm.trans ht
      rw [if_neg (by simp [writable, hway])]
      exact ⟨⟨e, rfl⟩, s.usedBytes_raised e true, by rw [scanUsedSpace, raised_tree]; rfl⟩
  | ok tree =>
      have hway := DirectoryTree.makedirs_eq_ok_iff.mp ⟨tree, hmake⟩
      have hwrite := DirectoryTree.write_of_makedirs hmake data
      have hsize : tree.totalSize List.length = s.tree.totalSize List.length :=
        DirectoryTree.totalSize_makedirs List.length hmake
      rw [DirectoryTree.isDirectory_of_makedirs hmake] at hwrite
      by_cases hdir : (decide (resolve p = []) || s.tree.isDirectory (resolve p)) = true
      · rw [if_neg (by simp [writable, hdir])]
        rw [if_pos hdir] at hwrite
        simp only [hwrite]
        refine ⟨⟨_, rfl⟩, usedBytes_raised _ _ _, ?_⟩
        rw [scanUsedSpace, raised_tree]
        exact hsize
      · rw [if_pos (by simpa [writable, hway] using hdir)]
        rw [if_neg hdir] at hwrite
        obtain ⟨tree', hwrite⟩ := hwrite
        have hold : tree.sizeAt List.length (resolve p) = s.existingSize p := by
          rw [existingSize, DirectoryTree.sizeAt, DirectoryTree.file?_makedirs hmake]
          rfl
        have hnew := DirectoryTree.totalSize_write List.length hwrite
        rw [hold, hsize] at hnew
        simp only [hwrite]
        exact ⟨trivial, rfl, hnew⟩

/-- A write that is out of service or has no room changes nothing. -/
theorem write_of_no_room {data : Bytes}
    (h : s.isActive = false ∨ s.hasRoom (s.existingSize p) data.length = false) :
    (s.write p data).2 = s := by
  unfold write
  by_cases hactive : s.isActive = true
  · have hroom : s.hasRoom (((s.tree.file? (resolve p)).map List.length).getD 0) data.length =
      false := h.resolve_left (by simp [hactive])
    simp only [hactive, hroom, Bool.not_true, Bool.not_false, Bool.false_eq_true, if_false, if_true]
  · simp only [Bool.not_eq_true _ ▸ hactive, Bool.not_false, if_true]

theorem write_refused_iff (hactive : s.isActive = true) {data : Bytes} : (s.write p data).1 = .error .insufficientSpace ↔
      s.hasRoom (s.existingSize p) data.length = false := by
  constructor
  · intro hrefused
    by_contra hroom
    have hwrite := write_of_room hactive (Bool.not_eq_false _ ▸ hroom)
    split_ifs at hwrite
    · cases hwrite.1.symm.trans hrefused
    · obtain ⟨e, he⟩ := hwrite.1
      cases he.symm.trans hrefused
  · intro hroom
    have hroom' : s.hasRoom (((s.tree.file? (resolve p)).map List.length).getD 0) data.length =
      false := hroom
    unfold write
    simp only [hactive, hroom', Bool.not_true, Bool.not_false, Bool.false_eq_true, if_false, if_true]

/-- The check of a loopback source: what a file grows by fits in what the counter leaves. -/
theorem hasRoom_iff {n : Nat} (hkind : s.kind = .loopback n) (existing new : Nat) :
    s.hasRoom existing new = true ↔
      (existing : Int) < new → (new : Int) - existing ≤ n - s.usedBytes := by
  unfold hasRoom
  rw [hkind]
  simp only [Bool.not_eq_true', Bool.and_eq_false_iff, decide_eq_false_iff_not]
  omega

/-- A directory is removed with what is below it, and the counter keeps the bytes. -/
theorem rmdir_of_directory (hactive : s.isActive = true)
    (hdir : s.tree.isDirectory (resolve p) = true) :
    (s.rmdir p).2.usedBytes = s.usedBytes ∧
      (s.rmdir p).2.scanUsedSpace + s.tree.sizeBelow List.length (resolve p) =
        s.scanUsedSpace := by
  obtain ⟨tree, hremove⟩ : ∃ tree, s.tree.rmtree (resolve p) = .ok tree := by
    unfold DirectoryTree.rmtree
    rw [if_pos hdir]
    exact ⟨_, rfl⟩
  have hrmdir : (s.rmdir p).2 = { s with tree } := by
    unfold rmdir
    rw [hactive, hremove]
    rfl
  rw [hrmdir]
  exact ⟨rfl, DirectoryTree.totalSize_rmtree List.length hremove⟩

theorem rmdir_of_no_directory {n : Nat} (hkind : s.kind = .loopback n)
    (h : ¬ (s.isActive = true ∧ s.tree.isDirectory (resolve p) = true)) : (s.rmdir p).2 = s := by
  unfold rmdir
  split_ifs with hactive
  · rfl
  · cases hremove : s.tree.rmtree (resolve p) with
    | ok tree =>
        unfold DirectoryTree.rmtree at hremove
        split_ifs at hremove with hdir
        exact absurd ⟨by simpa using hactive, hdir⟩ h
    | error e =>
        dsimp only
        rw [hkind]

/-- **What a call on a loopback source changes.** -/
theorem loopbackEffect {n : Nat} (hkind : s.kind = .loopback n) (c : SourceCall) :
    LoopbackEffect s c (c.apply s) := by
  obtain ⟨id, op, p⟩ := c
  cases op with
  | read =>
      refine .same ?_ ?_ <;>
      · rw [SourceCall.apply_read]
        unfold read
        split_ifs
        · rfl
        · split
          · rfl
          · rw [raised_of_loopback hkind]
  | «exists» => exact .same rfl rfl
  | write data =>
      rw [SourceCall.apply_write]
      by_cases hactive : s.isActive = true
      · by_cases hroom : s.hasRoom (s.existingSize p) data.length = true
        · have hwrite := write_of_room hactive hroom
          split_ifs at hwrite with hwritable
          · exact .written hactive hwritable hroom hwrite.2.1 hwrite.2.2
          · exact .same hwrite.2.1 hwrite.2.2
        · rw [write_of_no_room (Or.inr (Bool.not_eq_true _ ▸ hroom))]
          exact .same rfl rfl
      · rw [write_of_no_room (Or.inl (Bool.not_eq_true _ ▸ hactive))]
        exact .same rfl rfl
  | delete =>
      rw [SourceCall.apply_delete]
      unfold delete
      dsimp only
      split_ifs
      · exact .same rfl rfl
      · cases hremove : s.tree.remove (resolve p) with
        | ok tree =>
            exact .deleted rfl (DirectoryTree.totalSize_remove List.length hremove)
        | error e =>
            dsimp only
            rw [hkind]
            exact .same rfl rfl
  | mkdir =>
      rw [SourceCall.apply_mkdir]
      unfold mkdir
      split_ifs
      · exact .same rfl rfl
      · cases hmake : s.tree.makedirs (resolve p) with
        | ok tree => exact .same rfl (DirectoryTree.totalSize_makedirs List.length hmake)
        | error e =>
            dsimp only
            rw [raised_of_loopback hkind]
            exact .same rfl rfl
  | rmdir =>
      rw [SourceCall.apply_rmdir]
      by_cases h : s.isActive = true ∧ s.tree.isDirectory (resolve p) = true
      · obtain ⟨hused, hscan⟩ := rmdir_of_directory h.1 h.2
        exact .removed h.1 h.2 hused hscan
      · rw [rmdir_of_no_directory hkind h]
        exact .same rfl rfl

/-- A source out of service stays as it is. -/
theorem apply_of_inactive (hinactive : s.isActive = false) (c : SourceCall) : c.apply s = s := by
  obtain ⟨id, op, p⟩ := c
  cases op with
  | read =>
      rw [SourceCall.apply_read, read, hinactive]
      rfl
  | «exists» => rfl
  | write data =>
      rw [SourceCall.apply_write]
      exact write_of_no_room (Or.inl hinactive)
  | delete =>
      rw [SourceCall.apply_delete, delete, hinactive]
      rfl
  | mkdir =>
      rw [SourceCall.apply_mkdir, mkdir, hinactive]
      rfl
  | rmdir =>
      rw [SourceCall.apply_rmdir, rmdir, hinactive]
      rfl

end StorageSource

/-! ### The processes that have the source -/

/-- What one process keeps. -/
structure LoopbackHandle where
  isActive : Bool := false
  usedBytes : Int := 0

/-- The loopback file, the companion directory, and the processes. -/
structure Loopback (ι : Type) where
  sizeBytes : LoopbackSize
  fileExists : Bool
  companion : DirectoryTree FileName Bytes
  handle : ι → LoopbackHandle

/-- How the creation of the files ends; where it fails, the files may withstand the clean-up. -/
inductive Creation where
  | created
  | failed (fileLeft companionLeft : Bool)

/-- A call on a path of the companion directory: it is relative and never leads up, and what is
written or deleted has the name of a file. -/
structure CompanionCall extends SourceCall where
  relative : physicalPath.head? ≠ some '/'
  plain : Text.Plain physicalPath
  named : match op with
    | .write _ | .delete => ¬ Text.Silent ((physicalPath.splitOn '/').getLast?.getD [])
    | _ => True

/-- The names are those on the way that `os.path.join` leads from the companion directory. -/
theorem CompanionCall.location_resolve (c : CompanionCall) (companionDir : Text) :
    Text.location (Text.joinPath companionDir c.physicalPath) =
      Text.location companionDir ++ (StorageSource.resolve c.physicalPath).map Subtype.val := by
  rw [Text.location_joinPath c.relative c.plain]
  congr 1
  unfold Text.steps StorageSource.resolve
  rw [List.map_filterMap, ← List.filterMap_eq_filter]
  refine List.filterMap_congr fun name hname => ?_
  have hslash : '/' ∉ name := Text.not_mem_of_mem_splitOn hname
  by_cases hsilent : Text.Silent name
  · rw [dif_neg fun h => hsilent.elim h.1 h.2.1]
    simp [Option.guard, hsilent]
  · rw [dif_pos ⟨fun h => hsilent (Or.inl h), fun h => hsilent (Or.inr h), hslash⟩]
    simp [Option.guard, hsilent]

inductive LoopbackEvent (ι : Type) where
  | initializeSource (i : ι) (creation : Creation)
  | call (i : ι) (c : CompanionCall)

namespace Loopback

variable {ι : Type} [DecidableEq ι]

/-- The source as a process has it. -/
def source (s : Loopback ι) (i : ι) : StorageSource where
  kind := .loopback s.sizeBytes
  isActive := (s.handle i).isActive
  usedBytes := (s.handle i).usedBytes
  tree := s.companion

def setHandle (s : Loopback ι) (i : ι) (h : LoopbackHandle) : Loopback ι :=
  { s with handle := Function.update s.handle i h }

/-- The bytes in the companion directory. -/
def storedBytes (s : Loopback ι) : Nat := s.companion.totalSize List.length

/-- The companion directory is made where it is missing, and scanned. -/
def mount (s : Loopback ι) (i : ι) : Loopback ι :=
  match s.companion.makedirs [] with
  | .error _ => s
  | .ok companion =>
      { s with companion }.setHandle i
        { isActive := true, usedBytes := companion.totalSize List.length }

/-- `_cleanup_partial`. -/
def cleanupPartial (s : Loopback ι) (fileLeft companionLeft : Bool) : Loopback ι :=
  { s with
    fileExists := s.fileExists && fileLeft
    companion :=
      if companionLeft then s.companion
      else match s.companion.rmtree [] with
        | .ok companion => companion
        | .error _ => s.companion }

/-- `initialize`: a loopback file that is there is mounted as it is. -/
def initializeSource (s : Loopback ι) (i : ι) (creation : Creation) : Loopback ι :=
  if s.fileExists then s.mount i
  else match creation with
    | .created => { s with fileExists := true }.mount i
    | .failed fileLeft companionLeft =>
        ({ s with fileExists := true }.cleanupPartial fileLeft companionLeft).setHandle i
          { s.handle i with isActive := false }

/-- A call of one process. -/
def call (s : Loopback ι) (i : ι) (c : SourceCall) : Loopback ι :=
  let source := c.apply (s.source i)
  { s with companion := source.tree }.setHandle i
    { isActive := source.isActive, usedBytes := source.usedBytes }

def step (s : Loopback ι) : LoopbackEvent ι → Option (Loopback ι)
  | .initializeSource i creation => some (s.initializeSource i creation)
  | .call i c => some (s.call i c.toSourceCall)

/-- A loopback source that no process has opened, with an empty companion directory or none. -/
def fresh (sizeBytes : LoopbackSize) (fileExists : Bool) : Loopback ι where
  sizeBytes := sizeBytes
  fileExists := fileExists
  companion := DirectoryTree.root
  handle := fun _ => {}

/-! ### What each event changes -/

variable {s : Loopback ι} {i : ι}

theorem exists_step (s : Loopback ι) (e : LoopbackEvent ι) : ∃ s', s.step e = some s' := by
  cases e with
  | initializeSource i creation => exact ⟨_, rfl⟩
  | call i c => exact ⟨_, rfl⟩

theorem storedBytes_call (s : Loopback ι) (i : ι) (c : SourceCall) :
    (s.call i c).storedBytes = (c.apply (s.source i)).scanUsedSpace := rfl

theorem usedBytes_call (s : Loopback ι) (i : ι) (c : SourceCall) :
    ((s.call i c).handle i).usedBytes = (c.apply (s.source i)).usedBytes := by
  show (Function.update s.handle i _ i).usedBytes = _
  rw [Function.update_self]

theorem call_of_inactive (hinactive : (s.handle i).isActive = false) (c : SourceCall) :
    s.call i c = s := by
  have happly : c.apply (s.source i) = s.source i := StorageSource.apply_of_inactive hinactive c
  unfold call
  rw [happly]
  show { s with handle := Function.update s.handle i (s.handle i) } = s
  rw [Function.update_eq_self]

omit [DecidableEq ι] in
theorem call_effect (s : Loopback ι) (i : ι) (c : SourceCall) :
    LoopbackEffect (s.source i) c (c.apply (s.source i)) :=
  StorageSource.loopbackEffect rfl c

/-- What an initialization changes. -/
inductive InitializeEffect (s : Loopback ι) (i : ι) : Loopback ι → Prop where
  /-- The counter is put on what is there. -/
  | mounted {s' : Loopback ι} (hsize : s'.sizeBytes = s.sizeBytes) (hfile : s'.fileExists = true)
      (hstored : s'.storedBytes = s.storedBytes)
      (hhandle : s'.handle =
        Function.update s.handle i { isActive := true, usedBytes := s.storedBytes }) :
      InitializeEffect s i s'
  /-- A file is in the place of the companion directory. -/
  | raised {s' : Loopback ι} (hroot : s.companion.isFile [] = true)
      (hsize : s'.sizeBytes = s.sizeBytes) (hfile : s'.fileExists = true)
      (hstored : s'.storedBytes = s.storedBytes) (hhandle : s'.handle = s.handle) :
      InitializeEffect s i s'
  /-- The creation has failed. -/
  | cleaned {s' : Loopback ι} (hfile : s.fileExists = false) (hsize : s'.sizeBytes = s.sizeBytes)
      (hstored : s'.storedBytes ≤ s.storedBytes)
      (hhandle : s'.handle = Function.update s.handle i { s.handle i with isActive := false }) :
      InitializeEffect s i s'

theorem mount_effect (hfile : s.fileExists = true) (i : ι) : InitializeEffect s i (s.mount i) := by
  unfold mount
  cases hmake : s.companion.makedirs [] with
  | error e =>
      refine .raised ?_ rfl hfile rfl rfl
      by_contra hroot
      have hnone : ([] : List FileName).inits.any s.companion.isFile = false := by simpa using hroot
      obtain ⟨companion, hok⟩ := DirectoryTree.makedirs_eq_ok_iff.mpr hnone
      cases hmake.symm.trans hok
  | ok companion =>
      have hsize : companion.totalSize List.length = s.storedBytes :=
        DirectoryTree.totalSize_makedirs List.length hmake
      refine .mounted rfl hfile hsize ?_
      show Function.update s.handle i _ = _
      rw [hsize]

omit [DecidableEq ι] in
theorem storedBytes_cleanupPartial (s : Loopback ι) (fileLeft companionLeft : Bool) :
    (s.cleanupPartial fileLeft companionLeft).storedBytes ≤ s.storedBytes := by
  unfold cleanupPartial storedBytes
  dsimp only
  split_ifs
  · exact Nat.le_refl _
  · cases hremove : s.companion.rmtree [] with
    | error e => exact Nat.le_refl _
    | ok companion =>
        have := DirectoryTree.totalSize_rmtree List.length hremove
        dsimp only
        omega

/-- **What an initialization changes.** -/
theorem initialize_effect (s : Loopback ι) (i : ι) (creation : Creation) :
    InitializeEffect s i (s.initializeSource i creation) := by
  unfold initializeSource
  split_ifs with hfile
  · exact mount_effect hfile i
  · have hnone : s.fileExists = false := Bool.not_eq_true _ ▸ hfile
    cases creation with
    | created =>
        -- The file is there when the source is mounted; nothing else is looked at.
        cases mount_effect (s := { s with fileExists := true }) rfl i with
        | mounted hsize hfile' hstored hhandle => exact .mounted hsize hfile' hstored hhandle
        | raised hroot hsize hfile' hstored hhandle =>
            exact .raised hroot hsize hfile' hstored hhandle
        | cleaned hfile' => cases hfile'
    | failed fileLeft companionLeft =>
        exact .cleaned hnone rfl
          (storedBytes_cleanupPartial { s with fileExists := true } fileLeft companionLeft) rfl

end Loopback

namespace JbodManager

/-- The source that is selected is active and says it has the space. -/
theorem selectSource_spec {j : JbodManager} {diskFree : SourceId → Nat} {fileSize : Nat}
    {id : SourceId} (h : j.selectSource diskFree fileSize = some id) :
    ∃ s, j.sources.get id = some s ∧ s.isActive = true ∧
      fileSize ≤ s.getAvailableSpace (diskFree id) := by
  unfold selectSource at h
  obtain ⟨⟨id', space⟩, hbest, rfl⟩ := Option.map_eq_some_iff.mp h
  revert hbest
  refine Transitions.foldl_prefix_rule _ j.sources.rows
    (fun _ best => ∀ {id : SourceId} {space : Nat}, best = some (id, space) →
      ∃ s, j.sources.get id = some s ∧ s.isActive = true ∧
        fileSize ≤ s.getAvailableSpace (diskFree id)) (by intro _ _ hnone; cases hnone)
    (fun done x rest best hrows hprev id space hbest => ?_)
  dsimp only at hbest
  split_ifs at hbest with hinactive hbetter
  · exact hprev hbest
  · obtain ⟨rfl, rfl⟩ := Prod.mk.inj (Option.some_inj.mp hbest)
    have hmem : x ∈ j.sources.rows := hrows ▸ List.mem_append_right done List.mem_cons_self
    refine ⟨x.2, Table.get_of_mem_rows hmem, by simpa using hinactive, ?_⟩
    exact (of_decide_eq_true (Bool.and_eq_true_iff.mp (by simpa using hbetter)).1)
  · exact hprev hbest

end JbodManager

end StardustFS
