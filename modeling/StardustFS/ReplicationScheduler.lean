import StardustFS.ReplicationManager

/-! The background cycles of the daemon. A backup cycle replicates files of this device that have no
full backup, leaving out those it has noted as missing here; a heal cycle checks the health of the
replicated files and renews the replicas of a file that has been short of them for the time of grace.
Both cut the list of the store at the limit of a cycle. What the replication manager answers for a
file is an argument of the cycle, and so is whether the stop signal has been set. -/

namespace StardustFS

namespace MetadataStore

/-- The live files of one of the statuses, in storage order; with an owner only its own files and
those without one. -/
def listVirtualPathsForReplication (s : MetadataStore) (statuses : List ReplicationStatus)
    (ownerDeviceId : Option DeviceId) : List Text :=
  (s.files.rows.filter fun x =>
    !x.2.deleted && decide (x.2.replicationStatus ∈ statuses) &&
      (ownerDeviceId.isNone || decide (x.2.deviceId = ownerDeviceId) || x.2.deviceId.isNone)).map
    Prod.fst

end MetadataStore

/-- The slice `paths[:max]`: a negative bound counts from the end. -/
def sliceTo {α : Type*} (paths : List α) (max : Int) : List α :=
  if 0 ≤ max then paths.take max.toNat else paths.take (paths.length - max.natAbs)

/-- How `replicate` ends for a file. -/
inductive BackupAnswer where
  | replicated (status : ReplicationStatus)
  | fileNotFound
  | failed
  deriving DecidableEq, Repr

/-- What a heal cycle meets: its clock reading, whether the stop signal is set when the turn of a file
comes, whether the health check answers and finds the file short of replicas (`none` for an
exception), and whether `ensure_replicas` returns. -/
structure HealTurn where
  now : Time
  stopped : Text → Bool := fun _ => false
  degraded : Text → Option Bool
  ensured : Text → Bool := fun _ => true

/-- The scheduler. `metadata` is the query of the store it was given. -/
structure ReplicationScheduler where
  metadata : List ReplicationStatus → Option DeviceId → List Text
  ownerDeviceId : Option DeviceId
  maxFiles : Int := 20
  healGrace : Time := 86400
  degradedSince : Table Text Time := Table.empty
  skipBackup : List Text := []

/-- A backup cycle: the files `replicate` was called for, the number it returns, and the scheduler
after it. -/
structure BackupCycle where
  called : List Text
  processed : Nat
  after : ReplicationScheduler

/-- A heal cycle, with the files whose health was checked. -/
structure HealCycle where
  checked : List Text
  repaired : Nat
  after : ReplicationScheduler

namespace ReplicationScheduler

/-- The files without a full backup. -/
def backupPaths (s : ReplicationScheduler) : List Text :=
  s.metadata [.none, .pending] s.ownerDeviceId

def healPaths (s : ReplicationScheduler) : List Text :=
  s.metadata [.replicated] s.ownerDeviceId

/-- The limit is applied before the files to skip are left out. -/
def targets (s : ReplicationScheduler) : List Text :=
  (sliceTo s.backupPaths s.maxFiles).filter fun p => decide (p ∉ s.skipBackup)

/-- The coroutines of all targets start together, so the stop signal is set for all of them or for
none. -/
def runBackupCycle (s : ReplicationScheduler) (stopped : Bool) (answers : Text → BackupAnswer) :
    BackupCycle :=
  if s.targets = [] ∨ stopped then ⟨[], 0, s⟩
  else
    { called := s.targets
      processed := s.targets.countP fun p => answers p matches .replicated _
      after := { s with
        skipBackup := s.targets.filter (fun p => answers p = .fileNotFound) ++ s.skipBackup } }

/-- The turn of one file that is checked: whether its replicas were renewed. -/
def healPath (s : ReplicationScheduler) (turn : HealTurn) (p : Text) : Bool × ReplicationScheduler :=
  match turn.degraded p with
  | none => (false, s)
  | some false => (false, { s with degradedSince := s.degradedSince.deleteWhere fun q _ => q = p })
  | some true =>
      let first := (s.degradedSince.get p).getD turn.now
      let noted := s.degradedSince.put p first
      if turn.now - first < s.healGrace then (false, { s with degradedSince := noted })
      else if turn.ensured p then
        (true, { s with degradedSince := noted.deleteWhere fun q _ => q = p })
      else (false, { s with degradedSince := noted })

/-- The loop of a heal cycle; it ends where the stop signal is found set. -/
def healLoop (s : ReplicationScheduler) (turn : HealTurn) : List Text → HealCycle
  | [] => ⟨[], 0, s⟩
  | p :: paths =>
      if turn.stopped p then ⟨[], 0, s⟩
      else
        let (renewed, next) := s.healPath turn p
        let rest := next.healLoop turn paths
        { rest with
          checked := p :: rest.checked
          repaired := rest.repaired + if renewed then 1 else 0 }

def runHealCycle (s : ReplicationScheduler) (turn : HealTurn) : HealCycle :=
  s.healLoop turn (sliceTo s.healPaths s.maxFiles)

/-- The first heal cycles one after the other: the files they checked, and the scheduler after
them. -/
def healCycles (s : ReplicationScheduler) (turns : Nat → HealTurn) :
    Nat → List Text × ReplicationScheduler
  | 0 => ([], s)
  | n + 1 =>
      let (checked, before) := s.healCycles turns n
      let cycle := before.runHealCycle (turns n)
      (checked ++ cycle.checked, cycle.after)

end ReplicationScheduler

section Slices

variable {α : Type*}

theorem sliceTo_eq_take (paths : List α) {max : Int} (h : 0 ≤ max) :
    sliceTo paths max = paths.take max.toNat :=
  if_pos h

/-- A slice to a bound leaves an element out unless the list is within the bound. -/
theorem length_sliceTo_lt {paths : List α} {max : Int} (hne : paths ≠ [])
    (h : max < (paths.length : Int)) : (sliceTo paths max).length < paths.length := by
  have hpos : 0 < paths.length := List.length_pos_iff.mpr hne
  unfold sliceTo
  split_ifs with hmax
  · rw [List.length_take]
    omega
  · rw [List.length_take]
    omega

theorem sliceTo_eq_self {paths : List α} {max : Int} (h : paths = [] ∨ (paths.length : Int) ≤ max) :
    sliceTo paths max = paths := by
  rcases h with rfl | h
  · simp [sliceTo]
  · have hmax : 0 ≤ max := by omega
    rw [sliceTo_eq_take paths hmax]
    exact List.take_of_length_le (by omega)

/-- Of a list without repetition every element is in a slice just where the slice is the list. -/
theorem forall_mem_sliceTo_iff {paths : List α} (hnodup : paths.Nodup) (max : Int) :
    (∀ p ∈ paths, p ∈ sliceTo paths max) ↔ paths = [] ∨ (paths.length : Int) ≤ max := by
  constructor
  · intro hall
    by_contra hnot
    rw [not_or, not_le] at hnot
    have hlt := length_sliceTo_lt hnot.1 hnot.2
    have hle := (List.subperm_of_subset hnodup hall).length_le
    omega
  · intro h p hp
    rwa [sliceTo_eq_self h]

/-- A filter after a cut at `n` keeps as many elements as a cut of the filtered list would, if all
before the cut pass or none behind it does, and only then. -/
theorem length_filter_take_iff (l : List α) (keep : α → Bool) (n : Nat) :
    ((l.take n).filter keep).length = min n (l.filter keep).length ↔
      (∀ x ∈ l.take n, keep x) ∨ ∀ x ∈ l.drop n, ¬ keep x := by
  have hsplit : (l.filter keep).length =
      ((l.take n).filter keep).length + ((l.drop n).filter keep).length := by
    rw [← List.length_append, ← List.filter_append, List.take_append_drop]
  have hle : ((l.take n).filter keep).length ≤ (l.take n).length := List.length_filter_le ..
  have hfirst : (∀ x ∈ l.take n, keep x) ↔
      ((l.take n).filter keep).length = (l.take n).length := by
    rw [List.length_filter_eq_length_iff]
  have hrest : (∀ x ∈ l.drop n, ¬ keep x) ↔ ((l.drop n).filter keep).length = 0 := by
    rw [List.length_eq_zero_iff, List.filter_eq_nil_iff]
  have htake : (l.take n).length = min n l.length := List.length_take
  have hdrop : ((l.drop n).filter keep).length ≤ l.length - n :=
    (List.length_filter_le ..).trans_eq List.length_drop
  rw [hfirst, hrest]
  omega

/-- Where the last element of a list without repetition is reached, all elements are. -/
theorem takeWhile_eq_self_of_getLast {l : List α} {keep : α → Bool} (hnodup : l.Nodup) (hne : l ≠ [])
    (hlast : l.getLast hne ∈ l.takeWhile keep) : l.takeWhile keep = l := by
  have hsplit : l.takeWhile keep ++ l.dropWhile keep = l := List.takeWhile_append_dropWhile
  by_cases hrest : l.dropWhile keep = []
  · rwa [hrest, List.append_nil] at hsplit
  · have hend : l.getLast hne = (l.dropWhile keep).getLast hrest := by
      calc l.getLast hne
          = (l.takeWhile keep ++ l.dropWhile keep).getLast (by simpa using hne) := by
            simp only [hsplit]
        _ = (l.dropWhile keep).getLast hrest := List.getLast_append_of_right_ne_nil _ _ hrest
    have hmem := List.getLast_mem hrest
    rw [← hend] at hmem
    rw [← hsplit] at hnodup
    exact absurd hmem (List.disjoint_of_nodup_append hnodup hlast)

end Slices

namespace ReplicationScheduler

/-- The files the backup cycle may still replicate: those not in the skip set. -/
def candidates (s : ReplicationScheduler) : List Text :=
  s.backupPaths.filter fun p => decide (p ∉ s.skipBackup)

theorem called_runBackupCycle (s : ReplicationScheduler) (stopped : Bool)
    (answers : Text → BackupAnswer) :
    (s.runBackupCycle stopped answers).called = if stopped then [] else s.targets := by
  by_cases htargets : s.targets = []
  · simp [runBackupCycle, htargets]
  · cases stopped with
    | false => simp [runBackupCycle, htargets]
    | true => simp [runBackupCycle]

/-- A backup cycle has room for all that is due: no file to skip takes the turn of another one within
the limit, and the stop signal is not set while a file waits. -/
structure BackupFits (s : ReplicationScheduler) (stopped : Bool) : Prop where
  nonneg : 0 ≤ s.maxFiles
  turns : (∀ p ∈ s.backupPaths.take s.maxFiles.toNat, p ∉ s.skipBackup) ∨
    ∀ p ∈ s.backupPaths.drop s.maxFiles.toNat, p ∈ s.skipBackup
  running : stopped = true → s.maxFiles = 0 ∨ ∀ p ∈ s.backupPaths, p ∈ s.skipBackup

theorem length_targets_iff (s : ReplicationScheduler) (hmax : 0 ≤ s.maxFiles) :
    (s.targets.length : Int) = min s.maxFiles s.candidates.length ↔
      (∀ p ∈ s.backupPaths.take s.maxFiles.toNat, p ∉ s.skipBackup) ∨
        ∀ p ∈ s.backupPaths.drop s.maxFiles.toNat, p ∈ s.skipBackup := by
  have hcut := length_filter_take_iff s.backupPaths (fun p => decide (p ∉ s.skipBackup))
    s.maxFiles.toNat
  simp only [decide_eq_true_eq, not_not] at hcut
  rw [← hcut, targets, sliceTo_eq_take _ hmax, candidates]
  omega

theorem candidates_eq_nil_iff (s : ReplicationScheduler) :
    s.candidates = [] ↔ ∀ p ∈ s.backupPaths, p ∈ s.skipBackup := by
  simp [candidates, List.filter_eq_nil_iff]

/-- A backup cycle calls `replicate` for as many files as are due and within the limit, just where it
has room for them. -/
theorem backupTurns_iff (s : ReplicationScheduler) (stopped : Bool)
    (answers : Text → BackupAnswer) :
    ((s.runBackupCycle stopped answers).called.length : Int) =
      min s.maxFiles s.candidates.length ↔ s.BackupFits stopped := by
  rw [called_runBackupCycle]
  by_cases hmax : 0 ≤ s.maxFiles
  · cases stopped with
    | false =>
        rw [if_neg Bool.false_ne_true, s.length_targets_iff hmax]
        exact ⟨fun h => ⟨hmax, h, fun hstop => absurd hstop Bool.false_ne_true⟩,
          BackupFits.turns⟩
    | true =>
        have hnone : ((0 : Nat) : Int) = min s.maxFiles s.candidates.length ↔
            s.maxFiles = 0 ∨ s.candidates = [] := by
          rw [← List.length_eq_zero_iff]
          omega
        rw [if_pos rfl, List.length_nil, hnone, candidates_eq_nil_iff]
        constructor
        · intro h
          refine ⟨hmax, ?_, fun _ => h⟩
          rcases h with hzero | hskip
          · exact Or.inl (by simp [hzero])
          · exact Or.inr fun p hp => hskip p (List.mem_of_mem_drop hp)
        · intro h
          exact h.running rfl
  · constructor
    · intro h
      omega
    · intro h
      exact absurd h.nonneg hmax

/-- A cycle over a list whose first files are all to be skipped replicates nothing and notes nothing,
so every later one does the same. -/
theorem runBackupCycle_of_skipped {s : ReplicationScheduler}
    (hskip : ∀ p ∈ sliceTo s.backupPaths s.maxFiles, p ∈ s.skipBackup) (stopped : Bool)
    (answers : Text → BackupAnswer) : s.runBackupCycle stopped answers = ⟨[], 0, s⟩ := by
  have htargets : s.targets = [] := by
    simpa [targets, List.filter_eq_nil_iff] using hskip
  exact if_pos (Or.inl htargets)

/-- What the turn of a file leaves as it was. -/
structure SameConfig (s s' : ReplicationScheduler) : Prop where
  metadata : s'.metadata = s.metadata
  ownerDeviceId : s'.ownerDeviceId = s.ownerDeviceId
  maxFiles : s'.maxFiles = s.maxFiles
  skipBackup : s'.skipBackup = s.skipBackup

theorem SameConfig.refl (s : ReplicationScheduler) : SameConfig s s := ⟨rfl, rfl, rfl, rfl⟩

theorem SameConfig.trans {s s' s'' : ReplicationScheduler} (h : SameConfig s s')
    (h' : SameConfig s' s'') : SameConfig s s'' where
  metadata := h'.metadata.trans h.metadata
  ownerDeviceId := h'.ownerDeviceId.trans h.ownerDeviceId
  maxFiles := h'.maxFiles.trans h.maxFiles
  skipBackup := h'.skipBackup.trans h.skipBackup

theorem SameConfig.healPaths {s s' : ReplicationScheduler} (h : SameConfig s s') :
    s'.healPaths = s.healPaths := by
  rw [ReplicationScheduler.healPaths, h.metadata, h.ownerDeviceId, ReplicationScheduler.healPaths]

theorem sameConfig_healPath (s : ReplicationScheduler) (turn : HealTurn) (p : Text) :
    SameConfig s (s.healPath turn p).2 := by
  unfold healPath
  split
  · exact .refl s
  · exact ⟨rfl, rfl, rfl, rfl⟩
  · dsimp only
    split_ifs <;> exact ⟨rfl, rfl, rfl, rfl⟩

theorem healLoop_spec (s : ReplicationScheduler) (turn : HealTurn) (paths : List Text) :
    (s.healLoop turn paths).checked = paths.takeWhile (fun p => !turn.stopped p) ∧
      SameConfig s (s.healLoop turn paths).after := by
  induction paths generalizing s with
  | nil => exact ⟨rfl, .refl s⟩
  | cons p paths ih =>
      rw [healLoop, List.takeWhile_cons]
      cases hstop : turn.stopped p with
      | true => exact ⟨rfl, .refl s⟩
      | false =>
          obtain ⟨hchecked, hafter⟩ := ih (s.healPath turn p).2
          exact ⟨congrArg (p :: ·) hchecked, (s.sameConfig_healPath turn p).trans hafter⟩

/-- The files checked by a cycle: of the first ones of the list, those before the stop. -/
def reached (s : ReplicationScheduler) (turn : HealTurn) : List Text :=
  (sliceTo s.healPaths s.maxFiles).takeWhile fun p => !turn.stopped p

/-- Each of the cycles reads the same list and checks the first files of it again. -/
theorem healCycles_spec (s : ReplicationScheduler) (turns : Nat → HealTurn) (n : Nat) :
    (s.healCycles turns n).1 = (List.range n).flatMap (fun k => s.reached (turns k)) ∧
      SameConfig s (s.healCycles turns n).2 := by
  induction n with
  | zero => exact ⟨rfl, .refl s⟩
  | succ n ih =>
      obtain ⟨hchecked, hsame⟩ := ih
      obtain ⟨hcycle, hafter⟩ := healLoop_spec (s.healCycles turns n).2 (turns n)
        (sliceTo (s.healCycles turns n).2.healPaths (s.healCycles turns n).2.maxFiles)
      refine ⟨?_, hsame.trans hafter⟩
      rw [hsame.healPaths, hsame.maxFiles] at hcycle
      rw [List.range_succ, List.flatMap_append, ← hchecked, List.flatMap_singleton]
      rw [healCycles]
      refine congrArg ((s.healCycles turns n).1 ++ ·) ?_
      rw [runHealCycle, hsame.healPaths, hsame.maxFiles]
      exact hcycle

theorem mem_healCycles_iff (s : ReplicationScheduler) (turns : Nat → HealTurn) (n : Nat) (p : Text) :
    p ∈ (s.healCycles turns n).1 ↔ ∃ k < n, p ∈ s.reached (turns k) := by
  rw [(s.healCycles_spec turns n).1]
  simp only [List.mem_flatMap, List.mem_range]

/-- The heal cycles have room for all files: the list is within the limit, and one cycle ends before
the stop. -/
def HealFits (s : ReplicationScheduler) (turns : Nat → HealTurn) : Prop :=
  s.healPaths = [] ∨ (s.healPaths.length : Int) ≤ s.maxFiles ∧
    ∃ k, ∀ p ∈ s.healPaths, (turns k).stopped p = false

/-- After finitely many heal cycles every file has been checked, just where the cycles have room for
all of them. -/
theorem healTurns_iff {s : ReplicationScheduler} (hnodup : s.healPaths.Nodup)
    (turns : Nat → HealTurn) :
    (∃ n, ∀ p ∈ s.healPaths, p ∈ (s.healCycles turns n).1) ↔ s.HealFits turns := by
  simp only [mem_healCycles_iff]
  constructor
  · rintro ⟨n, hall⟩
    by_cases hempty : s.healPaths = []
    · exact Or.inl hempty
    · have hslice : ∀ p ∈ s.healPaths, p ∈ sliceTo s.healPaths s.maxFiles := by
        intro p hp
        obtain ⟨k, -, hreached⟩ := hall p hp
        exact (List.takeWhile_prefix _).subset hreached
      have hfits := ((forall_mem_sliceTo_iff hnodup s.maxFiles).mp hslice).resolve_left hempty
      -- The cycle that reaches the last file has reached all.
      obtain ⟨k, -, hlast⟩ := hall _ (List.getLast_mem hempty)
      rw [reached, sliceTo_eq_self (Or.inr hfits)] at hlast
      have hwhole := takeWhile_eq_self_of_getLast hnodup hempty hlast
      refine Or.inr ⟨hfits, k, fun p hp => ?_⟩
      have hgoes := List.takeWhile_eq_self_iff.mp hwhole p hp
      exact Bool.not_eq_true' _ |>.mp hgoes
  · rintro (hempty | ⟨hfits, k, hrunning⟩)
    · exact ⟨0, fun p hp => by rw [hempty] at hp; cases hp⟩
    · refine ⟨k + 1, fun p hp => ⟨k, Nat.lt_succ_self k, ?_⟩⟩
      rw [reached, sliceTo_eq_self (Or.inr hfits), List.takeWhile_eq_self_iff.mpr]
      · exact hp
      · intro q hq
        simp [hrunning q hq]

/-- **Every file gets its turn** just where both kinds of cycle have room: `replicate` is called for as
many files as are due and within the limit, and every replicated file is checked after finitely many
heal cycles. -/
theorem turns_iff {s : ReplicationScheduler} (hnodup : s.healPaths.Nodup) (stopped : Bool)
    (answers : Text → BackupAnswer) (turns : Nat → HealTurn) :
    (((s.runBackupCycle stopped answers).called.length : Int) = min s.maxFiles s.candidates.length ∧
        ∃ n, ∀ p ∈ s.healPaths, p ∈ (s.healCycles turns n).1) ↔
      s.BackupFits stopped ∧ s.HealFits turns :=
  and_congr (s.backupTurns_iff stopped answers) (healTurns_iff hnodup turns)

/-- Two files without a backup, and two replicated ones. -/
def crowdedStore : MetadataStore where
  files := ["/a", "/b", "/c", "/d"].foldl (fun t p =>
    t.put p.toList
      { sourceId := "disk", physicalPath := p.toList, fileSize := 1, createdAt := 0, modifiedAt := 0
        replicationStatus := if p = "/a" ∨ p = "/b" then .none else .replicated }) Table.empty
  directories := Table.empty

/-- One file may be handled in a cycle, and the first is noted as missing here. -/
def crowdedScheduler : ReplicationScheduler where
  metadata := crowdedStore.listVirtualPathsForReplication
  ownerDeviceId := some "device"
  maxFiles := 1
  skipBackup := ["/a".toList]

/-- The scheduler with the limit the daemon starts with. -/
def roomyScheduler : ReplicationScheduler := { crowdedScheduler with maxFiles := 20, skipBackup := [] }

theorem roomyScheduler_turns :
    (((roomyScheduler.runBackupCycle false fun _ => .replicated .replicated).called.length : Int) =
        min roomyScheduler.maxFiles roomyScheduler.candidates.length ∧
      ∃ n, ∀ p ∈ roomyScheduler.healPaths,
        p ∈ (roomyScheduler.healCycles (fun _ => { now := 0, degraded := fun _ => some true }) n).1) :=
  (turns_iff (by decide) false (fun _ => .replicated .replicated) _).mpr
    ⟨⟨by decide, Or.inl (by decide), fun hstop => absurd hstop Bool.false_ne_true⟩,
      Or.inr ⟨by decide, 0, fun _ _ => rfl⟩⟩

/-- The missing file takes the only turn of the backup cycle, and the second replicated file is never
checked. -/
theorem crowded_files_starve :
    ((crowdedScheduler.runBackupCycle false fun _ => .replicated .replicated).called.length = 0 ∧
      min crowdedScheduler.maxFiles crowdedScheduler.candidates.length = 1) ∧
    ∀ turns n, "/d".toList ∈ crowdedScheduler.healPaths ∧
      "/d".toList ∉ (crowdedScheduler.healCycles turns n).1 := by
  refine ⟨by decide, fun turns n => ⟨by decide, fun hchecked => ?_⟩⟩
  obtain ⟨k, -, hreached⟩ := (mem_healCycles_iff _ _ _ _).mp hchecked
  have hslice : "/d".toList ∈ sliceTo crowdedScheduler.healPaths crowdedScheduler.maxFiles :=
    (List.takeWhile_prefix _).subset hreached
  revert hslice
  decide

end ReplicationScheduler

end StardustFS
