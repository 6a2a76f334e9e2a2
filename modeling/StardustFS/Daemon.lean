import Mathlib.Data.Fintype.Basic
import StardustFS.MetadataStore
import StardustFS.Transitions

/-! The daemons on one metadata database. They know of each other by two files: the control file with
the last heartbeat, and the stop sentinel. A start reads the control file, prepares for as long as it
takes, and only then writes its own; the end of a daemon cleans up and removes both files, whosever
they are. Every step below is one access to the files. -/

namespace StardustFS

/-- Without a heartbeat for this long a daemon is taken for dead. -/
def staleSeconds : Time := 15

structure Control (π : Type*) where
  pid : π
  startedAt : Time
  heartbeatAt : Time
  deriving DecidableEq, Repr

structure DaemonStatus (π : Type*) where
  running : Bool
  stale : Bool
  pid : Option π := none
  startedAt : Option Time := none
  heartbeatAge : Option Time := none
  deriving DecidableEq, Repr

inductive DaemonPhase where
  | absent
  /-- The check has been passed, the start-up is under way. -/
  | starting
  /-- In `serve`, before the control file is written. -/
  | entered
  /-- In the loop, with the last heartbeat. -/
  | serving (startedAt heartbeatAt : Time)
  /-- The loop is left, the cleanup runs. -/
  | leaving
  /-- The control file is removed, the sentinel not yet. -/
  | removing
  | exited
  deriving DecidableEq, Repr

/-- The last heartbeat of a serving process. -/
def DaemonPhase.heartbeat? : DaemonPhase → Option Time
  | .serving _ heartbeatAt => some heartbeatAt
  | _ => none

/-- The files of one database, and the processes. -/
structure DaemonHost (π : Type*) where
  phase : π → DaemonPhase
  control : Option (Control π)
  sentinel : Bool
  now : Time

inductive DaemonEvent (π : Type*) where
  | check (p : π)
  /-- The start-up ends the process. -/
  | abort (p : π)
  | enter (p : π)
  | claim (p : π)
  | heartbeat (p : π)
  /-- The loop ends, at the sentinel or at a signal or exception. -/
  | leave (p : π) (interrupted : Bool)
  | removeControl (p : π)
  | removeSentinel (p : π)
  | kill (p : π)
  | signalStop
  | pass (seconds : Nat)
  deriving DecidableEq, Repr

namespace DaemonHost

variable {π : Type*} [DecidableEq π]

omit [DecidableEq π] in
def readStatus (s : DaemonHost π) : DaemonStatus π :=
  match s.control with
  | none => { running := false, stale := false }
  | some c =>
      let age := s.now - c.heartbeatAt
      let running := decide (age < staleSeconds)
      { running, stale := !running, pid := some c.pid, startedAt := some c.startedAt
        heartbeatAge := some age }

def setPhase (s : DaemonHost π) (p : π) (phase : DaemonPhase) : DaemonHost π :=
  { s with phase := Function.update s.phase p phase }

def writeControl (s : DaemonHost π) (p : π) (startedAt : Time) : DaemonHost π :=
  { s.setPhase p (.serving startedAt s.now) with control := some ⟨p, startedAt, s.now⟩ }

def step (s : DaemonHost π) : DaemonEvent π → Option (DaemonHost π)
  | .check p =>
      if s.phase p = .absent then
        some (s.setPhase p (if s.readStatus.running then .exited else .starting))
      else none
  | .abort p => if s.phase p = .starting then some (s.setPhase p .exited) else none
  | .enter p =>
      if s.phase p = .starting then some { s.setPhase p .entered with sentinel := false } else none
  | .claim p => if s.phase p = .entered then some (s.writeControl p s.now) else none
  | .heartbeat p =>
      match s.phase p with
      | .serving startedAt _ => some (s.writeControl p startedAt)
      | _ => none
  | .leave p interrupted =>
      match s.phase p with
      | .serving _ _ => if interrupted || s.sentinel then some (s.setPhase p .leaving) else none
      | _ => none
  | .removeControl p =>
      if s.phase p = .leaving then some { s.setPhase p .removing with control := none } else none
  | .removeSentinel p =>
      if s.phase p = .removing then some { s.setPhase p .exited with sentinel := false } else none
  | .kill p =>
      if s.phase p ≠ .absent ∧ s.phase p ≠ .exited then some (s.setPhase p .exited) else none
  | .signalStop => some { s with sentinel := s.sentinel || s.control.isSome }
  | .pass seconds => some { s with now := s.now + seconds }

/-- The process is in its serving loop. -/
def Serving (s : DaemonHost π) (p : π) : Prop :=
  ∃ startedAt heartbeatAt, s.phase p = .serving startedAt heartbeatAt

/-- The process has passed its check and is not through with its end. -/
def Active (s : DaemonHost π) (p : π) : Prop := s.phase p ≠ .absent ∧ s.phase p ≠ .exited

/-- The process is between its check and its control file, or between its loop and its end. -/
def InWindow (s : DaemonHost π) (p : π) : Prop :=
  s.phase p = .starting ∨ s.phase p = .entered ∨ s.phase p = .leaving ∨ s.phase p = .removing

/-- Heartbeats are on time: the clock does not go past the next one that is due. -/
def OnTime (s : DaemonHost π) : DaemonEvent π → Prop
  | .pass seconds => ∀ p, ∀ heartbeatAt ∈ (s.phase p).heartbeat?,
      s.now + seconds < heartbeatAt + staleSeconds
  | _ => True

/-- A check is refused, or no other process starts up or comes to its end meanwhile. -/
def Exclusive (s : DaemonHost π) : DaemonEvent π → Prop
  | .check p => s.readStatus.running = true ∨ ∀ q, q ≠ p → ¬ s.InWindow q
  | _ => True

/-- What holds in a run: no two daemons serve at once; a daemon that exits removes no other one's
control file; and a stop requested while a daemon serves is there as long as it does. -/
structure OneDaemon (start : DaemonHost π) (es : List (DaemonEvent π)) : Prop where
  alone : ∀ pre post m p q, es = pre ++ post → Transitions.run step start pre = some m →
    m.Serving p → m.Serving q → p = q
  ownControl : ∀ pre p post m c, es = pre ++ .removeControl p :: post →
    Transitions.run step start pre = some m → m.control = some c → c.pid = p
  stopKept : ∀ pre mid post m m' p, es = pre ++ .signalStop :: (mid ++ post) →
    Transitions.run step start pre = some m → m.Serving p →
    Transitions.run step m (.signalStop :: mid) = some m' → m'.Serving p → m'.sentinel = true

/-- No process is there. The files may be of earlier ones. -/
def Fresh (s : DaemonHost π) : Prop := ∀ p, s.phase p = .absent

/-! ### Runs with exclusive checks -/

@[simp] theorem phase_setPhase_self (s : DaemonHost π) (p : π) (phase : DaemonPhase) :
    (s.setPhase p phase).phase p = phase :=
  Function.update_self ..

theorem phase_setPhase_of_ne (s : DaemonHost π) {p q : π} (phase : DaemonPhase) (h : q ≠ p) :
    (s.setPhase p phase).phase q = s.phase q :=
  Function.update_of_ne h ..

omit [DecidableEq π] in
theorem active_of_phase {s : DaemonHost π} {p : π} {phase : DaemonPhase} (h : s.phase p = phase)
    (hphase : phase ≠ .absent ∧ phase ≠ .exited) : s.Active p := by
  rw [Active, h]
  exact hphase

omit [DecidableEq π] in
theorem Serving.active {s : DaemonHost π} {p : π} (h : s.Serving p) : s.Active p := by
  obtain ⟨startedAt, heartbeatAt, h⟩ := h
  exact active_of_phase h ⟨DaemonPhase.noConfusion, DaemonPhase.noConfusion⟩

omit [DecidableEq π] in
/-- An active process serves, or is in one of the windows. -/
theorem Active.cases {s : DaemonHost π} {p : π} (h : s.Active p) : s.Serving p ∨ s.InWindow p := by
  unfold InWindow Serving
  cases hp : s.phase p with
  | absent => exact absurd hp h.1
  | exited => exact absurd hp h.2
  | serving startedAt heartbeatAt => exact Or.inl ⟨startedAt, heartbeatAt, rfl⟩
  | _ => simp

/-- The control file is the process's own while it serves and while it leaves, and in the loop its
heartbeat is not stale. -/
structure OwnsControl (s : DaemonHost π) (p : π) : Prop where
  serving : ∀ startedAt heartbeatAt, s.phase p = .serving startedAt heartbeatAt →
    s.control = some ⟨p, startedAt, heartbeatAt⟩ ∧ s.now < heartbeatAt + staleSeconds
  leaving : s.phase p = .leaving → ∃ c, s.control = some c ∧ c.pid = p

/-- At most one process is active, and it owns the control file. -/
structure Single (s : DaemonHost π) : Prop where
  alone : ∀ p q, s.Active p → s.Active q → p = q
  owns : ∀ p, s.Active p → s.OwnsControl p

omit [DecidableEq π] in
theorem ownsControl_of_phase {s : DaemonHost π} {p : π} {phase : DaemonPhase} (h : s.phase p = phase)
    (hserving : ∀ startedAt heartbeatAt, phase ≠ .serving startedAt heartbeatAt)
    (hleaving : phase ≠ .leaving) : s.OwnsControl p :=
  ⟨fun _ _ hp => absurd (h.symm.trans hp) (hserving _ _), fun hp => absurd (h.symm.trans hp) hleaving⟩

theorem ownsControl_writeControl (s : DaemonHost π) (p : π) (startedAt : Time) :
    (s.writeControl p startedAt).OwnsControl p := by
  have hphase : (s.writeControl p startedAt).phase p = .serving startedAt s.now :=
    Function.update_self ..
  refine ⟨fun startedAt' heartbeatAt hserving => ?_, fun hleaving => ?_⟩
  · obtain ⟨rfl, rfl⟩ := DaemonPhase.serving.inj (hphase.symm.trans hserving)
    exact ⟨rfl, lt_add_of_pos_right _ (by decide)⟩
  · rw [hphase] at hleaving
    cases hleaving

omit [DecidableEq π] in
theorem single_of_fresh {s : DaemonHost π} (h : s.Fresh) : Single s :=
  ⟨fun p _ hp => absurd (h p) hp.1, fun p hp => absurd (h p) hp.1⟩

/-- A step of the only active process keeps the invariant where the process goes on to own the control
file. -/
theorem single_of_step {s s' : DaemonHost π} {p : π} (h : Single s) (hp : s.Active p)
    (hothers : ∀ q, q ≠ p → s'.phase q = s.phase q) (howns : s'.OwnsControl p) : Single s' := by
  have honly : ∀ q, s'.Active q → q = p := by
    intro q hq
    by_contra hne
    rw [Active, hothers q hne] at hq
    exact hne (h.alone q p hq hp)
  refine ⟨fun q r hq hr => (honly q hq).trans (honly r hr).symm, fun q hq => ?_⟩
  rw [honly q hq]
  exact howns

omit [DecidableEq π] in
/-- A check passes only where no process is active. -/
theorem not_active_of_check {s : DaemonHost π} {p : π} (h : Single s)
    (hexclusive : s.Exclusive (.check p)) (hp : s.phase p = .absent)
    (hrunning : s.readStatus.running = false) (q : π) : ¬ s.Active q := by
  intro hq
  have hne : q ≠ p := by
    rintro rfl
    exact hq.1 hp
  rcases hq.cases with ⟨startedAt, heartbeatAt, hserving⟩ | hwindow
  · obtain ⟨hcontrol, hfresh⟩ := (h.owns q hq).serving _ _ hserving
    have hrun : s.readStatus.running = true := by
      simp only [readStatus, hcontrol, decide_eq_true_eq]
      exact sub_left_lt_of_lt_add hfresh
    rw [hrunning] at hrun
    cases hrun
  · rcases hexclusive with hrun | hnone
    · rw [hrunning] at hrun
      cases hrun
    · exact hnone q hne hwindow

/-- The only active process goes on without a claim to the control file. -/
theorem single_of_phase {s s' : DaemonHost π} {p : π} {phase : DaemonPhase} (h : Single s)
    (hp : s.Active p) (hphase : s'.phase = (s.setPhase p phase).phase)
    (hserving : ∀ startedAt heartbeatAt, phase ≠ .serving startedAt heartbeatAt)
    (hleaving : phase ≠ .leaving) : Single s' := by
  refine single_of_step h hp (fun q hq => ?_) (ownsControl_of_phase ?_ hserving hleaving)
  · rw [hphase]
    exact phase_setPhase_of_ne s phase hq
  · rw [hphase]
    exact phase_setPhase_self s p phase

/-- A process whose start is refused ends, and of the others nothing has changed. -/
theorem Single.refused {s : DaemonHost π} (h : Single s) (p : π) :
    Single (s.setPhase p .exited) := by
  have hothers : ∀ q, (s.setPhase p .exited).Active q →
      s.Active q ∧ (s.setPhase p .exited).phase q = s.phase q := by
    intro q hq
    have hne : q ≠ p := by
      rintro rfl
      exact hq.2 (phase_setPhase_self s q .exited)
    have hsame := phase_setPhase_of_ne s .exited hne
    exact ⟨by rwa [Active, hsame] at hq, hsame⟩
  refine ⟨fun q r hq hr => h.alone q r (hothers q hq).1 (hothers r hr).1, fun q hq => ?_⟩
  obtain ⟨hactive, hsame⟩ := hothers q hq
  refine ⟨fun startedAt heartbeatAt hserving => ?_, fun hleaving => ?_⟩
  · exact (h.owns q hactive).serving _ _ (hsame.symm.trans hserving)
  · exact (h.owns q hactive).leaving (hsame.symm.trans hleaving)

/-- A process that starts while none is active is the only one. -/
theorem single_of_passed {s : DaemonHost π} {p : π} (hnone : ∀ q, ¬ s.Active q) :
    Single (s.setPhase p .starting) := by
  have honly : ∀ q, (s.setPhase p .starting).Active q → q = p := by
    intro q hq
    by_contra hne
    rw [Active, phase_setPhase_of_ne s _ hne] at hq
    exact hnone q hq
  refine ⟨fun q r hq hr => (honly q hq).trans (honly r hr).symm, fun q hq => ?_⟩
  obtain rfl := honly q hq
  exact ownsControl_of_phase (phase_setPhase_self s q _) nofun nofun

/-- What a step finds and what it leaves. -/
inductive Taken (s : DaemonHost π) : DaemonEvent π → DaemonHost π → Prop where
  | refused (p : π) (hp : s.phase p = .absent) (hrunning : s.readStatus.running = true) :
      Taken s (.check p) (s.setPhase p .exited)
  | passed (p : π) (hp : s.phase p = .absent) (hrunning : s.readStatus.running = false) :
      Taken s (.check p) (s.setPhase p .starting)
  | aborted (p : π) (hp : s.phase p = .starting) : Taken s (.abort p) (s.setPhase p .exited)
  | entered (p : π) (hp : s.phase p = .starting) :
      Taken s (.enter p) { s.setPhase p .entered with sentinel := false }
  | claimed (p : π) (hp : s.phase p = .entered) : Taken s (.claim p) (s.writeControl p s.now)
  | beaten (p : π) (startedAt heartbeatAt : Time) (hp : s.phase p = .serving startedAt heartbeatAt) :
      Taken s (.heartbeat p) (s.writeControl p startedAt)
  | left (p : π) (interrupted : Bool) (startedAt heartbeatAt : Time)
      (hp : s.phase p = .serving startedAt heartbeatAt) :
      Taken s (.leave p interrupted) (s.setPhase p .leaving)
  | removedControl (p : π) (hp : s.phase p = .leaving) :
      Taken s (.removeControl p) { s.setPhase p .removing with control := none }
  | removedSentinel (p : π) (hp : s.phase p = .removing) :
      Taken s (.removeSentinel p) { s.setPhase p .exited with sentinel := false }
  | killed (p : π) (hp : s.Active p) : Taken s (.kill p) (s.setPhase p .exited)
  | signalled : Taken s .signalStop { s with sentinel := s.sentinel || s.control.isSome }
  | waited (seconds : Nat) : Taken s (.pass seconds) { s with now := s.now + seconds }

theorem taken_of_step {s s' : DaemonHost π} {e : DaemonEvent π} (hs : step s e = some s') :
    s.Taken e s' := by
  cases e with
  | check p =>
      simp only [step, Option.ite_none_right_eq_some, Option.some_inj] at hs
      obtain ⟨hp, rfl⟩ := hs
      cases hrunning : s.readStatus.running with
      | true => exact .refused p hp hrunning
      | false => exact .passed p hp hrunning
  | abort p =>
      simp only [step, Option.ite_none_right_eq_some, Option.some_inj] at hs
      obtain ⟨hp, rfl⟩ := hs
      exact .aborted p hp
  | enter p =>
      simp only [step, Option.ite_none_right_eq_some, Option.some_inj] at hs
      obtain ⟨hp, rfl⟩ := hs
      exact .entered p hp
  | claim p =>
      simp only [step, Option.ite_none_right_eq_some, Option.some_inj] at hs
      obtain ⟨hp, rfl⟩ := hs
      exact .claimed p hp
  | heartbeat p =>
      simp only [step] at hs
      split at hs
      · rename_i startedAt heartbeatAt hp
        obtain rfl := Option.some_inj.mp hs
        exact .beaten p startedAt heartbeatAt hp
      · cases hs
  | leave p interrupted =>
      simp only [step] at hs
      split at hs
      · rename_i startedAt heartbeatAt hp
        simp only [Option.ite_none_right_eq_some, Option.some_inj] at hs
        obtain ⟨-, rfl⟩ := hs
        exact .left p interrupted startedAt heartbeatAt hp
      · cases hs
  | removeControl p =>
      simp only [step, Option.ite_none_right_eq_some, Option.some_inj] at hs
      obtain ⟨hp, rfl⟩ := hs
      exact .removedControl p hp
  | removeSentinel p =>
      simp only [step, Option.ite_none_right_eq_some, Option.some_inj] at hs
      obtain ⟨hp, rfl⟩ := hs
      exact .removedSentinel p hp
  | kill p =>
      simp only [step, Option.ite_none_right_eq_some, Option.some_inj] at hs
      obtain ⟨hp, rfl⟩ := hs
      exact .killed p hp
  | signalStop =>
      obtain rfl := Option.some_inj.mp hs
      exact .signalled
  | pass seconds =>
      obtain rfl := Option.some_inj.mp hs
      exact .waited seconds

/-- **One daemon** at a time is kept by every step with heartbeats on time and exclusive checks. -/
theorem single_step {s s' : DaemonHost π} {e : DaemonEvent π} (h : Single s) (hontime : s.OnTime e)
    (hexclusive : s.Exclusive e) (hs : step s e = some s') : Single s' := by
  cases taken_of_step hs with
  | refused p hp hrunning => exact h.refused p
  | passed p hp hrunning => exact single_of_passed (not_active_of_check h hexclusive hp hrunning)
  | aborted p hp => exact single_of_phase h (active_of_phase hp (by decide)) rfl nofun nofun
  | entered p hp => exact single_of_phase h (active_of_phase hp (by decide)) rfl nofun nofun
  | claimed p hp =>
      exact single_of_step h (active_of_phase hp (by decide)) (fun q hq => phase_setPhase_of_ne s _ hq)
        (ownsControl_writeControl s p s.now)
  | beaten p startedAt heartbeatAt hp =>
      exact single_of_step h (Serving.active ⟨_, _, hp⟩) (fun q hq => phase_setPhase_of_ne s _ hq)
        (ownsControl_writeControl s p startedAt)
  | left p interrupted startedAt heartbeatAt hp =>
      have hactive : s.Active p := Serving.active ⟨_, _, hp⟩
      refine single_of_step h hactive (fun q hq => phase_setPhase_of_ne s _ hq) ⟨?_, fun _ => ?_⟩
      · intro startedAt heartbeatAt hserving
        rw [phase_setPhase_self] at hserving
        cases hserving
      · exact ⟨_, ((h.owns p hactive).serving _ _ hp).1, rfl⟩
  | removedControl p hp => exact single_of_phase h (active_of_phase hp (by decide)) rfl nofun nofun
  | removedSentinel p hp => exact single_of_phase h (active_of_phase hp (by decide)) rfl nofun nofun
  | killed p hp => exact single_of_phase h hp rfl nofun nofun
  | signalled => exact ⟨h.alone, fun p hp => ⟨(h.owns p hp).serving, (h.owns p hp).leaving⟩⟩
  | waited seconds =>
      refine ⟨h.alone, fun p hp => ⟨fun startedAt heartbeatAt hserving => ?_, (h.owns p hp).leaving⟩⟩
      exact ⟨((h.owns p hp).serving _ _ hserving).1, hontime p heartbeatAt (by
        rw [show s.phase p = .serving startedAt heartbeatAt from hserving]
        rfl)⟩

/-- How a step takes a process on. -/
inductive PhaseStep : DaemonPhase → DaemonPhase → Prop where
  | passed : PhaseStep .absent .starting
  | refused : PhaseStep .absent .exited
  | aborted : PhaseStep .starting .exited
  | entered : PhaseStep .starting .entered
  | claimed (now : Time) : PhaseStep .entered (.serving now now)
  | beaten (startedAt heartbeatAt now : Time) :
      PhaseStep (.serving startedAt heartbeatAt) (.serving startedAt now)
  | left (startedAt heartbeatAt : Time) : PhaseStep (.serving startedAt heartbeatAt) .leaving
  | removed : PhaseStep .leaving .removing
  | ended : PhaseStep .removing .exited
  | killed {phase : DaemonPhase} (h : phase ≠ .absent) : PhaseStep phase .exited

theorem phaseStep_setPhase {s : DaemonHost π} {p : π} {phase : DaemonPhase}
    (h : PhaseStep (s.phase p) phase) (q : π) :
    (s.setPhase p phase).phase q = s.phase q ∨
      PhaseStep (s.phase q) ((s.setPhase p phase).phase q) := by
  by_cases hq : q = p
  · subst hq
    rw [phase_setPhase_self]
    exact Or.inr h
  · exact Or.inl (phase_setPhase_of_ne s phase hq)

theorem phase_step {s s' : DaemonHost π} {e : DaemonEvent π} (hs : step s e = some s') (q : π) :
    s'.phase q = s.phase q ∨ PhaseStep (s.phase q) (s'.phase q) := by
  cases taken_of_step hs with
  | refused p hp hrunning => exact phaseStep_setPhase (hp ▸ .refused) q
  | passed p hp hrunning => exact phaseStep_setPhase (hp ▸ .passed) q
  | aborted p hp => exact phaseStep_setPhase (hp ▸ .aborted) q
  | entered p hp => exact phaseStep_setPhase (hp ▸ .entered) q
  | claimed p hp => exact phaseStep_setPhase (hp ▸ .claimed s.now) q
  | beaten p startedAt heartbeatAt hp =>
      exact phaseStep_setPhase (hp ▸ .beaten startedAt heartbeatAt s.now) q
  | left p interrupted startedAt heartbeatAt hp =>
      exact phaseStep_setPhase (hp ▸ .left startedAt heartbeatAt) q
  | removedControl p hp => exact phaseStep_setPhase (hp ▸ .removed) q
  | removedSentinel p hp => exact phaseStep_setPhase (hp ▸ .ended) q
  | killed p hp => exact phaseStep_setPhase (.killed hp.1) q
  | signalled => exact Or.inl rfl
  | waited seconds => exact Or.inl rfl

/-- The sentinel is removed by a process that starts or ends. -/
theorem sentinel_step {s s' : DaemonHost π} {e : DaemonEvent π} (hs : step s e = some s')
    (h : s.sentinel = true) :
    s'.sentinel = true ∨ ∃ q, s.phase q = .starting ∨ s.phase q = .removing := by
  cases taken_of_step hs with
  | entered p hp => exact Or.inr ⟨p, Or.inl hp⟩
  | removedSentinel p hp => exact Or.inr ⟨p, Or.inr hp⟩
  | signalled => exact Or.inl (by simp [h])
  | _ => exact Or.inl h

/-- The process serves and the sentinel is there, or it has left its loop. -/
def Told (s : DaemonHost π) (p : π) : Prop :=
  (s.Serving p ∧ s.sentinel = true) ∨ s.phase p = .leaving ∨ s.phase p = .removing ∨
    s.phase p = .exited

/-- A process that is told to stop stays so until it has left its loop. -/
theorem told_step {s s' : DaemonHost π} {e : DaemonEvent π} {p : π} (hsingle : Single s)
    (h : s.Told p) (hs : step s e = some s') : s'.Told p := by
  obtain ⟨⟨startedAt, heartbeatAt, hserving⟩, hsentinel⟩ | hgone := h
  · have hkept : s'.sentinel = true := by
      refine (sentinel_step hs hsentinel).resolve_right ?_
      rintro ⟨q, hq⟩
      have hactive : s.Active q := by
        rcases hq with hq | hq
        · exact active_of_phase hq (by decide)
        · exact active_of_phase hq (by decide)
      obtain rfl := hsingle.alone q p hactive (Serving.active ⟨_, _, hserving⟩)
      rw [hserving] at hq
      rcases hq with hq | hq <;> cases hq
    obtain hsame | hmove := phase_step hs p
    · exact Or.inl ⟨⟨startedAt, heartbeatAt, hsame.trans hserving⟩, hkept⟩
    · rw [hserving] at hmove
      generalize hphase : s'.phase p = phase at hmove
      cases hmove with
      | beaten => exact Or.inl ⟨⟨_, _, hphase⟩, hkept⟩
      | left => exact Or.inr (Or.inl hphase)
      | killed _ => exact Or.inr (Or.inr (Or.inr hphase))
  · refine Or.inr ?_
    obtain hsame | hmove := phase_step hs p
    · rwa [hsame]
    · generalize s'.phase p = phase at hmove
      rcases hgone with hgone | hgone | hgone <;> rw [hgone] at hmove <;> cases hmove <;> simp

theorem single_run {s s' : DaemonHost π} {es : List (DaemonEvent π)} (h : Single s)
    (hmeet : Transitions.StepsMeet step (fun s e => s.OnTime e ∧ s.Exclusive e) s es)
    (hrun : Transitions.run step s es = some s') : Single s' :=
  Transitions.run_invariant (fun _ _ _ hs hok hstep => single_step hs hok.1 hok.2 hstep) h hmeet hrun

/-- With heartbeats on time and exclusive checks, one daemon serves. -/
theorem oneDaemon_of_exclusive {start s : DaemonHost π} {es : List (DaemonEvent π)}
    (hstart : start.Fresh) (hrun : Transitions.run step start es = some s)
    (hmeet : Transitions.StepsMeet step (fun s e => s.OnTime e ∧ s.Exclusive e) start es) :
    OneDaemon start es where
  alone := by
    rintro pre post m p q rfl hpre hp hq
    have hm := single_run (single_of_fresh hstart) (hmeet.append hpre).1 hpre
    exact hm.alone p q hp.active hq.active
  ownControl := by
    rintro pre p post m c rfl hpre hc
    have hm := single_run (single_of_fresh hstart) (hmeet.append hpre).1 hpre
    obtain ⟨m', hremove, -⟩ := Transitions.run_cons_eq_some.mp (Transitions.run_suffix hrun hpre)
    simp only [step, Option.ite_none_right_eq_some] at hremove
    obtain ⟨c', hc', hpid⟩ := (hm.owns p (active_of_phase hremove.1 (by decide))).leaving hremove.1
    obtain rfl := Option.some_inj.mp (hc.symm.trans hc')
    exact hpid
  stopKept := by
    rintro pre mid post m m' p rfl hpre hserving hmid hserving'
    obtain ⟨hmeetPre, hmeetRest⟩ := hmeet.append hpre
    have hm := single_run (single_of_fresh hstart) hmeetPre hpre
    obtain ⟨m₁, hsignal, hmid⟩ := Transitions.run_cons_eq_some.mp hmid
    obtain ⟨hok, hmeetTail⟩ := hmeetRest
    have hm₁ := single_step hm hok.1 hok.2 hsignal
    have htold : m₁.Told p := by
      obtain ⟨startedAt, heartbeatAt, hphase⟩ := hserving
      have hcontrol := ((hm.owns p (Serving.active ⟨_, _, hphase⟩)).serving _ _ hphase).1
      obtain rfl := Option.some_inj.mp hsignal
      exact Or.inl ⟨⟨startedAt, heartbeatAt, hphase⟩, by simp [hcontrol]⟩
    have hend : Single m' ∧ m'.Told p :=
      Transitions.run_invariant (P := fun s => Single s ∧ s.Told p)
        (fun s e s' h hok hs => ⟨single_step h.1 hok.1 hok.2 hs, told_step h.1 h.2 hs⟩) ⟨hm₁, htold⟩
        ((hmeetTail m₁ hsignal).append hmid).1 hmid
    obtain ⟨startedAt, heartbeatAt, hphase⟩ := hserving'
    obtain ⟨-, hsentinel⟩ | hgone := hend.2
    · exact hsentinel
    · rw [hphase] at hgone
      rcases hgone with hgone | hgone | hgone <;> cases hgone

/-! ### A check that is not exclusive -/

/-- A process that has passed its check comes to serve. -/
theorem run_serve {s : DaemonHost π} {p : π} (h : s.phase p = .starting) :
    ∃ s', Transitions.run step s [.enter p, .claim p] = some s' ∧ s'.Serving p ∧
      (∀ q, q ≠ p → s'.phase q = s.phase q) ∧ s'.control = some ⟨p, s.now, s.now⟩ := by
  have henter : step s (.enter p) = some { s.setPhase p .entered with sentinel := false } := if_pos h
  have hclaim : step { s.setPhase p .entered with sentinel := false } (.claim p) =
      some (writeControl { s.setPhase p .entered with sentinel := false } p s.now) :=
    if_pos (phase_setPhase_self s p .entered)
  refine ⟨_, Transitions.run_cons_eq_some.mpr ⟨_, henter, Transitions.run_cons_eq_some.mpr
    ⟨_, hclaim, rfl⟩⟩, ⟨s.now, s.now, Function.update_self ..⟩, fun q hq => ?_, rfl⟩
  calc Function.update (Function.update s.phase p .entered) p (.serving s.now s.now) q
      = Function.update s.phase p .entered q := Function.update_of_ne hq ..
    _ = s.phase q := Function.update_of_ne hq ..

/-- **A check that passes while another process starts or ends** can be followed by steps of the two
processes that break what one daemon would keep. -/
theorem overlap_breaks {start m : DaemonHost π} {pre : List (DaemonEvent π)} {p q : π}
    (hpre : Transitions.run step start pre = some m) (hq : m.phase q = .absent)
    (hrunning : m.readStatus.running = false) (hne : p ≠ q) (hp : m.InWindow p) :
    ∃ fs s, Transitions.run step start (pre ++ .check q :: fs) = some s ∧
      (∀ seconds, .pass seconds ∉ fs) ∧ ¬ OneDaemon start (pre ++ .check q :: fs) := by
  have hcheck : step m (.check q) = some (m.setPhase q .starting) := by
    rw [step, if_pos hq, hrunning]
    rfl
  have hstarting : (m.setPhase q .starting).phase q = .starting := phase_setPhase_self ..
  have hsame : (m.setPhase q .starting).phase p = m.phase p := phase_setPhase_of_ne m _ hne
  -- What the two processes do after the check is a run after `pre`.
  have hfull : ∀ fs s, Transitions.run step (m.setPhase q .starting) fs = some s →
      Transitions.run step start (pre ++ .check q :: fs) = some s := fun fs s hfs =>
    Transitions.run_append_eq_some.mpr
      ⟨m, hpre, Transitions.run_cons_eq_some.mpr ⟨_, hcheck, hfs⟩⟩
  have hboth : ∀ fs s, Transitions.run step (m.setPhase q .starting) fs = some s → s.Serving p →
      s.Serving q → ¬ OneDaemon start (pre ++ .check q :: fs) := fun fs s hfs hservingp hservingq h =>
    hne (h.alone _ [] s p q (List.append_nil _).symm (hfull fs s hfs) hservingp hservingq)
  rcases hp with hp | hp | hp | hp
  · obtain ⟨s₁, hrun₁, hserving₁, hothers₁, -⟩ := run_serve (hsame.trans hp)
    obtain ⟨s₂, hrun₂, hserving₂, hothers₂, -⟩ :=
      run_serve ((hothers₁ q hne.symm).trans hstarting)
    have hfs := Transitions.run_append_eq_some.mpr ⟨s₁, hrun₁, hrun₂⟩
    refine ⟨_, s₂, hfull _ s₂ hfs, by simp, hboth _ s₂ hfs ?_ hserving₂⟩
    obtain ⟨startedAt, heartbeatAt, hphase⟩ := hserving₁
    exact ⟨startedAt, heartbeatAt, (hothers₂ p hne).trans hphase⟩
  · have hclaim : step (m.setPhase q .starting) (.claim p) =
        some ((m.setPhase q .starting).writeControl p m.now) :=
      if_pos (hsame.trans hp)
    have hq₁ : ((m.setPhase q .starting).writeControl p m.now).phase q = .starting :=
      (phase_setPhase_of_ne _ _ hne.symm).trans hstarting
    obtain ⟨s₂, hrun₂, hserving₂, hothers₂, -⟩ := run_serve hq₁
    have hfs := Transitions.run_cons_eq_some.mpr ⟨_, hclaim, hrun₂⟩
    refine ⟨_, s₂, hfull _ s₂ hfs, by simp, hboth _ s₂ hfs ?_ hserving₂⟩
    exact ⟨m.now, m.now, (hothers₂ p hne).trans (phase_setPhase_self ..)⟩
  · obtain ⟨s₁, hrun₁, -, hothers₁, hcontrol⟩ := run_serve hstarting
    have hleaving : s₁.phase p = .leaving := by
      calc s₁.phase p = (m.setPhase q .starting).phase p := hothers₁ p hne
        _ = m.phase p := hsame
        _ = .leaving := hp
    have hremove : step s₁ (.removeControl p) =
        some { s₁.setPhase p .removing with control := none } := if_pos hleaving
    have hfs := Transitions.run_append_eq_some.mpr
      ⟨s₁, hrun₁, Transitions.run_cons_eq_some.mpr ⟨_, hremove, Transitions.run_nil _⟩⟩
    refine ⟨_, _, hfull _ _ hfs, by simp, fun h => ?_⟩
    have hown := h.ownControl (pre ++ .check q :: [.enter q, .claim q]) p [] s₁ _ (by simp)
      (hfull _ s₁ hrun₁) hcontrol
    exact hne hown.symm
  · obtain ⟨s₁, hrun₁, ⟨startedAt, heartbeatAt, hserving₁⟩, hothers₁, hcontrol⟩ :=
      run_serve hstarting
    have hremoving : s₁.phase p = .removing := by
      calc s₁.phase p = (m.setPhase q .starting).phase p := hothers₁ p hne
        _ = m.phase p := hsame
        _ = .removing := hp
    have hsignal : step s₁ .signalStop =
        some { s₁ with sentinel := s₁.sentinel || s₁.control.isSome } := rfl
    have hremove : step { s₁ with sentinel := s₁.sentinel || s₁.control.isSome }
        (.removeSentinel p) = some { s₁.setPhase p .exited with sentinel := false } :=
      if_pos hremoving
    have hend := Transitions.run_cons_eq_some.mpr
      ⟨_, hsignal, Transitions.run_cons_eq_some.mpr ⟨_, hremove, Transitions.run_nil _⟩⟩
    have hfs := Transitions.run_append_eq_some.mpr ⟨s₁, hrun₁, hend⟩
    refine ⟨_, _, hfull _ _ hfs, by simp, fun h => ?_⟩
    have hkept := h.stopKept (pre ++ .check q :: [.enter q, .claim q]) [.removeSentinel p] [] s₁ _ q
      (by simp) (hfull _ s₁ hrun₁) ⟨_, _, hserving₁⟩ hend
      ⟨_, _, (phase_setPhase_of_ne s₁ _ hne.symm).trans hserving₁⟩
    cases hkept

/-- **At most one daemon serves a database** in the runs whose checks are exclusive; and a check that is
not can be followed by steps that break this. -/
theorem one_daemon {start s : DaemonHost π} {es : List (DaemonEvent π)} (hstart : start.Fresh)
    (hrun : Transitions.run step start es = some s)
    (hontime : Transitions.StepsMeet step OnTime start es) :
    (Transitions.StepsMeet step Exclusive start es → OneDaemon start es) ∧
      ∀ pre q post m, es = pre ++ .check q :: post → Transitions.run step start pre = some m →
        ¬ m.Exclusive (.check q) →
        ∃ fs s', Transitions.run step start (pre ++ .check q :: fs) = some s' ∧
          Transitions.StepsMeet step OnTime start (pre ++ .check q :: fs) ∧
          ¬ OneDaemon start (pre ++ .check q :: fs) := by
  refine ⟨fun hexclusive => oneDaemon_of_exclusive hstart hrun (hontime.and hexclusive), ?_⟩
  rintro pre q post m rfl hpre hoverlap
  obtain ⟨m', hcheck, -⟩ := Transitions.run_cons_eq_some.mp (Transitions.run_suffix hrun hpre)
  simp only [step, Option.ite_none_right_eq_some] at hcheck
  rw [Exclusive, not_or, Bool.not_eq_true] at hoverlap
  obtain ⟨hrunning, hwindow⟩ := hoverlap
  push Not at hwindow
  obtain ⟨p, hne, hp⟩ := hwindow
  obtain ⟨fs, s', hfs, hpass, hbroken⟩ := overlap_breaks hpre hcheck.1 hrunning hne hp
  refine ⟨fs, s', hfs, Transitions.stepsMeet_append (hontime.append hpre).1 hpre ?_, hbroken⟩
  have hnoPass : Transitions.StepsMeet step (fun _ e => ∀ seconds, e ≠ .pass seconds) m
      (.check q :: fs) := by
    refine Transitions.stepsMeet_of_mem (fun e he seconds heq => ?_) m
    subst heq
    exact hpass seconds ((List.mem_cons.mp he).resolve_left nofun)
  refine hnoPass.mono fun s e he => ?_
  cases e with
  | pass seconds => exact absurd rfl (he seconds)
  | _ => trivial

section Decidable

variable [Fintype π]

instance (s : DaemonHost π) (e : DaemonEvent π) : Decidable (s.OnTime e) :=
  match e with
  | .pass seconds => inferInstanceAs (Decidable (∀ p, ∀ heartbeatAt ∈ (s.phase p).heartbeat?,
      s.now + seconds < heartbeatAt + staleSeconds))
  | .check _ | .abort _ | .enter _ | .claim _ | .heartbeat _ | .leave _ _ | .removeControl _
  | .removeSentinel _ | .kill _ | .signalStop => isTrue trivial

instance (s : DaemonHost π) (p : π) : Decidable (s.InWindow p) :=
  inferInstanceAs (Decidable (_ ∨ _ ∨ _ ∨ _))

instance (s : DaemonHost π) (e : DaemonEvent π) : Decidable (s.Exclusive e) :=
  match e with
  | .check p => inferInstanceAs (Decidable (s.readStatus.running = true ∨
      ∀ q, q ≠ p → ¬ s.InWindow q))
  | .pass _ | .abort _ | .enter _ | .claim _ | .heartbeat _ | .leave _ _ | .removeControl _
  | .removeSentinel _ | .kill _ | .signalStop => isTrue trivial

end Decidable

/-- Three processes, and no files yet. -/
def newHost : DaemonHost (Fin 3) where
  phase _ := .absent
  control := none
  sentinel := false
  now := 0

/-- The second daemon is refused while the first serves, the third starts after its end. -/
def oneAfterAnother : List (DaemonEvent (Fin 3)) :=
  [.check 0, .enter 0, .claim 0, .pass 5, .heartbeat 0, .check 1, .signalStop, .leave 0 false,
    .removeControl 0, .removeSentinel 0, .check 2, .enter 2, .claim 2]

theorem oneAfterAnother_oneDaemon : OneDaemon newHost oneAfterAnother := by
  have hrun : ∃ s, Transitions.run step newHost oneAfterAnother = some s := ⟨_, rfl⟩
  obtain ⟨s, hs⟩ := hrun
  exact (one_daemon (fun p => rfl) hs (by decide)).1 (by decide)

/-- Two daemons pass their checks before either has written its control file. -/
def startedTogether : List (DaemonEvent (Fin 3)) :=
  [.check 0, .check 1, .enter 0, .claim 0, .enter 1, .claim 1]

/-- The cleanup of the first daemon takes longer than its heartbeat counts. -/
def longCleanup : List (DaemonEvent (Fin 3)) :=
  [.check 0, .enter 0, .claim 0, .leave 0 true, .pass 20, .check 1, .enter 1, .claim 1,
    .removeControl 0, .signalStop]

/-- Two daemons serve at once; and one that exits takes the other's control file, so that a stop
request finds no daemon. -/
theorem daemons_collide :
    (∃ s, Transitions.run step newHost startedTogether = some s ∧
      Transitions.StepsMeet step OnTime newHost startedTogether ∧ s.Serving 0 ∧ s.Serving 1) ∧
    ∃ s, Transitions.run step newHost longCleanup = some s ∧
      Transitions.StepsMeet step OnTime newHost longCleanup ∧
      s.Serving 1 ∧ s.control = none ∧ s.sentinel = false :=
  ⟨⟨_, rfl, by decide, ⟨0, 0, rfl⟩, ⟨0, 0, rfl⟩⟩, ⟨_, rfl, by decide, ⟨20, 20, rfl⟩, rfl, rfl⟩⟩

end DaemonHost

end StardustFS
