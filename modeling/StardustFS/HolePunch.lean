import StardustFS.MetadataStore
import StardustFS.Transitions

/-! Two sessions that punch towards each other over datagrams. A datagram is known by its place in
what its side has sent; it may be delivered at any time after that, any number of times or never.
Computation takes no time: the clock goes on only while every waiting side has nothing to read, and
not past the end of an attempt. Time is counted in ticks of any length. -/

namespace StardustFS

inductive Datagram where
  | punch
  | ack
  /-- A message of the rendezvous server. -/
  | control
  deriving DecidableEq, Repr

inductive Side where
  | first
  | second
  deriving DecidableEq, Repr

namespace Side

def other : Side → Side
  | .first => .second
  | .second => .first

@[simp] theorem other_other (x : Side) : x.other.other = x := by
  cases x <;> rfl

@[simp] theorem other_ne (x : Side) : x.other ≠ x := by
  cases x <;> decide

end Side

inductive PunchPhase where
  | idle
  /-- In an attempt that ends at `deadline`, with `left` further ones. -/
  | trying (left : Nat) (deadline : Time)
  | returned (success : Bool)
  deriving DecidableEq, Repr

/-- A session: what it has sent, what its socket has received, and how much of that has been taken
from the queue. -/
structure HolePunchSession where
  phase : PunchPhase := .idle
  sent : List Datagram := []
  received : List Datagram := []
  taken : Nat := 0
  deriving DecidableEq, Repr

namespace HolePunchSession

/-- The queue of the protocol. -/
def queue (p : HolePunchSession) : List Datagram := p.received.drop p.taken

def datagramReceived (p : HolePunchSession) (d : Datagram) : HolePunchSession :=
  { p with received := p.received ++ [d] }

def take (p : HolePunchSession) : HolePunchSession := { p with taken := p.taken + 1 }

def sendto (p : HolePunchSession) (d : Datagram) : HolePunchSession := { p with sent := p.sent ++ [d] }

/-- The head of the loop over the attempts. -/
def nextAttempt (p : HolePunchSession) (deadline : Time) : Nat → HolePunchSession
  | 0 => { p with phase := .returned false }
  | left + 1 => { p.sendto .punch with phase := .trying left deadline }

/-- What is done with a datagram from the queue. -/
def handle (p : HolePunchSession) : Datagram → HolePunchSession
  | .ack => { p.take with phase := .returned true }
  | .punch => p.take.sendto .ack
  | .control => p.take

end HolePunchSession

/-- The arguments of the two calls of `punch`. -/
structure PunchCalls where
  attempts : Side → Nat := fun _ => 20
  interval : Side → Time

structure PunchState where
  session : Side → HolePunchSession
  now : Time

inductive PunchEvent where
  | start (x : Side)
  /-- A copy of the `n`-th datagram of the other side arrives. -/
  | deliver (x : Side) (n : Nat)
  | control (x : Side)
  /-- `_recv_json` takes a datagram from the queue before `punch` is called. -/
  | recvJson (x : Side)
  | read (x : Side)
  | expire (x : Side)
  | pass (ticks : Nat)
  deriving DecidableEq, Repr

namespace PunchState

def set (s : PunchState) (x : Side) (p : HolePunchSession) : PunchState :=
  { s with session := fun y => if y = x then p else s.session y }

@[simp] theorem session_set_self (s : PunchState) (x : Side) (p : HolePunchSession) :
    (s.set x p).session x = p :=
  if_pos rfl

theorem session_set_of_ne (s : PunchState) {x y : Side} (p : HolePunchSession) (h : y ≠ x) :
    (s.set x p).session y = s.session y :=
  if_neg h

@[simp] theorem session_set_other (s : PunchState) (x : Side) (p : HolePunchSession) :
    (s.set x p).session x.other = s.session x.other :=
  if_neg x.other_ne

@[simp] theorem now_set (s : PunchState) (x : Side) (p : HolePunchSession) :
    (s.set x p).now = s.now := rfl

/-- The clock may go on to `later` as far as the side is concerned. -/
def Waits (s : PunchState) (later : Time) (x : Side) : Bool :=
  match (s.session x).phase with
  | .trying _ deadline => (s.session x).queue = [] && later ≤ deadline
  | _ => true

def step (c : PunchCalls) (s : PunchState) : PunchEvent → Option PunchState
  | .start x =>
      if (s.session x).phase = .idle then
        some (s.set x ((s.session x).nextAttempt (s.now + c.interval x) (c.attempts x)))
      else none
  | .deliver x n =>
      (s.session x.other).sent[n]?.map fun d => s.set x ((s.session x).datagramReceived d)
  | .control x => some (s.set x ((s.session x).datagramReceived .control))
  | .recvJson x =>
      if (s.session x).phase = .idle ∧ (s.session x).queue ≠ [] then
        some (s.set x (s.session x).take)
      else none
  | .read x =>
      match (s.session x).phase, (s.session x).queue with
      | .trying _ deadline, d :: _ =>
          if s.now < deadline then some (s.set x ((s.session x).handle d)) else none
      | _, _ => none
  | .expire x =>
      match (s.session x).phase with
      | .trying left deadline =>
          if deadline ≤ s.now then
            some (s.set x ((s.session x).nextAttempt (s.now + c.interval x) left))
          else none
      | _ => none
  | .pass ticks =>
      if s.Waits (s.now + ticks) .first ∧ s.Waits (s.now + ticks) .second then
        some { s with now := s.now + ticks }
      else none

end PunchState

/-- Both sockets are open and nothing has been sent. -/
def opened : PunchState := ⟨fun _ => {}, 0⟩

namespace HolePunchSession

@[simp] theorem queue_sendto (p : HolePunchSession) (d : Datagram) : (p.sendto d).queue = p.queue := rfl

theorem queue_take (p : HolePunchSession) : p.take.queue = p.queue.tail := by
  rw [queue, queue, List.tail_drop, take]

theorem queue_datagramReceived (p : HolePunchSession) (d : Datagram) :
    p.queue ⊆ (p.datagramReceived d).queue := by
  rw [queue, queue, datagramReceived, List.drop_append]
  exact List.subset_append_left ..

theorem queue_subset (p : HolePunchSession) : p.queue ⊆ p.received :=
  List.drop_subset ..

@[simp] theorem received_nextAttempt (p : HolePunchSession) (deadline : Time) (left : Nat) :
    (p.nextAttempt deadline left).received = p.received := by
  cases left <;> rfl

@[simp] theorem queue_nextAttempt (p : HolePunchSession) (deadline : Time) (left : Nat) :
    (p.nextAttempt deadline left).queue = p.queue := by
  cases left <;> rfl

theorem mem_sent_nextAttempt (p : HolePunchSession) (deadline : Time) (left : Nat) :
    .ack ∈ (p.nextAttempt deadline left).sent ↔ .ack ∈ p.sent := by
  cases left <;> simp [nextAttempt, sendto]

theorem phase_nextAttempt_ne (p : HolePunchSession) (deadline : Time) (left : Nat) :
    (p.nextAttempt deadline left).phase ≠ .returned true := by
  cases left <;> simp [nextAttempt]

@[simp] theorem received_handle (p : HolePunchSession) (d : Datagram) :
    (p.handle d).received = p.received := by
  cases d <;> rfl

theorem mem_sent_handle (p : HolePunchSession) (d : Datagram) :
    .ack ∈ (p.handle d).sent ↔ .ack ∈ p.sent ∨ d = .punch := by
  cases d <;> simp [handle, sendto, take]

theorem phase_handle (p : HolePunchSession) (d : Datagram) :
    (p.handle d).phase = if d = .ack then .returned true else p.phase := by
  cases d <;> rfl

theorem queue_handle (p : HolePunchSession) (d : Datagram) : (p.handle d).queue = p.queue.tail := by
  rw [← queue_take]
  cases d <;> rfl

end HolePunchSession

/-- An acknowledgement waits in the queue of the side, and there is time to read it. -/
def PunchState.AckInTime (s : PunchState) (c : PunchCalls) (y : Side) : Prop :=
  ∃ left deadline, (s.session y).phase = .trying left deadline ∧ .ack ∈ (s.session y).queue ∧
    (s.now < deadline ∨ 0 < left ∧ 0 < c.interval y)

/-- What a step does to one of the sessions while the clock stands still. -/
inductive Moves (c : PunchCalls) (s : PunchState) (y : Side) : HolePunchSession → Prop where
  | stays : Moves c s y (s.session y)
  | receives {d : Datagram} (hd : d = .control ∨ d ∈ (s.session y.other).sent) :
      Moves c s y ((s.session y).datagramReceived d)
  | takes (hidle : (s.session y).phase = .idle) : Moves c s y (s.session y).take
  | starts (hidle : (s.session y).phase = .idle) :
      Moves c s y ((s.session y).nextAttempt (s.now + c.interval y) (c.attempts y))
  | expires {left : Nat} {deadline : Time} (htrying : (s.session y).phase = .trying left deadline)
      (hdeadline : deadline ≤ s.now) :
      Moves c s y ((s.session y).nextAttempt (s.now + c.interval y) left)
  | reads {left : Nat} {deadline : Time} {d : Datagram} {rest : List Datagram}
      (htrying : (s.session y).phase = .trying left deadline) (hdeadline : s.now < deadline)
      (hqueue : (s.session y).queue = d :: rest) : Moves c s y ((s.session y).handle d)

namespace PunchState

theorem moves_set {c : PunchCalls} {s : PunchState} {x : Side} {p : HolePunchSession}
    (h : Moves c s x p) (y : Side) : Moves c s y ((s.set x p).session y) := by
  by_cases hy : y = x
  · subst hy
    rwa [session_set_self]
  · rw [session_set_of_ne s p hy]
    exact .stays

/-- A step moves one session, or the clock goes on while both sessions wait. -/
theorem step_cases {c : PunchCalls} {s s' : PunchState} {e : PunchEvent}
    (h : step c s e = some s') :
    (s'.now = s.now ∧ ∀ y, Moves c s y (s'.session y)) ∨
      (s.now ≤ s'.now ∧ s'.session = s.session ∧ ∀ y, s.Waits s'.now y = true) := by
  cases e with
  | start x =>
      simp only [step, Option.ite_none_right_eq_some, Option.some_inj] at h
      obtain ⟨hidle, rfl⟩ := h
      exact Or.inl ⟨rfl, moves_set (.starts hidle)⟩
  | deliver x n =>
      simp only [step, Option.map_eq_some_iff] at h
      obtain ⟨d, hd, rfl⟩ := h
      exact Or.inl ⟨rfl, moves_set (.receives (Or.inr (List.mem_of_getElem? hd)))⟩
  | control x =>
      simp only [step, Option.some_inj] at h
      subst h
      exact Or.inl ⟨rfl, moves_set (.receives (Or.inl rfl))⟩
  | recvJson x =>
      simp only [step, Option.ite_none_right_eq_some, Option.some_inj] at h
      obtain ⟨⟨hidle, -⟩, rfl⟩ := h
      exact Or.inl ⟨rfl, moves_set (.takes hidle)⟩
  | read x =>
      simp only [step] at h
      split at h
      · rename_i left deadline d rest htrying hqueue
        simp only [Option.ite_none_right_eq_some, Option.some_inj] at h
        obtain ⟨hdeadline, rfl⟩ := h
        exact Or.inl ⟨rfl, moves_set (.reads htrying hdeadline hqueue)⟩
      · cases h
  | expire x =>
      simp only [step] at h
      split at h
      · rename_i left deadline htrying
        simp only [Option.ite_none_right_eq_some, Option.some_inj] at h
        obtain ⟨hdeadline, rfl⟩ := h
        exact Or.inl ⟨rfl, moves_set (.expires htrying hdeadline)⟩
      · cases h
  | pass ticks =>
      simp only [step, Option.ite_none_right_eq_some, Option.some_inj] at h
      obtain ⟨⟨hfirst, hsecond⟩, rfl⟩ := h
      refine Or.inr ⟨by simp, rfl, fun y => ?_⟩
      cases y with
      | first => exact hfirst
      | second => exact hsecond

end PunchState

namespace Moves

variable {c : PunchCalls} {s : PunchState} {y : Side} {p : HolePunchSession}

theorem received_subset (h : Moves c s y p) : (s.session y).received ⊆ p.received := by
  cases h with
  | receives _ => exact List.subset_append_left ..
  | _ => simp [HolePunchSession.take]

theorem ack_sent (h : Moves c s y p) (hack : .ack ∈ (s.session y).sent) : .ack ∈ p.sent := by
  cases h with
  | starts _ => rwa [HolePunchSession.mem_sent_nextAttempt]
  | expires _ _ => rwa [HolePunchSession.mem_sent_nextAttempt]
  | reads _ _ _ =>
      rw [HolePunchSession.mem_sent_handle]
      exact Or.inl hack
  | _ => exact hack

/-- A side succeeds on an acknowledgement in its queue. -/
theorem success (h : Moves c s y p) (hp : p.phase = .returned true) :
    (s.session y).phase = .returned true ∨ .ack ∈ (s.session y).queue := by
  cases h with
  | starts _ => exact absurd hp (HolePunchSession.phase_nextAttempt_ne _ _ _)
  | expires _ _ => exact absurd hp (HolePunchSession.phase_nextAttempt_ne _ _ _)
  | reads htrying _ hqueue =>
      rename_i d rest
      rw [HolePunchSession.phase_handle, htrying] at hp
      split_ifs at hp with hd
      subst hd
      rw [hqueue]
      exact Or.inr List.mem_cons_self
  | _ => exact Or.inl hp

theorem ack_received (h : Moves c s y p) (hp : .ack ∈ p.received) :
    .ack ∈ (s.session y).received ∨ .ack ∈ (s.session y.other).sent := by
  cases h with
  | receives hd =>
      rename_i d
      rcases List.mem_append.mp hp with hold | hnew
      · exact Or.inl hold
      · obtain rfl := List.mem_singleton.mp hnew
        exact Or.inr (hd.resolve_left (by decide))
  | starts _ => exact Or.inl (by rwa [HolePunchSession.received_nextAttempt] at hp)
  | expires _ _ => exact Or.inl (by rwa [HolePunchSession.received_nextAttempt] at hp)
  | reads _ _ _ => exact Or.inl (by rwa [HolePunchSession.received_handle] at hp)
  | _ => exact Or.inl hp

/-- An acknowledgement is sent for a `PUNCH` from the queue. -/
theorem ack_sent_cases (h : Moves c s y p) (hp : .ack ∈ p.sent) :
    .ack ∈ (s.session y).sent ∨ .punch ∈ (s.session y).received := by
  cases h with
  | starts _ => exact Or.inl (by rwa [HolePunchSession.mem_sent_nextAttempt] at hp)
  | expires _ _ => exact Or.inl (by rwa [HolePunchSession.mem_sent_nextAttempt] at hp)
  | reads _ _ hqueue =>
      rcases (HolePunchSession.mem_sent_handle ..).mp hp with hold | rfl
      · exact Or.inl hold
      · refine Or.inr ((s.session y).queue_subset ?_)
        rw [hqueue]
        exact List.mem_cons_self
  | _ => exact Or.inl hp

theorem keeps_ackInTime (hmoves : Moves c s y p) (h : s.AckInTime c y) :
    p.phase = .returned true ∨ ∃ left deadline, p.phase = .trying left deadline ∧
      .ack ∈ p.queue ∧ (s.now < deadline ∨ 0 < left ∧ 0 < c.interval y) := by
  obtain ⟨left, deadline, htrying, hack, htime⟩ := h
  cases hmoves with
  | stays => exact Or.inr ⟨left, deadline, htrying, hack, htime⟩
  | receives hd =>
      exact Or.inr ⟨left, deadline, htrying, (s.session y).queue_datagramReceived _ hack, htime⟩
  | takes hidle =>
      rw [hidle] at htrying
      cases htrying
  | starts hidle =>
      rw [hidle] at htrying
      cases htrying
  | expires htrying' hdeadline =>
      obtain ⟨rfl, rfl⟩ := PunchPhase.trying.inj (htrying'.symm.trans htrying)
      obtain hsoon | ⟨hleft, hinterval⟩ := htime
      · exact absurd hsoon (not_lt.mpr hdeadline)
      · obtain ⟨left, rfl⟩ := Nat.exists_eq_succ_of_ne_zero hleft.ne'
        exact Or.inr ⟨left, s.now + c.interval y, rfl, hack,
          Or.inl (lt_add_of_pos_right _ hinterval)⟩
  | reads htrying' hdeadline hqueue =>
      rename_i d rest
      rw [HolePunchSession.phase_handle]
      by_cases hd : d = .ack
      · exact Or.inl (if_pos hd)
      · refine Or.inr ⟨left, deadline, by rw [if_neg hd, htrying], ?_, htime⟩
        rw [HolePunchSession.queue_handle, hqueue, List.tail_cons]
        rw [hqueue, List.mem_cons] at hack
        exact hack.resolve_left fun heq => hd heq.symm

/-- A side that comes to succeed does so on an acknowledgement that waits in time. -/
theorem ackInTime (h : Moves c s y p) (hbefore : (s.session y).phase ≠ .returned true)
    (hafter : p.phase = .returned true) : s.AckInTime c y := by
  have hack := (h.success hafter).resolve_left hbefore
  cases h with
  | reads htrying hdeadline _ => exact ⟨_, _, htrying, hack, Or.inl hdeadline⟩
  | starts _ => exact absurd hafter (HolePunchSession.phase_nextAttempt_ne _ _ _)
  | expires _ _ => exact absurd hafter (HolePunchSession.phase_nextAttempt_ne _ _ _)
  | _ => exact absurd hafter hbefore

theorem returned {success : Bool} (h : Moves c s y p)
    (hreturned : (s.session y).phase = .returned success) : p.phase = .returned success := by
  cases h with
  | takes hidle =>
      rw [hreturned] at hidle
      cases hidle
  | starts hidle =>
      rw [hreturned] at hidle
      cases hidle
  | expires htrying _ =>
      rw [hreturned] at htrying
      cases htrying
  | reads htrying _ _ =>
      rw [hreturned] at htrying
      cases htrying
  | _ => exact hreturned

end Moves

namespace PunchState

section Runs

variable {c : PunchCalls}

/-- What a success and an acknowledgement stand for. -/
structure Honest (s : PunchState) : Prop where
  success : ∀ x, (s.session x).phase = .returned true → .ack ∈ (s.session x).received
  received : ∀ x, .ack ∈ (s.session x).received → .ack ∈ (s.session x.other).sent
  answers : ∀ x, .ack ∈ (s.session x).sent → .punch ∈ (s.session x).received

theorem honest_opened : Honest opened := by
  constructor <;> intro x h <;> cases h

theorem honest_step {s s' : PunchState} {e : PunchEvent} (h : Honest s) (hs : step c s e = some s') :
    Honest s' := by
  obtain ⟨-, hmoves⟩ | ⟨-, hsame, -⟩ := step_cases hs
  · refine ⟨fun x hsuccess => (hmoves x).received_subset ?_, fun x hack => (hmoves x.other).ack_sent ?_,
      fun x hack => (hmoves x).received_subset ?_⟩
    · rcases (hmoves x).success hsuccess with hbefore | hqueue
      · exact h.success x hbefore
      · exact (s.session x).queue_subset hqueue
    · exact ((hmoves x).ack_received hack).elim (h.received x) id
    · exact ((hmoves x).ack_sent_cases hack).elim (h.answers x) id
  · constructor <;> rw [hsame]
    · exact h.success
    · exact h.received
    · exact h.answers

/-- In every run a side succeeds only where the other one has received a `PUNCH` of it. -/
theorem punch_received_of_success {s : PunchState} {es : List PunchEvent}
    (hrun : Transitions.run (step c) opened es = some s) {x : Side}
    (hsuccess : (s.session x).phase = .returned true) :
    .punch ∈ (s.session x.other).received := by
  have h : Honest s :=
    Transitions.run_preserves (fun _ _ _ h hs => honest_step h hs) honest_opened hrun
  exact h.answers _ (h.received x (h.success x hsuccess))

/-- An acknowledgement that waits in time goes on to do so, or the side succeeds. -/
theorem ackInTime_step {s s' : PunchState} {e : PunchEvent} {y : Side} (h : s.AckInTime c y)
    (hs : step c s e = some s') :
    s'.AckInTime c y ∨ (s'.session y).phase = .returned true := by
  obtain ⟨hnow, hmoves⟩ | ⟨-, -, hwaits⟩ := step_cases hs
  · have hafter := (hmoves y).keeps_ackInTime h
    rw [← hnow] at hafter
    exact hafter.symm
  · obtain ⟨left, deadline, htrying, hack, -⟩ := h
    have hw := hwaits y
    simp only [Waits, htrying, Bool.and_eq_true, decide_eq_true_eq] at hw
    rw [hw.1] at hack
    cases hack

/-- What `punch` has returned stays so. -/
theorem returned_step {s s' : PunchState} {e : PunchEvent} {y : Side} {success : Bool}
    (h : (s.session y).phase = .returned success) (hs : step c s e = some s') :
    (s'.session y).phase = .returned success := by
  obtain ⟨-, hmoves⟩ | ⟨-, hsame, -⟩ := step_cases hs
  · exact (hmoves y).returned h
  · rw [hsame]
    exact h

/-- In a run to the end of a side, an acknowledgement that once waited in time has made it succeed. -/
theorem success_of_ackInTime {s s' : PunchState} {es : List PunchEvent} {y : Side}
    (h : s.AckInTime c y) (hrun : Transitions.run (step c) s es = some s') {success : Bool}
    (hend : (s'.session y).phase = .returned success) :
    (s'.session y).phase = .returned true := by
  have hafter : s'.AckInTime c y ∨ (s'.session y).phase = .returned true := by
    refine Transitions.run_preserves (P := fun s => s.AckInTime c y ∨
      (s.session y).phase = .returned true) ?_ (Or.inl h) hrun
    rintro s e s' (hwaits | hsuccess) hs
    · exact ackInTime_step hwaits hs
    · exact Or.inr (returned_step hsuccess hs)
  rcases hafter with ⟨left, deadline, htrying, -⟩ | hsuccess
  · rw [hend] at htrying
    cases htrying
  · exact hsuccess

/-- A side that comes to succeed does so on an acknowledgement that waited in time. -/
theorem ackInTime_of_success_step {s s' : PunchState} {e : PunchEvent} {y : Side}
    (hbefore : (s.session y).phase ≠ .returned true) (hs : step c s e = some s')
    (hafter : (s'.session y).phase = .returned true) : s.AckInTime c y := by
  obtain ⟨-, hmoves⟩ | ⟨-, hsame, -⟩ := step_cases hs
  · exact (hmoves y).ackInTime hbefore hafter
  · rw [hsame] at hafter
    exact absurd hafter hbefore

/-- Some state of the run has the property. -/
def Sometime (c : PunchCalls) (es : List PunchEvent) (P : PunchState → Prop) : Prop :=
  ∃ pre post m, es = pre ++ post ∧ Transitions.run (step c) opened pre = some m ∧ P m

/-- A side that has come to its end has succeeded just where an acknowledgement waited in time. -/
theorem success_iff {s : PunchState} {es : List PunchEvent}
    (hrun : Transitions.run (step c) opened es = some s) {y : Side} {success : Bool}
    (hend : (s.session y).phase = .returned success) :
    (s.session y).phase = .returned true ↔ Sometime c es fun m => m.AckInTime c y := by
  constructor
  · intro hsuccess
    have hstart : ¬ (opened.session y).phase = .returned true := PunchPhase.noConfusion
    obtain ⟨pre, e, post, m, m', hes, hpre, hstep, hbefore, hafter⟩ :=
      Transitions.exists_step_of_run (P := fun s => (s.session y).phase = .returned true) hstart hrun
        hsuccess
    exact ⟨pre, e :: post, m, hes, hpre, ackInTime_of_success_step hbefore hstep hafter⟩
  · rintro ⟨pre, post, m, rfl, hpre, hwaits⟩
    exact success_of_ackInTime hwaits (Transitions.run_suffix hrun hpre) hend

/-- The side has returned, or its last attempt ends by `latest`. -/
def EndsBy (c : PunchCalls) (y : Side) (latest : Time) (s : PunchState) : Prop :=
  (∃ success, (s.session y).phase = .returned success) ∨
    ∃ left deadline, (s.session y).phase = .trying left deadline ∧ s.now ≤ deadline ∧
      deadline + left * c.interval y ≤ latest

theorem endsBy_step {s s' : PunchState} {e : PunchEvent} {y : Side} {latest : Time}
    (hinterval : 0 ≤ c.interval y) (h : EndsBy c y latest s) (hs : step c s e = some s') :
    EndsBy c y latest s' := by
  obtain ⟨success, hreturned⟩ | ⟨left, deadline, htrying, hnow, hlatest⟩ := h
  · exact Or.inl ⟨success, returned_step hreturned hs⟩
  obtain ⟨hclock, hmoves⟩ | ⟨-, hsame, hwaits⟩ := step_cases hs
  · have hmove := hmoves y
    rw [← hclock] at hnow
    unfold EndsBy
    generalize s'.session y = p at hmove
    cases hmove with
    | stays => exact Or.inr ⟨left, deadline, htrying, hnow, hlatest⟩
    | receives _ => exact Or.inr ⟨left, deadline, htrying, hnow, hlatest⟩
    | takes _ => exact Or.inr ⟨left, deadline, htrying, hnow, hlatest⟩
    | starts hidle =>
        rw [hidle] at htrying
        cases htrying
    | expires htrying' hdeadline =>
        obtain ⟨rfl, rfl⟩ := PunchPhase.trying.inj (htrying.symm.trans htrying')
        cases left with
        | zero => exact Or.inl ⟨false, rfl⟩
        | succ left =>
            refine Or.inr ⟨left, s.now + c.interval y, rfl, ?_, ?_⟩
            · rw [hclock]
              exact le_add_of_nonneg_right hinterval
            · calc s.now + c.interval y + left * c.interval y
                  = s.now + (left + 1 : Nat) * c.interval y := by push_cast; ring
                _ ≤ deadline + (left + 1 : Nat) * c.interval y :=
                    add_le_add_left (hclock ▸ hnow) _
                _ ≤ latest := hlatest
    | reads _ _ _ =>
        rename_i d _ _ _ _
        rw [HolePunchSession.phase_handle]
        by_cases hd : d = .ack
        · exact Or.inl ⟨true, if_pos hd⟩
        · exact Or.inr ⟨left, deadline, by rw [if_neg hd, htrying], hnow, hlatest⟩
  · refine Or.inr ⟨left, deadline, by rw [hsame, htrying], ?_, hlatest⟩
    have hw := hwaits y
    simp only [Waits, htrying, Bool.and_eq_true, decide_eq_true_eq] at hw
    exact hw.2

/-- **Punching ends.** A side in an attempt has returned once the time of its attempts is over. -/
theorem returns_in_time {s s' : PunchState} {es : List PunchEvent} {y : Side}
    (hinterval : 0 ≤ c.interval y) {left : Nat} {deadline : Time}
    (htrying : (s.session y).phase = .trying left deadline) (hnow : s.now ≤ deadline)
    (hrun : Transitions.run (step c) s es = some s')
    (hlate : deadline + left * c.interval y < s'.now) :
    ∃ success, (s'.session y).phase = .returned success := by
  have hends : EndsBy c y (deadline + left * c.interval y) s' :=
    Transitions.run_preserves (fun _ _ _ h hs => endsBy_step hinterval h hs)
      (Or.inr ⟨left, deadline, htrying, hnow, le_rfl⟩) hrun
  rcases hends with hreturned | ⟨left', deadline', -, hnow', hlatest⟩
  · exact hreturned
  · have hnonneg : 0 ≤ (left' : Int) * c.interval y := mul_nonneg (Int.natCast_nonneg _) hinterval
    have hle : s'.now ≤ deadline + left * c.interval y :=
      calc s'.now ≤ deadline' := hnow'
        _ ≤ deadline' + left' * c.interval y := le_add_of_nonneg_right hnonneg
        _ ≤ deadline + left * c.interval y := hlatest
    exact absurd hlate (not_lt.mpr hle)

/-- In the run to `s` the side succeeds while the other one has attempts left, and every datagram
either of them sends from then on is delivered. -/
def SucceedsEarly (c : PunchCalls) (es : List PunchEvent) (s : PunchState) (x : Side) : Prop :=
  ∃ pre post m, es = pre ++ .read x :: post ∧
    Transitions.run (step c) opened (pre ++ [.read x]) = some m ∧
    (m.session x).phase = .returned true ∧
    (∃ left deadline, (m.session x.other).phase = .trying left deadline ∧ 0 < left) ∧
    ∀ z n, (m.session z).sent.length ≤ n → n < (s.session z).sent.length →
      .deliver z.other n ∈ post

/-- **Punching agrees** in a run to the end of both sides just where an acknowledgement of the side that
succeeds early has waited at the other one in time. -/
theorem agreement_iff {s : PunchState} {es : List PunchEvent}
    (hrun : Transitions.run (step c) opened es = some s)
    (hend : ∀ x, ∃ success, (s.session x).phase = .returned success) :
    ((∀ x, SucceedsEarly c es s x → (s.session x.other).phase = .returned true) ∧
        ∀ x, (s.session x).phase = .returned true → .punch ∈ (s.session x.other).received) ↔
      ∀ x, SucceedsEarly c es s x → Sometime c es fun m => m.AckInTime c x.other := by
  have hsafe : ∀ x, (s.session x).phase = .returned true → .punch ∈ (s.session x.other).received :=
    fun x => punch_received_of_success hrun
  rw [and_iff_left hsafe]
  refine forall_congr' fun x => imp_congr_right fun _ => ?_
  obtain ⟨success, hother⟩ := hend x.other
  exact success_iff hrun hother

/-- Two attempts of one tick each. -/
def twoAttempts : PunchCalls := ⟨fun _ => 2, fun _ => 1⟩

/-- Both punches and both acknowledgements arrive. -/
def bothHeard : List PunchEvent :=
  [.start .first, .start .second, .deliver .second 0, .deliver .first 0, .read .second, .read .first,
    .deliver .first 1, .read .first, .deliver .second 1, .read .second]

/-- The first punch of the second side is lost. The first side succeeds on the acknowledgement of the
second, and does not answer its next punch any more. -/
def oneHeard : List PunchEvent :=
  [.start .first, .start .second, .deliver .second 0, .read .second, .deliver .first 1, .read .first,
    .pass 1, .expire .second, .deliver .first 2, .pass 1, .expire .second]

theorem bothHeard_agree : ∃ s, Transitions.run (step twoAttempts) opened bothHeard = some s ∧
    ((∀ x, SucceedsEarly twoAttempts bothHeard s x → (s.session x.other).phase = .returned true) ∧
      ∀ x, (s.session x).phase = .returned true → .punch ∈ (s.session x.other).received) := by
  refine ⟨_, rfl, (agreement_iff rfl fun x => ⟨true, by cases x <;> rfl⟩).mpr fun x _ => ?_⟩
  cases x with
  | first =>
      exact ⟨bothHeard.take 9, bothHeard.drop 9, _, rfl, rfl, 1, 1, rfl, by decide,
        Or.inl (by decide)⟩
  | second =>
      exact ⟨bothHeard.take 7, bothHeard.drop 7, _, rfl, rfl, 1, 1, rfl, by decide,
        Or.inl (by decide)⟩

/-- The first side has succeeded and every later datagram is delivered, but the second side fails. -/
theorem second_side_gives_up : ∃ s, Transitions.run (step twoAttempts) opened oneHeard = some s ∧
    SucceedsEarly twoAttempts oneHeard s .first ∧
    (s.session .second).phase = .returned false := by
  refine ⟨_, rfl, ⟨oneHeard.take 5, oneHeard.drop 6, _, rfl, rfl, rfl, ⟨1, 1, rfl, by decide⟩, ?_⟩, rfl⟩
  intro z n hsent hn
  cases z with
  | first =>
      change 1 ≤ n at hsent
      change n < 1 at hn
      omega
  | second =>
      change 2 ≤ n at hsent
      change n < 3 at hn
      obtain rfl : n = 2 := by omega
      decide

end Runs

end PunchState

end StardustFS
