import StardustFS.ReplicationScheduler

/-! How long a repair waits. The scheduler keeps one time per path, of the first cycle that found it
short of replicas; the statement is about the history of all cycles. The invariant says what a kept time
means: since the turn it was read in, the path was found short of replicas whenever its health could be
read, and was not repaired. -/

namespace StardustFS

/-- The turn of one file in a heal cycle: the clock reading of the cycle, what the health check found
(`none` for an exception), and whether `ensure_replicas` returned (`none` where it was not called). -/
structure HealEvent where
  now : Time
  path : Text
  degraded : Option Bool
  ensured : Option Bool
  deriving DecidableEq

/-- A call of `run_heal_cycle`: what the store lists at that moment, and what the cycle meets. -/
structure HealCall where
  metadata : List ReplicationStatus → Option DeviceId → List Text
  turn : HealTurn

namespace ReplicationScheduler

def healEvent (s : ReplicationScheduler) (turn : HealTurn) (p : Text) : HealEvent where
  now := turn.now
  path := p
  degraded := turn.degraded p
  ensured :=
    if turn.degraded p = some true ∧
        ¬ turn.now - (s.degradedSince.get p).getD turn.now < s.healGrace then
      some (turn.ensured p)
    else none

/-- The turns of a heal cycle. -/
def healEvents (s : ReplicationScheduler) (turn : HealTurn) : List Text → List HealEvent
  | [] => []
  | p :: paths =>
      if turn.stopped p then []
      else s.healEvent turn p :: (s.healPath turn p).2.healEvents turn paths

/-- The scheduler where the store lists what it does at the moment of a call. -/
def withListing (s : ReplicationScheduler) (c : HealCall) : ReplicationScheduler :=
  { s with metadata := c.metadata }

/-- The turns of the calls one after the other, and the scheduler after them. -/
def history (s : ReplicationScheduler) : List HealCall → List HealEvent × ReplicationScheduler
  | [] => ([], s)
  | c :: calls =>
      let paths := sliceTo (s.withListing c).healPaths s.maxFiles
      let rest := ((s.withListing c).runHealCycle c.turn).after.history calls
      ((s.withListing c).healEvents c.turn paths ++ rest.1, rest.2)

/-- The turns are those the cycle takes: of the files it checks, with as many repairs as it counts. -/
theorem healEvents_spec (s : ReplicationScheduler) (turn : HealTurn) (paths : List Text) :
    (s.healEvents turn paths).map HealEvent.path = (s.healLoop turn paths).checked ∧
      (s.healEvents turn paths).countP (fun e => e.ensured = some true) =
        (s.healLoop turn paths).repaired := by
  induction paths generalizing s with
  | nil => exact ⟨rfl, rfl⟩
  | cons p paths ih =>
      rw [healEvents, healLoop]
      cases turn.stopped p with
      | true => exact ⟨rfl, rfl⟩
      | false =>
          obtain ⟨hchecked, hrepaired⟩ := ih (s.healPath turn p).2
          have hevent : (s.healEvent turn p).ensured = some true ↔ (s.healPath turn p).1 = true := by
            unfold healEvent healPath
            cases turn.degraded p with
            | none => simp
            | some short =>
                cases short with
                | false => simp
                | true =>
                    by_cases hwait : turn.now - (s.degradedSince.get p).getD turn.now < s.healGrace
                    · simp [hwait]
                    · cases turn.ensured p <;> simp [hwait]
          simp only [Bool.false_eq_true, if_false, List.map_cons, List.countP_cons, hchecked, hrepaired,
            decide_eq_true_eq, hevent]
          exact ⟨rfl, trivial⟩

/-! ### What a kept time means -/

/-- In the history the path was found short of replicas at the time, and ever since whenever its health
could be read, without a repair. -/
def ShortSince (history : List HealEvent) (p : Text) (first : Time) : Prop :=
  ∃ pre o post, history = pre ++ o :: post ∧ o.path = p ∧ o.degraded = some true ∧ o.now = first ∧
    o.ensured ≠ some true ∧ ∀ x ∈ post, x.path = p → x.degraded ≠ some false ∧ x.ensured ≠ some true

/-- A call of `ensure_replicas` after the history has waited for the time of grace: the path was found
short of replicas by then, and from that turn on whenever its health could be read, this time included,
and no repair of it has succeeded in between. -/
def Waited (grace : Time) (history : List HealEvent) (e : HealEvent) : Prop :=
  e.ensured ≠ none → ∃ pre o post, history ++ [e] = pre ++ o :: post ∧ o.path = e.path ∧
    o.degraded = some true ∧ o.now ≤ e.now - grace ∧
      (∀ x ∈ post, x.path = e.path → x.degraded ≠ some false) ∧
        ∀ x ∈ (o :: post).dropLast, x.path = e.path → x.ensured ≠ some true

/-- Every repair of the history has waited. -/
def AllWaited (grace : Time) (history : List HealEvent) : Prop :=
  ∀ before e after, history = before ++ e :: after → Waited grace before e

/-- What holds between two turns: the kept times mean what they say, and all repairs have waited. -/
structure HealInv (s : ReplicationScheduler) (grace : Time) (history : List HealEvent) : Prop where
  healGrace : s.healGrace = grace
  short : ∀ p first, s.degradedSince.get p = some first → ShortSince history p first
  waited : AllWaited grace history

section Step

variable {s : ReplicationScheduler} {turn : HealTurn} {grace : Time} {history : List HealEvent}
  {p q : Text} {first : Time} {e : HealEvent}

/-- A kept time stays true over a turn that neither finds the path healthy nor repairs it. -/
theorem ShortSince.append (h : ShortSince history p first)
    (he : e.path = p → e.degraded ≠ some false ∧ e.ensured ≠ some true) :
    ShortSince (history ++ [e]) p first := by
  obtain ⟨pre, o, post, rfl, hpath, hdegraded, hnow, hensured, hpost⟩ := h
  refine ⟨pre, o, post ++ [e], by simp, hpath, hdegraded, hnow, hensured, fun x hx => ?_⟩
  rcases List.mem_append.mp hx with hx | hx
  · exact hpost x hx
  · obtain rfl := List.mem_singleton.mp hx
    exact he

theorem shortSince_self (hdegraded : e.degraded = some true) (hensured : e.ensured ≠ some true) :
    ShortSince (history ++ [e]) e.path e.now :=
  ⟨history, e, [], rfl, rfl, hdegraded, rfl, hensured, fun _ hx => (List.not_mem_nil hx).elim⟩

theorem AllWaited.append (h : AllWaited grace history) (he : Waited grace history e) :
    AllWaited grace (history ++ [e]) := by
  intro before e' after heq
  rcases List.eq_nil_or_concat after with rfl | ⟨after', x, rfl⟩
  · obtain ⟨rfl, hlast⟩ := List.append_inj' heq rfl
    obtain rfl : e = e' := List.singleton_inj.mp hlast
    exact he
  · rw [List.concat_eq_append, ← List.cons_append, ← List.append_assoc] at heq
    obtain ⟨rfl, -⟩ := List.append_inj' heq rfl
    exact h before e' after' rfl

/-- The times a turn leaves. -/
theorem degradedSince_healPath (s : ReplicationScheduler) (turn : HealTurn) (p : Text) :
    (s.healPath turn p).2.healGrace = s.healGrace ∧
      (∀ q, q ≠ p → (s.healPath turn p).2.degradedSince.get q = s.degradedSince.get q) ∧
      ∀ first, (s.healPath turn p).2.degradedSince.get p = some first →
        turn.degraded p ≠ some false ∧ (s.healEvent turn p).ensured ≠ some true ∧
          (s.degradedSince.get p = some first ∨
            s.degradedSince.get p = none ∧ turn.degraded p = some true ∧ turn.now = first) := by
  have hdropped : ∀ (t : Table Text Time) q, (t.deleteWhere fun q _ => q = p).get q =
      if q = p then none else t.get q := by
    intro t q
    rw [Table.get_deleteWhere]
    by_cases hq : q = p
    · simp [hq]
    · rw [if_neg hq]
      cases t.get q with
      | none => rfl
      | some first => simp [hq]
  unfold healPath healEvent
  cases turn.degraded p with
  | none => simp
  | some short =>
      cases short with
      | false => simp +contextual [hdropped]
      | true =>
          have hnoted : ∀ q, q ≠ p → ∀ first, (s.degradedSince.put p first).get q =
              s.degradedSince.get q := fun q hq first => Table.get_put_of_ne _ _ hq
          have hkept : ∀ first, (s.degradedSince.put p ((s.degradedSince.get p).getD turn.now)).get p =
              some first → s.degradedSince.get p = some first ∨
                s.degradedSince.get p = none ∧ turn.now = first := by
            intro first hfirst
            rw [Table.get_put_self, Option.some_inj] at hfirst
            cases hold : s.degradedSince.get p with
            | none =>
                rw [hold] at hfirst
                exact Or.inr ⟨rfl, hfirst⟩
            | some old =>
                rw [hold] at hfirst
                exact Or.inl (congrArg some hfirst)
          by_cases hwait : turn.now - (s.degradedSince.get p).getD turn.now < s.healGrace
          · simp only [hwait, if_true]
            refine ⟨trivial, fun q hq => hnoted q hq _, fun first hfirst => ⟨by simp, by simp, ?_⟩⟩
            simpa using hkept first hfirst
          · cases turn.ensured p with
            | true => simp +contextual [hwait, hdropped, hnoted]
            | false =>
                simp only [hwait, if_false, Bool.false_eq_true]
                refine ⟨trivial, fun q hq => hnoted q hq _, fun first hfirst => ⟨by simp, by simp, ?_⟩⟩
                simpa using hkept first hfirst

theorem waited_healEvent (hshort : ∀ p first, s.degradedSince.get p = some first →
    ShortSince history p first) : Waited s.healGrace history (s.healEvent turn p) := by
  intro hensured
  obtain ⟨hdegraded, helapsed⟩ : turn.degraded p = some true ∧
      ¬ turn.now - (s.degradedSince.get p).getD turn.now < s.healGrace := by
    by_contra hnot
    exact hensured (if_neg hnot)
  cases hold : s.degradedSince.get p with
  | none =>
      -- found short of replicas for the first time, and no time of grace is asked for
      rw [hold, Option.getD_none, Int.sub_self, Int.not_lt] at helapsed
      refine ⟨history, s.healEvent turn p, [], rfl, rfl, hdegraded, ?_, ?_, ?_⟩
      · exact le_sub_self_iff turn.now |>.mpr helapsed
      · exact fun _ hx => (List.not_mem_nil hx).elim
      · exact fun _ hx => (List.not_mem_nil hx).elim
  | some first =>
      rw [hold, Option.getD_some, Int.not_lt] at helapsed
      obtain ⟨pre, o, post, hsplit, hpath, hshortage, hnow, hrepaired, hpost⟩ := hshort p first hold
      refine ⟨pre, o, post ++ [s.healEvent turn p], by simp [hsplit], hpath, hshortage, ?_, ?_, ?_⟩
      · rw [hnow]
        exact le_sub_comm.mp helapsed
      · intro x hx hxpath
        rcases List.mem_append.mp hx with hx | hx
        · exact (hpost x hx hxpath).1
        · obtain rfl := List.mem_singleton.mp hx
          change turn.degraded p ≠ some false
          rw [hdegraded]
          decide
      · intro x hx hxpath
        rw [← List.cons_append, List.dropLast_concat] at hx
        rcases List.mem_cons.mp hx with rfl | hx
        · exact hrepaired
        · exact (hpost x hx hxpath).2

/-- A turn keeps the invariant. -/
theorem HealInv.healPath (h : HealInv s grace history) (turn : HealTurn) (p : Text) :
    HealInv (s.healPath turn p).2 grace (history ++ [s.healEvent turn p]) := by
  obtain ⟨hgrace, hother, hown⟩ := degradedSince_healPath s turn p
  refine ⟨hgrace.trans h.healGrace, fun q first hq => ?_, ?_⟩
  · by_cases hqp : q = p
    · subst hqp
      obtain ⟨hnot, hensured, hkept | ⟨-, hdegraded, rfl⟩⟩ := hown first hq
      · exact (h.short q first hkept).append fun _ => ⟨hnot, hensured⟩
      · exact shortSince_self hdegraded hensured
    · rw [hother q hqp] at hq
      exact (h.short q first hq).append fun hpath => absurd hpath.symm hqp
  · exact h.waited.append (h.healGrace ▸ waited_healEvent h.short)

end Step

theorem HealInv.healLoop {s : ReplicationScheduler} {grace : Time} {history : List HealEvent}
    (h : HealInv s grace history) (turn : HealTurn) (paths : List Text) :
    HealInv (s.healLoop turn paths).after grace (history ++ s.healEvents turn paths) := by
  induction paths generalizing s history with
  | nil =>
      rw [healEvents, List.append_nil]
      exact h
  | cons p paths ih =>
      rw [healEvents, ReplicationScheduler.healLoop]
      cases turn.stopped p with
      | true =>
          simp only [if_true, List.append_nil]
          exact h
      | false =>
          have hrest := ih (h.healPath turn p)
          rw [List.append_assoc, List.singleton_append] at hrest
          exact hrest

theorem HealInv.history {s : ReplicationScheduler} {grace : Time} {events : List HealEvent}
    (h : HealInv s grace events) (calls : List HealCall) :
    HealInv (s.history calls).2 grace (events ++ (s.history calls).1) := by
  induction calls generalizing s events with
  | nil =>
      rw [ReplicationScheduler.history, List.append_nil]
      exact h
  | cons c calls ih =>
      have hlisted : HealInv (s.withListing c) grace events := ⟨h.healGrace, h.short, h.waited⟩
      have hrest := ih (hlisted.healLoop c.turn (sliceTo (s.withListing c).healPaths s.maxFiles))
      rw [List.append_assoc] at hrest
      exact hrest

/-- A scheduler with a time of grace of ten. -/
def patient : ReplicationScheduler where
  metadata := fun _ _ => ["/a".toList]
  ownerDeviceId := none
  healGrace := 10

/-- A cycle at a clock reading that finds the file short of replicas. -/
def shortAt (now : Time) : HealCall where
  metadata := fun _ _ => ["/a".toList]
  turn := { now, degraded := fun _ => some true }

example : (patient.history [shortAt 0, shortAt 9, shortAt 10]).1.map HealEvent.ensured =
    [none, none, some true] := by decide

end ReplicationScheduler

end StardustFS
