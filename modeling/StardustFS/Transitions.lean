import Mathlib.Data.List.Basic

/-! Guarded, executable transition systems and their runs. A step function answers `none` where the
event is not enabled. The two rules below are what a safety proof needs: an invariant of the steps
that meet a condition is an invariant of every run whose steps meet it, and a fold over a list may be
followed prefix by prefix. -/

namespace Transitions

variable {σ ε : Type*} (step : σ → ε → Option σ)

/-- The state after the events, `none` where one of them is not enabled. -/
def run : σ → List ε → Option σ
  | s, [] => some s
  | s, e :: es => (step s e).bind fun s' => run s' es

/-- Every step of the run from `s` meets `ok`, a condition on the state before the step and the
event. -/
def StepsMeet (ok : σ → ε → Prop) : σ → List ε → Prop
  | _, [] => True
  | s, e :: es => ok s e ∧ ∀ s', step s e = some s' → StepsMeet ok s' es

variable {step}

@[simp] theorem run_nil (s : σ) : run step s [] = some s := rfl

theorem run_cons_eq_some {s s' : σ} {e : ε} {es : List ε} :
    run step s (e :: es) = some s' ↔ ∃ m, step s e = some m ∧ run step m es = some s' := by
  simp only [run, Option.bind_eq_some_iff]

theorem run_append_eq_some {s s' : σ} {es fs : List ε} :
    run step s (es ++ fs) = some s' ↔ ∃ m, run step s es = some m ∧ run step m fs = some s' := by
  induction es generalizing s with
  | nil => simp
  | cons e es ih =>
      simp only [List.cons_append, run_cons_eq_some, ih]
      constructor
      · rintro ⟨m, hm, m', hm', hs'⟩
        exact ⟨m', ⟨m, hm, hm'⟩, hs'⟩
      · rintro ⟨m', ⟨m, hm, hm'⟩, hs'⟩
        exact ⟨m, hm, m', hm', hs'⟩

/-- What is left of a run after a prefix of it. -/
theorem run_suffix {s m s' : σ} {es fs : List ε} (hrun : run step s (es ++ fs) = some s')
    (hm : run step s es = some m) : run step m fs = some s' := by
  obtain ⟨m', hm', hrest⟩ := run_append_eq_some.mp hrun
  obtain rfl := Option.some_inj.mp (hm.symm.trans hm')
  exact hrest

/-- Where every event is enabled, so is every run. -/
theorem exists_run (htotal : ∀ s e, ∃ s', step s e = some s') (s : σ) (es : List ε) :
    ∃ s', run step s es = some s' := by
  induction es generalizing s with
  | nil => exact ⟨s, rfl⟩
  | cons e es ih =>
      obtain ⟨m, hm⟩ := htotal s e
      obtain ⟨s', hs'⟩ := ih m
      exact ⟨s', run_cons_eq_some.mpr ⟨m, hm, hs'⟩⟩

theorem StepsMeet.append {ok : σ → ε → Prop} {s m : σ} {es fs : List ε}
    (h : StepsMeet step ok s (es ++ fs)) (hm : run step s es = some m) :
    StepsMeet step ok s es ∧ StepsMeet step ok m fs := by
  induction es generalizing s with
  | nil =>
      rw [run_nil, Option.some_inj] at hm
      subst hm
      exact ⟨trivial, h⟩
  | cons e es ih =>
      obtain ⟨s₁, hs₁, hm⟩ := run_cons_eq_some.mp hm
      obtain ⟨hok, hrest⟩ := h
      refine ⟨⟨hok, fun s' hs' => ?_⟩, (ih (hrest s₁ hs₁) hm).2⟩
      rw [hs₁, Option.some_inj] at hs'
      subst hs'
      exact (ih (hrest s₁ hs₁) hm).1

theorem stepsMeet_append {ok : σ → ε → Prop} {s m : σ} {es fs : List ε} (h : StepsMeet step ok s es)
    (hm : run step s es = some m) (h' : StepsMeet step ok m fs) : StepsMeet step ok s (es ++ fs) := by
  induction es generalizing s with
  | nil =>
      rw [run_nil, Option.some_inj] at hm
      exact hm ▸ h'
  | cons e es ih =>
      obtain ⟨s₁, hs₁, hm⟩ := run_cons_eq_some.mp hm
      refine ⟨h.1, fun s' hs' => ?_⟩
      obtain rfl := Option.some_inj.mp (hs₁.symm.trans hs')
      exact ih (h.2 s₁ hs₁) hm

theorem stepsMeet_cons {ok : σ → ε → Prop} {s m : σ} {e : ε} {es : List ε} (hok : ok s e)
    (hm : step s e = some m) (h : StepsMeet step ok m es) : StepsMeet step ok s (e :: es) :=
  ⟨hok, fun _ hs' => Option.some.inj (hm.symm.trans hs') ▸ h⟩

/-- A condition that can be decided of a step can be decided of a run. -/
instance decidableStepsMeet {ok : σ → ε → Prop} [∀ s e, Decidable (ok s e)] :
    ∀ s es, Decidable (StepsMeet step ok s es)
  | _, [] => isTrue trivial
  | s, e :: es =>
      match h : step s e with
      | none => decidable_of_iff (ok s e) (by simp [StepsMeet, h])
      | some s' =>
          have : Decidable (StepsMeet step ok s' es) := decidableStepsMeet s' es
          decidable_of_iff (ok s e ∧ StepsMeet step ok s' es) (by simp [StepsMeet, h])

theorem StepsMeet.and {ok ok' : σ → ε → Prop} {s : σ} {es : List ε} (h : StepsMeet step ok s es)
    (h' : StepsMeet step ok' s es) : StepsMeet step (fun s e => ok s e ∧ ok' s e) s es := by
  induction es generalizing s with
  | nil => trivial
  | cons e es ih => exact ⟨⟨h.1, h'.1⟩, fun s' hs' => ih (h.2 s' hs') (h'.2 s' hs')⟩

theorem StepsMeet.mono {ok ok' : σ → ε → Prop} (hok : ∀ s e, ok s e → ok' s e) {s : σ}
    {es : List ε} (h : StepsMeet step ok s es) : StepsMeet step ok' s es := by
  induction es generalizing s with
  | nil => trivial
  | cons e es ih => exact ⟨hok s e h.1, fun s' hs' => ih (h.2 s' hs')⟩

theorem stepsMeet_of_forall {ok : σ → ε → Prop} (hok : ∀ s e, ok s e) (s : σ) (es : List ε) :
    StepsMeet step ok s es := by
  induction es generalizing s with
  | nil => trivial
  | cons e es ih => exact ⟨hok s e, fun s' _ => ih s'⟩

theorem stepsMeet_of_mem {ok : ε → Prop} {es : List ε} (hok : ∀ e ∈ es, ok e) (s : σ) :
    StepsMeet step (fun _ e => ok e) s es := by
  induction es generalizing s with
  | nil => trivial
  | cons e es ih =>
      exact ⟨hok e List.mem_cons_self, fun s' _ =>
        ih (fun e' he' => hok e' (List.mem_cons_of_mem e he')) s'⟩

/-- **Invariants of runs.** What every step that meets the condition preserves holds after every run
whose steps meet it. -/
theorem run_invariant {P : σ → Prop} {ok : σ → ε → Prop}
    (hstep : ∀ s e s', P s → ok s e → step s e = some s' → P s') {s s' : σ} {es : List ε}
    (hs : P s) (hok : StepsMeet step ok s es) (hrun : run step s es = some s') : P s' := by
  induction es generalizing s with
  | nil =>
      rw [run_nil, Option.some_inj] at hrun
      exact hrun ▸ hs
  | cons e es ih =>
      obtain ⟨m, hm, hrun⟩ := run_cons_eq_some.mp hrun
      exact ih (hstep s e m hs hok.1 hm) (hok.2 m hm) hrun

/-- What every step preserves holds after every run. -/
theorem run_preserves {P : σ → Prop} (hstep : ∀ s e s', P s → step s e = some s' → P s') {s s' : σ}
    {es : List ε} (hs : P s) (hrun : run step s es = some s') : P s' := by
  have hmeet : StepsMeet step (fun _ _ => True) s es := stepsMeet_of_forall (fun _ _ => trivial) s es
  exact run_invariant (fun s e s' h _ => hstep s e s' h) hs hmeet hrun

/-- What holds of every step from a state with the invariant holds of each step of a run. -/
theorem run_step_property {P : σ → Prop} {ok : σ → ε → Prop} {Q : σ → ε → σ → Prop}
    (hstep : ∀ s e s', P s → ok s e → step s e = some s' → P s' ∧ Q s e s') {s m m' : σ}
    {es fs : List ε} {e : ε} (hs : P s) (hok : StepsMeet step ok s (es ++ e :: fs))
    (hrun : run step s es = some m) (he : step m e = some m') : Q m e m' := by
  obtain ⟨hpre, hpost⟩ := hok.append hrun
  have hm : P m := run_invariant (fun s e s' hP ho h => (hstep s e s' hP ho h).1) hs hpre hrun
  exact (hstep m e m' hm hpost.1 he).2

/-- What comes to hold in a run comes to hold in one of its steps. -/
theorem exists_step_of_run {P : σ → Prop} {s s' : σ} {es : List ε} (hs : ¬ P s)
    (hrun : run step s es = some s') (hs' : P s') :
    ∃ pre e post m m', es = pre ++ e :: post ∧ run step s pre = some m ∧ step m e = some m' ∧
      ¬ P m ∧ P m' := by
  induction es generalizing s with
  | nil =>
      rw [run_nil, Option.some_inj] at hrun
      exact absurd (hrun ▸ hs') hs
  | cons e es ih =>
      obtain ⟨m, hm, hrun⟩ := run_cons_eq_some.mp hrun
      by_cases hP : P m
      · exact ⟨[], e, es, s, m, rfl, rfl, hm, hs, hP⟩
      · obtain ⟨pre, e', post, m₁, m₂, rfl, hpre, hstep, hbefore, hafter⟩ := ih hP hrun
        exact ⟨e :: pre, e', post, m₁, m₂, rfl, run_cons_eq_some.mpr ⟨m, hm, hpre⟩, hstep, hbefore,
          hafter⟩

variable (step) in
/-- The condition holds of the state a run starts in and of every state it reaches. -/
def StatesMeet (P : σ → Prop) : σ → List ε → Prop
  | s, [] => P s
  | s, e :: es => P s ∧ ∀ s', step s e = some s' → StatesMeet P s' es

theorem StatesMeet.last {P : σ → Prop} {s s' : σ} {es : List ε} (h : StatesMeet step P s es)
    (hrun : run step s es = some s') : P s' := by
  induction es generalizing s with
  | nil =>
      rw [run_nil, Option.some_inj] at hrun
      exact hrun ▸ h
  | cons e es ih =>
      obtain ⟨m, hm, hrun⟩ := run_cons_eq_some.mp hrun
      exact ih (h.2 m hm) hrun

/-- An invariant of the steps that meet a condition holds in every state of a run whose steps meet it. -/
theorem statesMeet_of_stepsMeet {I P : σ → Prop} {ok : σ → ε → Prop} (hIP : ∀ s, I s → P s)
    (hstep : ∀ s e s', I s → ok s e → step s e = some s' → I s') {s : σ} {es : List ε} (hs : I s)
    (h : StepsMeet step ok s es) : StatesMeet step P s es := by
  induction es generalizing s with
  | nil => exact hIP s hs
  | cons e es ih => exact ⟨hIP s hs, fun s' hs' => ih (hstep s e s' hs h.1 hs') (h.2 s' hs')⟩

/-- **Exactness.** Among the runs whose steps meet a first condition: where the steps that meet a
second one keep an invariant that gives the property, and a step that does not meet it leads out of
the property, the runs with the property in every state are those whose steps all meet the second. -/
theorem statesMeet_iff_stepsMeet_of {I P : σ → Prop} {ok₀ ok : σ → ε → Prop}
    (hIP : ∀ s, I s → P s)
    (hstep : ∀ s e s', I s → ok₀ s e → ok s e → step s e = some s' → I s')
    (hbad : ∀ s e s', I s → ok₀ s e → ¬ ok s e → step s e = some s' → ¬ P s') {s s' : σ}
    {es : List ε} (hs : I s) (h₀ : StepsMeet step ok₀ s es) (hrun : run step s es = some s') :
    StatesMeet step P s es ↔ StepsMeet step ok s es := by
  induction es generalizing s with
  | nil => exact ⟨fun _ => trivial, fun _ => hIP s hs⟩
  | cons e es ih =>
      obtain ⟨m, hm, hrun⟩ := run_cons_eq_some.mp hrun
      have honly : ∀ m', step s e = some m' → m' = m := fun m' h =>
        Option.some_inj.mp (h.symm.trans hm)
      constructor
      · intro h
        have hok : ok s e := by
          by_contra hno
          refine hbad s e m hs h₀.1 hno hm ?_
          cases es with
          | nil => exact h.2 m hm
          | cons e' es => exact (h.2 m hm).1
        refine ⟨hok, fun m' hm' => ?_⟩
        rw [honly m' hm']
        exact (ih (hstep s e m hs h₀.1 hok hm) (h₀.2 m hm) hrun).mp (h.2 m hm)
      · intro h
        refine ⟨hIP s hs, fun m' hm' => ?_⟩
        rw [honly m' hm']
        exact (ih (hstep s e m hs h₀.1 h.1 hm) (h₀.2 m hm) hrun).mpr (h.2 m hm)

/-- Exactness among all runs. -/
theorem statesMeet_iff_stepsMeet {I P : σ → Prop} {ok : σ → ε → Prop} (hIP : ∀ s, I s → P s)
    (hstep : ∀ s e s', I s → ok s e → step s e = some s' → I s')
    (hbad : ∀ s e s', I s → ¬ ok s e → step s e = some s' → ¬ P s') {s s' : σ} {es : List ε}
    (hs : I s) (hrun : run step s es = some s') :
    StatesMeet step P s es ↔ StepsMeet step ok s es :=
  statesMeet_iff_stepsMeet_of hIP (fun s e s' h _ hok => hstep s e s' h hok)
    (fun s e s' h _ hno => hbad s e s' h hno) hs
    (stepsMeet_of_forall (fun _ _ => trivial) s es : StepsMeet step (fun _ _ => True) s es) hrun

/-- Exactness where every event is enabled. -/
theorem statesMeet_iff_stepsMeet_of_total {I P : σ → Prop} {ok : σ → ε → Prop}
    (htotal : ∀ s e, ∃ s', step s e = some s') (hIP : ∀ s, I s → P s)
    (hstep : ∀ s e s', I s → ok s e → step s e = some s' → I s')
    (hbad : ∀ s e s', I s → ¬ ok s e → step s e = some s' → ¬ P s') {s : σ} (hs : I s)
    (es : List ε) : StatesMeet step P s es ↔ StepsMeet step ok s es := by
  obtain ⟨s', hrun⟩ := exists_run htotal s es
  exact statesMeet_iff_stepsMeet hIP hstep hbad hs hrun

/-- A property that no step brings back holds in every state of a run where it holds in the last. -/
theorem statesMeet_iff_last {I P : σ → Prop} (hstep : ∀ s e s', I s → step s e = some s' → I s')
    (hback : ∀ s e s', I s → step s e = some s' → P s' → P s) {s s' : σ} {es : List ε} (hs : I s)
    (hrun : run step s es = some s') : StatesMeet step P s es ↔ P s' := by
  refine ⟨fun h => h.last hrun, fun hlast => ?_⟩
  induction es generalizing s with
  | nil =>
      rw [run_nil, Option.some_inj] at hrun
      exact hrun ▸ hlast
  | cons e es ih =>
      obtain ⟨m, hm, hrun⟩ := run_cons_eq_some.mp hrun
      have hrest : StatesMeet step P m es := ih (hstep s e m hs hm) hrun
      refine ⟨hback s e m hs hm ?_, fun m' hm' => ?_⟩
      · cases es with
        | nil => exact hrest
        | cons e' es => exact hrest.1
      · rwa [← Option.some_inj.mp (hm.symm.trans hm')]

/-- The condition on the steps of a fold, read off its prefixes. -/
theorem stepsMeet_foldl_iff {α β : Type*} (f : β → α → β) (ok : β → α → Prop) (b : β) (l : List α) :
    StepsMeet (fun b x => some (f b x)) ok b l ↔
      ∀ done x rest, l = done ++ x :: rest → ok (done.foldl f b) x := by
  induction l generalizing b with
  | nil => simp [StepsMeet]
  | cons y l ih =>
      simp only [StepsMeet, Option.some_inj, forall_eq', ih]
      constructor
      · rintro ⟨hy, hl⟩ done x rest h
        cases done with
        | nil =>
            obtain ⟨rfl, -⟩ := List.cons.inj h
            exact hy
        | cons z done =>
            obtain ⟨rfl, hrest⟩ := List.cons.inj h
            exact hl done x rest hrest
      · intro h
        exact ⟨h [] y l rfl, fun done x rest hl => h (y :: done) x rest (by rw [hl]; rfl)⟩

/-- A fold followed prefix by prefix: the motive may speak of what has been folded in. -/
theorem foldl_prefix_rule {α β : Type*} (f : β → α → β) (l : List α)
    (P : List α → β → Prop) {b : β} (h0 : P [] b)
    (hs : ∀ done x rest b, l = done ++ x :: rest → P done b → P (done ++ [x]) (f b x)) :
    P l (l.foldl f b) := by
  have key : ∀ (rest done : List α) (b : β), l = done ++ rest → P done b →
      P l (rest.foldl f b) := by
    intro rest
    induction rest with
    | nil =>
        intro done b hl hP
        rw [List.append_nil] at hl
        exact hl ▸ hP
    | cons x rest ih =>
        intro done b hl hP
        exact ih (done ++ [x]) (f b x) (by rw [hl, List.append_assoc, List.singleton_append])
          (hs done x rest b hl hP)
  exact key l [] b rfl h0

end Transitions
