import Mathlib.Data.List.Basic

/-! Deterministic machines with outputs, and the simulation of one by another. The relation between
their states may speak of the events that are still to come. -/

namespace Simulation

variable {σ τ ε α : Type*}

/-- What the machine answers to the events. -/
def outputs (f : σ → ε → α × σ) : σ → List ε → List α
  | _, [] => []
  | s, e :: es => (f s e).1 :: outputs f (f s e).2 es

/-- The state after the events. -/
def after (f : σ → ε → α × σ) (s : σ) (es : List ε) : σ := es.foldl (fun s e => (f s e).2) s

/-- **Simulation.** Machines that answer alike and stay related at each event answer alike throughout
and are related at every moment. -/
theorem simulates {f : σ → ε → α × σ} {g : τ → ε → α × τ} {R : List ε → σ → τ → Prop}
    (hstep : ∀ e es s t, R (e :: es) s t →
      (f s e).1 = (g t e).1 ∧ R es (f s e).2 (g t e).2) {s : σ} {t : τ} {es : List ε}
    (h : R es s t) :
    outputs f s es = outputs g t es ∧
      ∀ done rest, es = done ++ rest → R rest (after f s done) (after g t done) := by
  induction es generalizing s t with
  | nil =>
      refine ⟨rfl, fun done rest heq => ?_⟩
      obtain ⟨rfl, rfl⟩ := List.nil_eq_append_iff.mp heq
      exact h
  | cons e es ih =>
      obtain ⟨hout, hrest⟩ := hstep e es s t h
      obtain ⟨houts, hafter⟩ := ih hrest
      refine ⟨by rw [outputs, outputs, hout, houts], fun done rest heq => ?_⟩
      cases done with
      | nil =>
          rw [List.nil_append] at heq
          exact heq ▸ h
      | cons e' done =>
          obtain ⟨rfl, htail⟩ := List.cons.inj heq
          exact hafter done rest htail

end Simulation
