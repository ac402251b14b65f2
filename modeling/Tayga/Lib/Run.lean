import Mathlib.Data.List.Basic
import Mathlib.Logic.Function.Iterate

/-!
# Runs of a system

A system is a step function on states; a run is a list of events.  An invariant that every permitted step keeps holds
after every run whose events are all permitted in the states they meet.
-/

namespace Run

variable {σ ε : Type*} (step : σ → ε → σ)

/-- The state after a run. -/
def run (s : σ) (es : List ε) : σ := es.foldl step s

/-- Every event of the run is permitted in the state it meets. -/
def Along (ok : σ → ε → Prop) : σ → List ε → Prop
  | _, [] => True
  | s, e :: es => ok s e ∧ Along ok (step s e) es

variable {step} {ok ok' : σ → ε → Prop} {s : σ} {es es' : List ε}

@[simp] theorem run_nil : run step s [] = s := rfl

@[simp] theorem run_cons (e : ε) : run step s (e :: es) = run step (step s e) es := rfl

theorem run_append : run step s (es ++ es') = run step (run step s es) es' := List.foldl_append

theorem run_replicate (n : Nat) (e : ε) : run step s (List.replicate n e) = (fun s => step s e)^[n] s := by
  induction n generalizing s with
  | zero => rfl
  | succ n ih => rw [List.replicate_succ, run_cons, ih, Function.iterate_succ_apply]

theorem Along.append : Along step ok s (es ++ es') ↔ Along step ok s es ∧ Along step ok (run step s es) es' := by
  induction es generalizing s with
  | nil => simp [Along]
  | cons e es ih => simp only [List.cons_append, Along, run_cons, ih, and_assoc]

theorem Along.mono (h : ∀ s e, ok s e → ok' s e) (ha : Along step ok s es) : Along step ok' s es := by
  induction es generalizing s with
  | nil => trivial
  | cons e es ih => exact ⟨h s e ha.1, ih ha.2⟩

/-- Every event is permitted where an invariant says so. -/
theorem Along.of_inv {I : σ → Prop} (hstep : ∀ s e, I s → I (step s e)) (hok : ∀ s e, I s → ok s e) (h : I s)
    (es : List ε) : Along step ok s es := by
  induction es generalizing s with
  | nil => trivial
  | cons e es ih => exact ⟨hok s e h, ih (hstep s e h)⟩

/-- The induction over a run. -/
theorem Along.inv {I : σ → Prop} (hstep : ∀ s e, I s → ok s e → I (step s e)) (h0 : I s)
    (ha : Along step ok s es) : I (run step s es) := by
  induction es generalizing s with
  | nil => exact h0
  | cons e es ih => exact ih (hstep s e h0 ha.1) ha.2

instance decidableAlong [∀ s e, Decidable (ok s e)] : ∀ s es, Decidable (Along step ok s es)
  | _, [] => isTrue trivial
  | s, e :: es => @instDecidableAnd _ _ _ (decidableAlong (step s e) es)

end Run
