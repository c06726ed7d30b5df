import Mathlib.Order.Defs.Unbundled

/-!
# Runs of a state machine

A machine is a function that takes a state and an action to the next state, and a
run is a list of actions. The two rules here take what one step does to what a
whole run does: an invariant (`run_invariant`), and a relation between the first
state of a run and its last (`run_rel`). Both are for runs whose actions are all
allowed in the state they are made in (`Along`).

A machine may also answer its actions. If the states of two machines are related and every allowed
action gets the same answer and keeps the relation, then a whole run gets the same answers
(`answers_eq`): one machine simulates the other.
-/

namespace PhpSandbox.Lib

section Runs

variable {σ α : Type*} (step : σ → α → σ)

/-- The state after these actions. -/
def run (s : σ) (as : List α) : σ := as.foldl step s

/-- Every action is made in a state that allows it. -/
def Along (ok : σ → α → Prop) : σ → List α → Prop
  | _, [] => True
  | s, a :: as => ok s a ∧ Along ok (step s a) as

variable {step} {ok : σ → α → Prop} {s : σ} {as bs : List α}

@[simp] theorem run_nil : run step s [] = s := rfl

@[simp] theorem run_cons (a : α) : run step s (a :: as) = run step (step s a) as := rfl

theorem run_append : run step s (as ++ bs) = run step (run step s as) bs := List.foldl_append

theorem along_append : Along step ok s (as ++ bs) ↔ Along step ok s as ∧ Along step ok (run step s as) bs := by
  induction as generalizing s with
  | nil => simp [Along]
  | cons a as ih => simp [Along, ih, and_assoc]

theorem along_of_forall (h : ∀ s a, ok s a) : Along step ok s as := by
  induction as generalizing s with
  | nil => trivial
  | cons a as ih => exact ⟨h s a, ih⟩

/-- What every allowed step preserves holds after a run. -/
theorem run_invariant {I : σ → Prop} (hstep : ∀ s a, I s → ok s a → I (step s a)) (hs : I s)
    (h : Along step ok s as) : I (run step s as) := by
  induction as generalizing s with
  | nil => exact hs
  | cons a as ih => exact ih (hstep s a hs h.1) h.2

/-- A reflexive and transitive relation between the states before and after every allowed step
is one between the states before and after a run. -/
theorem run_rel {I : σ → Prop} {r : σ → σ → Prop} [Std.Refl r] [IsTrans σ r]
    (hinv : ∀ s a, I s → ok s a → I (step s a)) (hstep : ∀ s a, I s → ok s a → r s (step s a))
    (hs : I s) (h : Along step ok s as) : r s (run step s as) := by
  induction as generalizing s with
  | nil => exact Std.Refl.refl s
  | cons a as ih => exact IsTrans.trans _ _ _ (hstep s a hs h.1) (ih (hinv s a hs h.1) h.2)

end Runs

section Answers

variable {σ τ α β : Type*}

/-- What a machine answers to these actions, one after the other. -/
def answers (step : σ → α → β × σ) : σ → List α → List β
  | _, [] => []
  | s, a :: as => (step s a).1 :: answers step (step s a).2 as

variable {step : σ → α → β × σ} {step' : τ → α → β × τ} {R : σ → τ → Prop} {ok : σ → α → Prop}

/-- The run of a machine that another one simulates: the same answers, and related states in the end. -/
theorem answers_eq
    (hstep : ∀ s t a, R s t → ok s a → (step s a).1 = (step' t a).1 ∧ R (step s a).2 (step' t a).2) {s : σ} {t : τ}
    {as : List α} (hR : R s t) (h : Along (fun s a => (step s a).2) ok s as) :
    answers step s as = answers step' t as ∧
      R (run (fun s a => (step s a).2) s as) (run (fun t a => (step' t a).2) t as) := by
  induction as generalizing s t with
  | nil => exact ⟨rfl, hR⟩
  | cons a as ih =>
    obtain ⟨hanswer, hR'⟩ := hstep s t a hR h.1
    obtain ⟨hrest, hend⟩ := ih hR' h.2
    refine ⟨?_, hend⟩
    rw [answers, answers, hanswer, hrest]

end Answers

end PhpSandbox.Lib
