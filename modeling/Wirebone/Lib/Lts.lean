/-
  File:      Wirebone/Lib/Lts.lean
  Subject:   LABELLED RUNS AND THEIR INVARIANTS.

  A machine is a relation `R s e s'` (from `s`, by event `e`, to `s'`). Its runs record their
  events, oldest first, so that a statement may count them.

  * `Run R s₀ es s` -- from `s₀`, by the events `es`, to `s`;
  * `Run.inv` -- what the start has and every step keeps holds at the end of every run; `Run.rel`
    is the same for a reflexive and transitive relation between two states of a run;
  * `Run.progress` -- a task is done when it has taken as many steps of its own as it had to go;
  * `Guarded R ok` -- the steps of `R` whose state and event meet `ok`: the runs of it are the
    runs whose steps all meet the condition;
  * `exec` -- the run of a machine given by a partial step function, for concrete runs;
    `run_of_exec` and `guarded_of_exec` turn a computed run into a `Run`.
-/
import Mathlib.Data.List.Basic

namespace Lts

variable {σ ε : Type*}

/-- The runs of the machine `R` from `s₀`, with their events, oldest first. -/
inductive Run (R : σ → ε → σ → Prop) (s₀ : σ) : List ε → σ → Prop where
  | start : Run R s₀ [] s₀
  | step {es : List ε} {s s' : σ} {e : ε} (h : Run R s₀ es s) (hs : R s e s') :
      Run R s₀ (es ++ [e]) s'

section Runs

variable {R R' : σ → ε → σ → Prop} {s₀ s s' : σ} {es es' : List ε}

/-- **The invariant rule**, for a property of the state and of the events so far. -/
theorem Run.inv {I : List ε → σ → Prop} (h0 : I [] s₀)
    (hstep : ∀ es s e s', I es s → R s e s' → I (es ++ [e]) s') (h : Run R s₀ es s) : I es s := by
  induction h with
  | start => exact h0
  | step _ hs ih => exact hstep _ _ _ _ ih hs

/-- The rule for a property of the state alone. -/
theorem Run.inv_state {I : σ → Prop} (h0 : I s₀) (hstep : ∀ s e s', I s → R s e s' → I s')
    (h : Run R s₀ es s) : I s :=
  Run.inv (I := fun _ s => I s) h0 (fun _ s e s' => hstep s e s') h

/-- A reflexive and transitive relation that every step satisfies relates the ends of a run. -/
theorem Run.rel {r : σ → σ → Prop} (hrefl : ∀ s, r s s)
    (htrans : ∀ a b c, r a b → r b c → r a c) (hstep : ∀ s e s', R s e s' → r s s')
    (h : Run R s₀ es s) : r s₀ s :=
  Run.inv_state (hrefl _) (fun _ _ _ ih hs => htrans _ _ _ ih (hstep _ _ _ hs)) h

/-- **The progress rule**: a task that each of its own steps brings nearer to its end, and that loses
    nothing by the steps of others, is done once it has taken as many steps as it had to go. -/
theorem Run.progress {n : ℕ} (own : ε → Bool) (Todo : ℕ → σ → Prop) (Done : σ → Prop) (h0 : Todo n s₀)
    (hown : ∀ k s e s', Todo k s → R s e s' → own e = true → Done s' ∨ ∃ j < k, Todo j s')
    (hother : ∀ k s e s', Todo k s → R s e s' → own e = false → Todo k s')
    (hdone : ∀ s e s', Done s → R s e s' → Done s') (h : Run R s₀ es s) :
    Done s ∨ ∃ k, k + es.countP own ≤ n ∧ Todo k s := by
  refine Run.inv (I := fun es s => Done s ∨ ∃ k, k + es.countP own ≤ n ∧ Todo k s)
    (.inr ⟨n, Nat.le_refl n, h0⟩) ?_ h
  rintro es s e s' (hd | ⟨k, hk, ht⟩) hs
  · exact .inl (hdone s e s' hd hs)
  · cases he : own e with
    | true =>
      rcases hown k s e s' ht hs he with hd | ⟨j, hj, ht'⟩
      · exact .inl hd
      · refine .inr ⟨j, ?_, ht'⟩
        rw [List.countP_append, List.countP_singleton, if_pos he]
        omega
    | false =>
      refine .inr ⟨k, ?_, hother k s e s' ht hs he⟩
      rw [List.countP_append, List.countP_singleton, if_neg (by rw [he]; exact Bool.false_ne_true)]
      exact hk

theorem Run.mono (hR : ∀ s e s', R s e s' → R' s e s') (h : Run R s₀ es s) : Run R' s₀ es s := by
  induction h with
  | start => exact .start
  | step _ hs ih => exact .step ih (hR _ _ _ hs)

theorem Run.trans (h : Run R s₀ es s) (h' : Run R s es' s') : Run R s₀ (es ++ es') s' := by
  induction h' with
  | start => simpa using h
  | step _ hs ih => simpa [List.append_assoc] using Run.step ih hs

end Runs

/-- The steps of `R` taken where the condition `ok` holds. -/
def Guarded (R : σ → ε → σ → Prop) (ok : σ → ε → Prop) (s : σ) (e : ε) (s' : σ) : Prop :=
  ok s e ∧ R s e s'

/-- The relation of a partial step function. -/
def Of (step : σ → ε → Option σ) (s : σ) (e : ε) (s' : σ) : Prop := step s e = some s'

/-- The state a partial step function reaches on a list of events. -/
def exec (step : σ → ε → Option σ) : σ → List ε → Option σ
  | s, [] => some s
  | s, e :: es => (step s e).bind fun s' => exec step s' es

/-- A computed run is a run. -/
theorem run_of_exec {step : σ → ε → Option σ} {s s' : σ} {es : List ε}
    (h : exec step s es = some s') : Run (Of step) s es s' := by
  induction es generalizing s with
  | nil =>
    cases h
    exact .start
  | cons e es ih =>
    obtain ⟨s₁, h1, h2⟩ := Option.bind_eq_some_iff.mp h
    have hone : Run (Of step) s ([] ++ [e]) s₁ := Run.step .start h1
    exact hone.trans (ih h2)

/-- The step function where a computed condition holds. -/
def checked (step : σ → ε → Option σ) (ok : σ → ε → Bool) (s : σ) (e : ε) : Option σ :=
  if ok s e then step s e else none

/-- A computed run whose steps meet the condition. -/
theorem guarded_of_exec {step : σ → ε → Option σ} {ok : σ → ε → Bool} {s s' : σ} {es : List ε}
    (h : exec (checked step ok) s es = some s') :
    Run (Guarded (Of step) fun s e => ok s e = true) s es s' := by
  refine (run_of_exec h).mono ?_
  intro s e s' hs
  unfold Of checked at hs
  by_cases hok : ok s e = true
  · rw [if_pos hok] at hs
    exact ⟨hok, hs⟩
  · rw [if_neg hok] at hs
    cases hs

end Lts
