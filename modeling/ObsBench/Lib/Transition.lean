import Mathlib.Data.Nat.Notation
import Mathlib.Tactic.TypeStar

/-!
# Runs of a labelled transition system

A run from a fixed start is recorded by the labels of its steps, oldest first, so that an
invariant may speak about the history as well as the state.

* **`Run.invariant`**: what holds at the start and is kept by a step holds after every run.
* **`Run.trans`**: a run may be continued by another one.
* **`Run.of_prefix`**: what happened first is a run.
* **`Run.length_le`**: a quantity that every step raises bounds the length of a run.
-/

namespace Transition

variable {σ ε : Type*}

/-- `Run step s₀ events s`: the steps labelled `events` lead from `s₀` to `s`. -/
inductive Run (step : σ → ε → σ → Prop) (s₀ : σ) : List ε → σ → Prop where
  | start : Run step s₀ [] s₀
  | step {events : List ε} {s s' : σ} {e : ε} (run : Run step s₀ events s) (h : step s e s') :
      Run step s₀ (events ++ [e]) s'

/-- **Invariants of the history and the state.** -/
theorem Run.invariant {step : σ → ε → σ → Prop} {s₀ : σ} (Inv : List ε → σ → Prop)
    (init : Inv [] s₀)
    (keep : ∀ events s e s', Inv events s → step s e s' → Inv (events ++ [e]) s')
    {events : List ε} {s : σ} (h : Run step s₀ events s) : Inv events s := by
  induction h with
  | start => exact init
  | step _ h ih => exact keep _ _ _ _ ih h

theorem Run.trans {step : σ → ε → σ → Prop} {s₀ s₁ s₂ : σ} {front back : List ε}
    (h : Run step s₀ front s₁) (hnext : Run step s₁ back s₂) :
    Run step s₀ (front ++ back) s₂ := by
  induction hnext with
  | start => rwa [List.append_nil]
  | step _ hstep ih =>
    rw [← List.append_assoc]
    exact ih.step hstep

theorem Run.single {step : σ → ε → σ → Prop} {s₀ s : σ} {e : ε} (h : step s₀ e s) :
    Run step s₀ [e] s :=
  Run.start.step h

theorem Run.last {step : σ → ε → σ → Prop} {s₀ s : σ} {events : List ε} {e : ε}
    (h : Run step s₀ (events ++ [e]) s) : ∃ q, Run step s₀ events q ∧ step q e s := by
  generalize hall : events ++ [e] = all at h
  cases h with
  | start => exact absurd hall (by simp)
  | @step before q _ e' hrun hstep =>
    obtain ⟨rfl, rfl⟩ := List.concat_inj.mp (by simpa using hall)
    exact ⟨q, hrun, hstep⟩

theorem Run.of_prefix {step : σ → ε → σ → Prop} {s₀ s : σ} {events before : List ε}
    (h : Run step s₀ events s) (hbefore : before <+: events) : ∃ q, Run step s₀ before q := by
  induction h with
  | start =>
    rw [List.prefix_nil] at hbefore
    exact ⟨s₀, hbefore ▸ .start⟩
  | @step events q s' e hrun hstep ih =>
    rcases List.prefix_concat_iff.mp hbefore with rfl | hearlier
    · exact ⟨s', hrun.step hstep⟩
    · exact ih hearlier

/-- **Bounded runs.** Under an invariant, a quantity that grows with every step. -/
theorem Run.length_le {step : σ → ε → σ → Prop} {s₀ : σ} (Inv : σ → Prop) (spent : σ → ℕ)
    (init : Inv s₀) (keep : ∀ s e s', Inv s → step s e s' → Inv s' ∧ spent s < spent s')
    {events : List ε} {s : σ} (h : Run step s₀ events s) :
    Inv s ∧ events.length + spent s₀ ≤ spent s := by
  induction h with
  | start => exact ⟨init, by simp⟩
  | step _ hstep ih =>
    obtain ⟨hinv, hlength⟩ := ih
    obtain ⟨hnext, hgrows⟩ := keep _ _ _ hinv hstep
    refine ⟨hnext, ?_⟩
    rw [List.length_append, List.length_singleton]
    omega

end Transition
