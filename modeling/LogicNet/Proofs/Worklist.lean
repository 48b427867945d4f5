import LogicNet.Proofs.Computation
import LogicNet.Worklist
import Mathlib.Logic.Relation

/-! # Runs of a worklist

The states of a run are those that its steps lead to.  What every step keeps holds in all of them,
and in the last one when the run ends.  A run that ends does so whether its steps are bounded or not.
-/

namespace LogicNet.Worklist

variable {σ ι : Type}

/-- Working on the top item leads from one state and stack to the next. -/
inductive Step (step : σ → ι → Except Fault (σ × List ι)) : σ × List ι → σ × List ι → Prop where
  | work {s t : σ} {item : ι} {pushed : List ι} (rest : List ι) (ok : step s item = .ok (t, pushed)) :
    Step step (s, item :: rest) (t, pushed ++ rest)

/-- A run comes through the second state and stack after the first. -/
def Visits (step : σ → ι → Except Fault (σ × List ι)) : σ × List ι → σ × List ι → Prop :=
  Relation.ReflTransGen (Step step)

variable {step : σ → ι → Except Fault (σ × List ι)}

/-- A run that ends has come to its result. -/
theorem visits_of_drain {t : σ} :
    ∀ {fuel : Nat} {s : σ} {items : List ι}, drain step fuel s items = .ok t →
      Visits step (s, items) (t, []) := by
  intro fuel
  induction fuel with
  | zero =>
    intro s items ok
    cases items with
    | nil =>
      cases ok
      exact .refl
    | cons item rest => cases ok
  | succ fuel ih =>
    intro s items ok
    cases items with
    | nil =>
      cases ok
      exact .refl
    | cons item rest =>
      obtain ⟨⟨u, pushed⟩, worked, ok⟩ := bind_eq_ok.1 ok
      exact .head (.work rest worked) (ih ok)

/-- What every step keeps holds wherever a run comes. -/
theorem Visits.invariant {Inv : σ → List ι → Prop} {a b : σ × List ι} (visits : Visits step a b)
    (keeps : ∀ s item rest t pushed, Inv s (item :: rest) → step s item = .ok (t, pushed) →
      Inv t (pushed ++ rest)) (start : Inv a.1 a.2) : Inv b.1 b.2 := by
  induction visits with
  | refl => exact start
  | tail _ last ih =>
    obtain ⟨rest, ok⟩ := last
    exact keeps _ _ rest _ _ ih ok

/-- The loop without a bound on its steps: after a number of them the stack is empty, and none faults. -/
inductive Ends (step : σ → ι → Except Fault (σ × List ι)) : Nat → σ → List ι → σ → Prop where
  | done (s : σ) : Ends step 0 s [] s
  | work {k : Nat} {s t u : σ} {item : ι} {pushed rest : List ι} (ok : step s item = .ok (t, pushed))
    (ends : Ends step k t (pushed ++ rest) u) : Ends step (k + 1) s (item :: rest) u

/-- A bound is enough exactly if the loop has ended by then on its own. -/
theorem drain_eq_ok_iff {t : σ} {fuel : Nat} {s : σ} {items : List ι} :
    drain step fuel s items = .ok t ↔ ∃ k ≤ fuel, Ends step k s items t := by
  constructor
  · induction fuel generalizing s items with
    | zero =>
      intro ok
      cases items with
      | nil =>
        cases ok
        exact ⟨0, Nat.le_refl 0, .done _⟩
      | cons item rest => cases ok
    | succ fuel ih =>
      intro ok
      cases items with
      | nil =>
        cases ok
        exact ⟨0, Nat.zero_le _, .done _⟩
      | cons item rest =>
        obtain ⟨⟨u, pushed⟩, worked, ok⟩ := bind_eq_ok.1 ok
        obtain ⟨k, bound, ends⟩ := ih ok
        exact ⟨k + 1, Nat.succ_le_succ bound, .work worked ends⟩
  · rintro ⟨k, bound, ends⟩
    induction ends generalizing fuel with
    | done s => cases fuel <;> rfl
    | @work k s t u item pushed rest ok ends ih =>
      obtain ⟨fuel, rfl⟩ : ∃ more, fuel = more + 1 := Nat.exists_eq_succ_of_ne_zero (by omega)
      rw [drain, ok, ok_bind]
      exact ih (Nat.le_of_succ_le_succ bound)

end LogicNet.Worklist
