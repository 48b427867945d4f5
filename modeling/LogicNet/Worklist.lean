import LogicNet.Fault

/-! # Worklists

A worklist is a stack of items.  Working on the top item changes a state and may put further items
on the stack.  `drain_of_decreasing` says that the work ends, without a fault, when some measure of
state and stack goes down with every item.
-/

namespace LogicNet.Worklist

variable {σ ι : Type}

/-- Works until the stack is empty; `fuel` bounds the number of items worked on. -/
def drain (step : σ → ι → Except Fault (σ × List ι)) : Nat → σ → List ι → Except Fault σ
  | _, s, [] => .ok s
  | 0, _, _ :: _ => .error .diverges
  | fuel + 1, s, item :: rest => do
    let (s, pushed) ← step s item
    drain step fuel s (pushed ++ rest)

theorem drain_of_decreasing {step : σ → ι → Except Fault (σ × List ι)}
    {Inv : σ → List ι → Prop} (measure : σ → List ι → Nat)
    (hstep : ∀ s item rest, Inv s (item :: rest) → ∃ t pushed, step s item = .ok (t, pushed)
      ∧ Inv t (pushed ++ rest) ∧ measure t (pushed ++ rest) < measure s (item :: rest)) :
    ∀ fuel s items, Inv s items → measure s items ≤ fuel →
      ∃ t, drain step fuel s items = .ok t ∧ Inv t [] := by
  intro fuel
  induction fuel with
  | zero =>
    intro s items hinv hfuel
    cases items with
    | nil => exact ⟨s, rfl, hinv⟩
    | cons item rest =>
      obtain ⟨_, _, _, _, hlt⟩ := hstep s item rest hinv
      omega
  | succ fuel ih =>
    intro s items hinv hfuel
    cases items with
    | nil => exact ⟨s, rfl, hinv⟩
    | cons item rest =>
      obtain ⟨t, pushed, hok, hinv', hlt⟩ := hstep s item rest hinv
      obtain ⟨u, hu, huinv⟩ := ih t (pushed ++ rest) hinv' (by omega)
      exact ⟨u, by simp [drain, hok, hu, bind, Except.bind], huinv⟩

end LogicNet.Worklist
