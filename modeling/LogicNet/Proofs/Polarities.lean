import LogicNet.Proofs.Inversion
import LogicNet.Proofs.Valuation

/-! # Changes of polarities

Inversions change polarities only.  However many there were, the gates that were inverted an odd number of
times determine all polarities, and just these gates have their values complemented.
-/

namespace LogicNet.Network

variable {net net' net'' : Network} {f : Nat → Bool} {n p : Nat} {s : Signal}

/-- What becomes of the fanins of a node when the gates of `f` are inverted; a dead node keeps its own. -/
def repolarize (net : Network) (f : Nat → Bool) (p : Nat) (s : Signal) : Signal :=
  if net.isLive p then s.complementIf (f p ^^ f s.node) else s

@[simp] theorem repolarize_node (net : Network) (f : Nat → Bool) (p : Nat) (s : Signal) :
    (net.repolarize f p s).node = s.node := by
  unfold repolarize
  split <;> rfl

/-- When the gates of `f` have the complements of their values, the fanins of a node are as if only the
node itself was inverted. -/
theorem map_value_repolarize (live : net.isLive n = true) (v : Nat → Bool) (l : List Signal) :
    (l.map (net.repolarize f n)).map (Signal.value fun m => v m ^^ f m)
      = (l.map (·.complementIf (f n))).map (Signal.value v) := by
  rw [List.map_map, List.map_map]
  refine List.map_congr_left fun s _ => ?_
  simp only [Function.comp_apply, repolarize, live, if_true, Signal.value, Signal.complementIf]
  cases v s.node <;> cases f n <;> cases f s.node <;> cases s.complemented <;> rfl

/-- One more inversion of a gate. -/
def toggled (f : Nat → Bool) (n : Nat) (m : Nat) : Bool := f m ^^ decide (m = n)

@[simp] theorem toggled_toggled (f : Nat → Bool) (n : Nat) : toggled (toggled f n) n = f := by
  funext m
  simp [toggled]

/-- The second network is the first one with the live gates of `f` inverted. -/
structure Repolarized (net : Network) (f : Nat → Bool) (net' : Network) : Prop where
  family : net'.family = net.family
  inputs : net'.inputs = net.inputs
  functions : net'.functions = net.functions
  kind? : ∀ p, net'.kind? p = (net.kind? p).map (NodeKind.mapFanins (net.repolarize f p))
  outputs : net'.outputs = net.outputs.map fun s => s.complementIf (f s.node)
  live : net'.isLive = net.isLive
  fanout : net'.fanout = net.fanout
  gates : ∀ n, f n = true → net.isLive n = true ∧ net.IsGate n
  consed : net'.HashConsed

theorem NodeKind.mapFanins_mapFanins (f g : Signal → Signal) (kind : NodeKind) :
    (kind.mapFanins f).mapFanins g = kind.mapFanins (g ∘ f) := by
  cases kind <;> simp [NodeKind.mapFanins]

theorem flipped_eq (n : Nat) (s : Signal) : flipped n s = s.complementIf (decide (s.node = n)) := by
  by_cases h : s.node = n <;> simp [flipped, h]

/-- Inverting a live gate on top of others. -/
theorem mirror_repolarize (live : net.isLive n = true) (same : net'.isLive = net.isLive) (p : Nat)
    (s : Signal) :
    net'.mirror n p (net.repolarize f p s) = net.repolarize (toggled f n) p s := by
  by_cases hp : net.isLive p = true
  · have own (u : Signal) : (if n = p then u.complement else u) = u.complementIf (decide (p = n)) := by
      by_cases h : p = n
      · simp [h]
      · simp [h, Ne.symm h]
    have reference (b : Bool) : flipped n (s.complementIf b) = (s.complementIf b).complementIf
        (decide (s.node = n)) := flipped_eq n _
    simp only [mirror, repolarize, same, hp, if_true, own, Signal.complementIf_complementIf, reference,
      toggled]
    congr 1
    cases f p <;> cases f s.node <;> cases decide (p = n) <;> cases decide (s.node = n) <;> rfl
  · have hnp : n ≠ p := fun h => hp (h ▸ live)
    simp [mirror, repolarize, same, hp, hnp]

namespace Repolarized

theorem refl (consed : net.HashConsed) : Repolarized net (fun _ => false) net where
  family := rfl
  inputs := rfl
  functions := rfl
  kind? p := by
    have same : net.repolarize (fun _ => false) p = id := by
      funext s
      simp [repolarize]
    rw [same]
    cases net.kind? p with
    | none => rfl
    | some kind => cases kind <;> simp [NodeKind.mapFanins]
  outputs := by simp
  live := rfl
  fanout := rfl
  gates n h := by cases h
  consed := consed

/-- Inverting a gate once more. -/
theorem inverted (h : Repolarized net f net') (live : net.isLive n = true) (gate : net.IsGate n)
    (inverted : Inverted net' n net'') : Repolarized net (toggled f n) net'' where
  family := inverted.graph.family.trans h.family
  inputs := inverted.graph.inputs.trans h.inputs
  functions := inverted.graph.functions.trans h.functions
  kind? p := by
    have mirrored : net'.mirror n p ∘ net.repolarize f p = net.repolarize (toggled f n) p :=
      funext fun s => mirror_repolarize live h.live p s
    rw [inverted.graph.kind?, kind?_mirrored, h.kind?, Option.map_map, ← mirrored]
    congr 1
    exact funext fun kind => NodeKind.mapFanins_mapFanins _ _ kind
  outputs := by
    rw [inverted.graph.outputs]
    change net'.outputs.map (flipped n) = _
    rw [h.outputs, List.map_map]
    refine List.map_congr_left fun s _ => ?_
    simp only [Function.comp_apply, flipped_eq, Signal.complementIf_node,
      Signal.complementIf_complementIf]
    rfl
  live := inverted.live.trans h.live
  fanout := inverted.fanout.trans h.fanout
  gates m hm := by
    by_cases hmn : m = n
    · exact hmn ▸ ⟨live, gate⟩
    · refine h.gates m ?_
      simpa [toggled, hmn] using hm
  consed := inverted.consed

variable (h : Repolarized net f net')

include h

theorem isGate : net'.IsGate n ↔ net.IsGate n := by
  unfold IsGate
  rw [h.kind?]
  rcases net.kind? n with _ | (_ | _ | _) <;> simp [NodeKind.mapFanins]

theorem slots (p : Nat) : net'.slots p = (net.slots p).map (net.repolarize f p) := by
  unfold Network.slots
  rw [h.kind?]
  rcases net.kind? p with _ | (_ | _ | _) <;> rfl

theorem size : net'.size = net.size := by
  refine Nat.le_antisymm ?_ ?_
  · have past : net.kind? net.size = none := kind?_eq_none.2 (Nat.le_refl _)
    exact kind?_eq_none.1 (by rw [h.kind?, past]; rfl)
  · have past : net'.kind? net'.size = none := kind?_eq_none.2 (Nat.le_refl _)
    rw [h.kind?, Option.map_eq_none_iff] at past
    exact kind?_eq_none.1 past

theorem not_of_not_isGate (hn : ¬ net.IsGate n) : f n = false :=
  Bool.eq_false_iff.2 fun hf => hn (h.gates n hf).2

theorem liveGates : net'.liveGates = net.liveGates := by
  unfold Network.liveGates
  rw [h.size]
  refine List.filter_congr fun n _ => ?_
  rw [Bool.eq_iff_iff, isLiveGate_iff, isLiveGate_iff, h.live, h.isGate]

theorem parents (n : Nat) : net'.parents n = net.parents n := by
  rw [parents_eq, parents_eq, h.liveGates]
  refine List.filter_congr fun p _ => ?_
  rw [h.slots, List.any_map]
  simp only [Function.comp_def, repolarize_node]

/-- The gates that were inverted have the complements of their values, and nothing else has changed. -/
theorem eval_eq (consed : net.HashConsed) (family : net.family = .mig) (x : Nat → Bool)
    (live : net.isLive n = true) : net'.eval x n = (net.eval x n ^^ f n) := by
  have wf := h.consed.toWellFormed
  have solves : net'.Satisfies x (fun n => net.eval x n ^^ f n) (net'.isLive · = true) := by
    intro n live
    rw [h.live] at live
    change (net.eval x n ^^ f n) = _
    rw [eval_eq_equation consed.acyclic consed.closed, equation, equation, h.kind?, h.functions,
      h.inputs]
    rcases hkind : net.kind? n with _ | (value | _ | ⟨g, l⟩)
    · exact absurd (lt_size_of_isLive live) (Nat.not_lt.2 (kind?_eq_none.1 hkind))
    · have hn : ¬ net.IsGate n := by simp [IsGate, hkind]
      rw [h.not_of_not_isGate hn]
      exact Bool.xor_false _
    · have hn : ¬ net.IsGate n := by simp [IsGate, hkind]
      rw [h.not_of_not_isGate hn]
      exact Bool.xor_false _
    · obtain rfl := consed.eq_maj family hkind
      have alike : Canonical.Alike net.functions .maj (f n) (l.map (·.complementIf (f n))) l :=
        List.Perm.refl _
      have arity : net.functions.arity? .maj = some (l.map (·.complementIf (f n))).length := by
        rw [List.length_map]
        exact (consed.fits n .maj l hkind).arity
      have inverted := Canonical.value_of_alike consed.functions arity alike (net.eval x)
      simp only [Option.map_some, NodeKind.mapFanins, map_value_repolarize live, inverted]
  refine Satisfies.unique wf.acyclic wf.closed ?_
    (fun n _ => eval_eq_equation wf.acyclic wf.closed x n) solves n (h.live ▸ live)
  rintro m n hn ⟨s, hs, rfl⟩
  exact h.consed.live_fanins n hn s hs

theorem outputValues_eq (consed : net.HashConsed) (family : net.family = .mig) (x : Nat → Bool) :
    net'.outputValues x = net.outputValues x := by
  unfold outputValues
  rw [h.outputs, List.map_map]
  refine List.map_congr_left fun s hs => ?_
  simp only [Function.comp_apply, Signal.value, Signal.complementIf,
    h.eval_eq consed family x (consed.live_outputs s hs)]
  cases net.eval x s.node <;> cases f s.node <;> cases s.complemented <;> rfl

end Repolarized

end LogicNet.Network
