import LogicNet.Proofs.Lanes
import LogicNet.Proofs.Postorder
import LogicNet.Proofs.Valuation
import LogicNet.Simulation.Run

/-! # Simulation

Evaluating the nodes in topological order gives every node in the cones of the outputs its value on every
lane, and so the outputs theirs.  A pattern has one lane, which is one assignment of the inputs.
-/

namespace LogicNet

open LaneValue

/-- A stimulus supplies values of `w` lanes, on lane `k` those of the assignment `x k`. -/
structure Stimulus.Supplies {V : Type} [LaneValue V] (stimulus : Stimulus V) (w : Nat)
    (x : Nat → Nat → Bool) : Prop where
  constant : ∀ value, ∃ v, stimulus.constant value = .ok v ∧ Reads v w fun _ => value
  input : ∀ i < stimulus.numInputs, ∃ v, stimulus.input i = .ok v ∧ Reads v w fun k => x k i

namespace Network

variable {V : Type} [LaneValue V] {net : Network} {n w : Nat}

section evaluate

variable [LawfulLanes V] {functions : FunctionCache} {fanins : List Signal} {values : List V}
  {val : Nat → Nat → Bool}

/-- The operands of a gate have the values of its fanins. -/
theorem readAll_operands (read : ReadAll fanins values w fun s k => val k s.node) :
    ReadAll fanins (fanins.zipWith (fun s v => complementIf v s.complemented) values) w
      fun s k => s.value (val k) := by
  induction read with
  | nil => exact .nil
  | cons hv _ ih => exact .cons (hv.complementIf _) ih

/-- A gate function is evaluated to its value on every lane, whatever its operands are labelled with. -/
theorem evaluate_of_operands {α : Type} {l : List α} {label : α → Nat → Bool} {g : GateFunction}
    (arity : functions.arity? g = some l.length) (nonempty : l ≠ [])
    (operands : ReadAll l (fanins.zipWith (fun s v => complementIf v s.complemented) values) w label) :
    ∃ v, evaluate functions g fanins values = .ok v ∧
      Reads v w fun k => g.value functions (l.map (label · k)) := by
  unfold evaluate
  generalize fanins.zipWith (fun s v => complementIf v s.complemented) values = ops at operands
  match g, l, arity with
  | .and, [a, b], _ =>
    obtain _ | ⟨hu, _ | ⟨hv, _ | _⟩⟩ := operands
    obtain ⟨c, run, hc⟩ := LawfulLanes.and hu hv
    exact ⟨c, run, hc.congr fun k => by simp [GateFunction.value]⟩
  | .maj, [a, b, c], _ =>
    obtain _ | ⟨hu, _ | ⟨hv, _ | ⟨ht, _ | _⟩⟩⟩ := operands
    obtain ⟨m, run, hm⟩ := hu.maj hv ht
    refine ⟨m, run, hm.congr fun k => ?_⟩
    simp only [List.map_cons, List.map_nil, GateFunction.value]
    cases label a k <;> cases label b k <;> cases label c k <;> rfl
  | .table f, a :: rest, arity =>
    obtain ⟨t, ht, hvars⟩ := FunctionCache.arity?_table.1 arity
    obtain ⟨u, _, _, _, rfl⟩ := List.forall₂_cons_left_iff.1 operands
    obtain ⟨v, run, hv⟩ := operands.lookup hvars
    refine ⟨v, by simp only [ht, ok_bind]; exact run, hv.congr fun k => ?_⟩
    simp only [GateFunction.value, ht]
  | .table f, [], _ => exact absurd rfl nonempty
  | .and, [], h | .and, [_], h | .and, _ :: _ :: _ :: _, h => simp [FunctionCache.arity?] at h
  | .maj, [], h | .maj, [_], h | .maj, [_, _], h | .maj, _ :: _ :: _ :: _ :: _, h =>
    simp [FunctionCache.arity?] at h

/-- On values of the fanin nodes. -/
theorem evaluate_eq_ok {g : GateFunction} (arity : functions.arity? g = some fanins.length)
    (nonempty : fanins ≠ []) (read : ReadAll fanins values w fun s k => val k s.node) :
    ∃ v, evaluate functions g fanins values = .ok v ∧
      Reads v w fun k => g.value functions (fanins.map (Signal.value (val k))) :=
  evaluate_of_operands arity nonempty (readAll_operands read)

end evaluate

section gate

variable [LawfulLanes V] {g : GateFunction} {fanins : List Signal} {values : List V}

omit [LawfulLanes V] in
/-- Values with as many lanes fit a gate with as many fanins. -/
theorem checkFaninValues_eq_ok (hkind : net.kind? n = some (.gate g fanins))
    (length : values.length = fanins.length) (width : ∀ v ∈ values, laneCount v = w) :
    net.checkFaninValues n values = .ok () := by
  unfold checkFaninValues
  rw [checkGate_eq_ok hkind, ok_bind, if_neg (not_not.2 length)]
  cases values with
  | nil => rfl
  | cons first rest =>
    obtain ⟨hfirst, others⟩ := List.forall_mem_cons.1 width
    exact forM_eq_ok.2 fun v hv => if_neg (not_not.2 ((others v hv).trans hfirst.symm))

omit [LawfulLanes V] in
/-- Values that fit are given to the function of the gate. -/
theorem compute_eq_evaluate (hkind : net.kind? n = some (.gate g fanins))
    (length : values.length = fanins.length) (width : ∀ v ∈ values, laneCount v = w) :
    net.compute n values = liftM (evaluate net.functions g fanins values) := by
  obtain ⟨nd, hnd, hnode⟩ := kind?_eq_some.1 hkind
  unfold compute
  rw [checkFaninValues_eq_ok hkind length width, lift_ok_refusal, ok_bind, node_eq_ok.2 hnd, lift_ok_fault,
    ok_bind, hnode]

theorem WellFormed.compute_eq_ok (wf : net.WellFormed) (hkind : net.kind? n = some (.gate g fanins))
    {val : Nat → Nat → Bool} (read : ReadAll fanins values w fun s k => val k s.node) :
    ∃ v, net.compute n values = .ok v ∧
      Reads v w fun k => g.value net.functions (fanins.map (Signal.value (val k))) := by
  have fits := wf.fits n g fanins hkind
  obtain ⟨v, run, hv⟩ := evaluate_eq_ok fits.arity fits.nonempty read
  refine ⟨v, ?_, hv⟩
  rw [compute_eq_evaluate hkind read.length_eq.symm read.laneCount_eq, run]
  rfl

end gate

section nodes

theorem constantValue_of_kind? {value : Bool} (h : net.kind? n = some (.constant value)) :
    net.constantValue n = value := by
  obtain ⟨⟨kind, _, _, _, _⟩, hnd, rfl⟩ := kind?_eq_some.1 h
  simp [constantValue, hnd]

theorem WellFormed.inputIndex?_of_input (wf : net.WellFormed) (h : net.kind? n = some .input) :
    net.inputIndex? n = .ok (some (net.inputs.idxOf n)) := by
  obtain ⟨nd, hnd, hkind⟩ := kind?_eq_some.1 h
  have isInput : nd.isInput = true := by simp [Node.isInput, hkind]
  have found : net.inputs.idxOf? n = some (net.inputs.idxOf n) := by
    rw [List.idxOf_eq_getD_idxOf?]
    cases hfound : net.inputs.idxOf? n with
    | some i => rfl
    | none => exact absurd ((wf.input_iff n).1 h) (List.idxOf?_eq_none_iff.1 hfound)
  simp only [inputIndex?, node_eq_ok.2 hnd, ok_bind, isInput, if_true, found]
  rfl

theorem inputIndex?_of_gate {g : GateFunction} {fanins : List Signal}
    (h : net.kind? n = some (.gate g fanins)) : net.inputIndex? n = .ok none := by
  obtain ⟨nd, hnd, hkind⟩ := kind?_eq_some.1 h
  have isInput : nd.isInput = false := by simp [Node.isInput, hkind]
  simp only [inputIndex?, node_eq_ok.2 hnd, ok_bind, isInput]
  rfl

theorem WellFormed.idxOf_lt (wf : net.WellFormed) (h : net.kind? n = some .input) :
    net.inputs.idxOf n < net.numInputs :=
  List.idxOf_lt_length_iff.2 ((wf.input_iff n).1 h)

theorem simulateNode_of_constant {stimulus : Stimulus V} {value : Bool}
    (h : net.kind? n = some (.constant value)) (values : Array (Option V)) :
    net.simulateNode stimulus values n
      = (fun v => values.setIfInBounds n (some v)) <$> liftM (stimulus.constant value) := by
  unfold simulateNode
  simp only [isConstant_eq, h, Option.any_some, if_true, constantValue_of_kind? h]
  cases stimulus.constant value <;> rfl

theorem WellFormed.simulateNode_of_input {stimulus : Stimulus V} (wf : net.WellFormed)
    (h : net.kind? n = some .input) (values : Array (Option V)) :
    net.simulateNode stimulus values n
      = (fun v => values.setIfInBounds n (some v)) <$> liftM (stimulus.input (net.inputs.idxOf n)) := by
  unfold simulateNode
  simp only [isConstant_eq, h, Option.any_some, Bool.false_eq_true, if_false, wf.inputIndex?_of_input h,
    lift_ok_fault, ok_bind]
  cases stimulus.input (net.inputs.idxOf n) <;> rfl

theorem simulateNodes_eq_foldlM {stimulus : Stimulus V} {order : List Nat}
    (count : stimulus.numInputs = net.numInputs) (listed : net.topologicalOrder = .ok order) :
    net.simulateNodes stimulus
      = order.foldlM (net.simulateNode stimulus) (Array.replicate net.size none) := by
  simp only [simulateNodes, count, ne_eq, not_true_eq_false, if_false, listed, lift_ok_fault, ok_bind]

end nodes

/-- The values after some nodes have been evaluated: those nodes have theirs on every lane. -/
structure Evaluated (net : Network) (w : Nat) (x : Nat → Nat → Bool) (done : Nat → Prop)
    (values : Array (Option V)) : Prop where
  size : values.size = net.size
  known : ∀ n < net.size, done n → ∃ v, values[n]? = some (some v) ∧ Reads v w fun k => net.eval (x k) n
  unknown : ∀ n < net.size, ¬ done n → values[n]? = some none

namespace Evaluated

variable {x : Nat → Nat → Bool} {done : Nat → Prop} {values : Array (Option V)} {v : V}

theorem start (net : Network) (w : Nat) (x : Nat → Nat → Bool) :
    Evaluated (V := V) net w x (fun _ => False) (Array.replicate net.size none) :=
  ⟨Array.size_replicate, fun _ _ none => none.elim, fun n hn _ => by simp [hn]⟩

theorem push (h : Evaluated net w x done values) (hv : Reads v w fun k => net.eval (x k) n) :
    Evaluated net w x (fun m => m = n ∨ done m) (values.setIfInBounds n (some v)) := by
  refine ⟨by rw [Array.size_setIfInBounds, h.size], fun m hm known => ?_, fun m hm unknown => ?_⟩
  · rw [Array.getElem?_setIfInBounds]
    split
    · next same =>
      subst same
      exact ⟨v, if_pos (h.size ▸ hm), hv⟩
    · next ne => exact h.known m hm (known.resolve_left (Ne.symm ne))
  · obtain ⟨ne, unknown⟩ := not_or.1 unknown
    rw [Array.getElem?_setIfInBounds, if_neg (Ne.symm ne)]
    exact h.unknown m hm unknown

theorem congr {done' : Nat → Prop} (h : Evaluated net w x done values) (same : ∀ n, done n ↔ done' n) :
    Evaluated net w x done' values :=
  ⟨h.size, fun n hn known => h.known n hn ((same n).2 known),
    fun n hn unknown => h.unknown n hn fun known => unknown ((same n).1 known)⟩

theorem knownValue_eq_ok (h : Evaluated net w x done values) (hn : n < net.size) (known : done n) :
    ∃ v, knownValue values n = .ok v ∧ Reads v w fun k => net.eval (x k) n := by
  obtain ⟨v, hget, hv⟩ := h.known n hn known
  exact ⟨v, by simp [knownValue, Array.getD_eq_getD_getElem?, hget], hv⟩

end Evaluated

section simulate

variable [LawfulLanes V] {stimulus : Stimulus V} {x : Nat → Nat → Bool}

/-- One node at a time. -/
theorem WellFormed.simulateNode_eq_ok (wf : net.WellFormed) (supplies : stimulus.Supplies w x)
    (count : stimulus.numInputs = net.numInputs) {done : Nat → Prop} {values : Array (Option V)}
    (evaluated : Evaluated net w x done values) (hn : n < net.size)
    (fanins : ∀ m, net.IsFanin m n → done m) : ∃ v, net.simulateNode stimulus values n
      = .ok (values.setIfInBounds n (some v)) ∧ Reads v w fun k => net.eval (x k) n := by
  have equation (k : Nat) := eval_eq_equation wf.acyclic wf.closed (x k) n
  simp only [equation, Network.equation]
  rcases hkind : net.kind? n with _ | (value | _ | ⟨g, l⟩)
  · exact absurd hn (Nat.not_lt.2 (kind?_eq_none.1 hkind))
  · obtain ⟨v, run, hv⟩ := supplies.constant value
    exact ⟨v, by rw [simulateNode_of_constant hkind, run]; rfl, hv⟩
  · obtain ⟨v, run, hv⟩ := supplies.input (net.inputs.idxOf n) (count ▸ wf.idxOf_lt hkind)
    exact ⟨v, by rw [wf.simulateNode_of_input hkind, run]; rfl, hv⟩
  · obtain ⟨operands, read, labels⟩ : ∃ operands, l.mapM (fun s => knownValue values s.node) = .ok operands ∧
        ReadAll l operands w fun s k => net.eval (x k) s.node := by
      refine exists_mapM_eq_ok fun s hs => ?_
      have hfanin : net.IsFanin s.node n := ⟨s, (slots_of_kind? hkind).symm ▸ hs, rfl⟩
      exact evaluated.knownValue_eq_ok (wf.closed _ _ hfanin) (fanins _ hfanin)
    obtain ⟨v, run, hv⟩ := wf.compute_eq_ok hkind labels
    refine ⟨v, ?_, hv⟩
    unfold simulateNode
    simp only [isConstant_eq, hkind, Option.any_some, Bool.false_eq_true, if_false,
      inputIndex?_of_gate hkind, fanins_of_lt hn, slots_of_kind? hkind, lift_ok_fault, ok_bind, read, run]
    rfl

/-- The nodes in the cones of the outputs get their values, and no other node gets one. -/
theorem WellFormed.simulateNodes_eq_ok (wf : net.WellFormed) (supplies : stimulus.Supplies w x)
    (count : stimulus.numInputs = net.numInputs) : ∃ values, net.simulateNodes stimulus = .ok values ∧
      Evaluated net w x net.InOutputCone values := by
  obtain ⟨seen, order, ordered, hseen⟩ := wf.exists_topologicalOrder
  have inRange : ∀ n ∈ seen, n < net.size := fun n hn => wf.lt_size_of_inOutputCone ((hseen n).1 hn)
  have folded : ∃ values, seen.reverse.foldlM (net.simulateNode stimulus)
      (Array.replicate net.size none) = .ok values ∧ Evaluated net w x (· ∈ seen) values := by
    clear hseen order
    -- The list has the latest node first, so its head is the last one that the fold comes to.
    induction ordered with
    | nil => exact ⟨_, rfl, (Evaluated.start net w x).congr fun n => by simp⟩
    | @cons n done fanins _ _ ih =>
      obtain ⟨hn, others⟩ := List.forall_mem_cons.1 inRange
      obtain ⟨values, ok, evaluated⟩ := ih others
      obtain ⟨v, run, hv⟩ := wf.simulateNode_eq_ok supplies count evaluated hn fanins
      refine ⟨_, ?_, (evaluated.push hv).congr fun m => List.mem_cons.symm⟩
      rw [List.reverse_cons, List.foldlM_append, ok, ok_bind, List.foldlM_cons, run]
      rfl
  obtain ⟨values, ok, evaluated⟩ := folded
  exact ⟨values, (simulateNodes_eq_foldlM count order).trans ok, evaluated.congr hseen⟩

/-- The outputs get their values on every lane. -/
theorem WellFormed.exists_simulate_eq_ok (wf : net.WellFormed) (supplies : stimulus.Supplies w x)
    (count : stimulus.numInputs = net.numInputs) : ∃ outputs, net.simulate stimulus = .ok outputs ∧
      ReadAll net.outputs outputs w fun s k => s.value (net.eval (x k)) := by
  obtain ⟨values, ok, evaluated⟩ := wf.simulateNodes_eq_ok supplies count
  unfold simulate
  rw [ok, ok_bind]
  refine exists_mapM_eq_ok fun s hs => ?_
  obtain ⟨v, known, hv⟩ := evaluated.knownValue_eq_ok (wf.outputs s hs).inRange ⟨s, hs, .refl⟩
  exact ⟨_, by rw [known, ok_bind]; rfl, hv.complementIf s.complemented⟩

end simulate

/-- The assignment of the inputs that a pattern stands for. -/
def ofPattern (pattern : List Bool) (i : Nat) : Bool := pattern.getD i false

section pattern

variable {pattern : List Bool}

theorem supplies_ofPattern (pattern : List Bool) :
    (Stimulus.ofPattern pattern).Supplies 1 fun _ => ofPattern pattern where
  constant value := ⟨value, rfl, reads_bool.2 ⟨rfl, rfl⟩⟩
  input i hi := by
    have hlt : i < pattern.length := hi
    refine ⟨pattern[i], ?_, reads_bool.2 ⟨rfl, ?_⟩⟩
    · simp [Stimulus.ofPattern, Stimulus.ofList, hlt]
    · simp [ofPattern, hlt]

/-- The outputs get their values. -/
theorem WellFormed.simulate_eq_ok (wf : net.WellFormed) (length : pattern.length = net.numInputs) :
    net.simulate (.ofPattern pattern) = .ok (net.outputValues (ofPattern pattern)) := by
  obtain ⟨outputs, ok, read⟩ := wf.exists_simulate_eq_ok (supplies_ofPattern pattern) length
  rw [ok, outputValues]
  refine congrArg Except.ok (List.forall₂_eq_eq_eq ▸ List.forall₂_map_right_iff.2 ?_)
  exact read.flip.imp fun v s hv => (reads_bool.1 hv).2

end pattern

end Network

end LogicNet
