import LogicNet.Network.Function
import LogicNet.Network.Substitution
import LogicNet.Proofs.Computation

/-! # The structure of a network

What a network is made of, read node by node: its kind, its fanins, whether it is live, its stored
fanout count.  Most steps of an edit touch only counts, marks and the table; the graph stays.
-/

namespace LogicNet.Network

variable {net net' net'' : Network} {n p : Nat} {nd : Node} {s : Signal}

/-- Kind of a node, if the network has it. -/
def kind? (net : Network) (n : Nat) : Option NodeKind := net.nodes[n]?.map (·.kind)

/-- Fanins of a gate; any other node has none. -/
def slots (net : Network) (n : Nat) : List Signal :=
  match net.kind? n with
  | some (.gate _ fanins) => fanins
  | _ => []

/-- Stored fanout count of a node. -/
def fanout (net : Network) (n : Nat) : Nat := (net.nodes[n]?.map (·.fanout)).getD 0

def IsGate (net : Network) (n : Nat) : Prop := ∃ g fanins, net.kind? n = some (.gate g fanins)

theorem node_eq_ok : net.node n = .ok nd ↔ net.nodes[n]? = some nd := by
  unfold node
  cases net.nodes[n]? <;> simp

theorem kind?_eq_some {kind : NodeKind} :
    net.kind? n = some kind ↔ ∃ nd, net.nodes[n]? = some nd ∧ nd.kind = kind := by
  simp [kind?]

theorem kind?_eq_none : net.kind? n = none ↔ net.size ≤ n := by
  simp [kind?, size]

theorem lt_size_of_kind? {kind : NodeKind} (h : net.kind? n = some kind) : n < net.size := by
  obtain ⟨nd, hnd, -⟩ := kind?_eq_some.1 h
  exact (Array.getElem?_eq_some_iff.1 hnd).1

theorem exists_node (h : n < net.size) : ∃ nd, net.nodes[n]? = some nd :=
  ⟨_, Array.getElem?_eq_getElem h⟩

theorem lt_size_of_getElem? (h : net.nodes[n]? = some nd) : n < net.size :=
  (Array.getElem?_eq_some_iff.1 h).1

theorem kind?_of_getElem? (h : net.nodes[n]? = some nd) : net.kind? n = some nd.kind :=
  kind?_eq_some.2 ⟨nd, h, rfl⟩

theorem IsGate.lt_size (h : net.IsGate n) : n < net.size := by
  obtain ⟨g, fanins, hkind⟩ := h
  exact lt_size_of_kind? hkind

theorem slots_of_kind? {g : GateFunction} {fanins : List Signal}
    (h : net.kind? n = some (.gate g fanins)) : net.slots n = fanins := by
  simp [slots, h]

theorem slots_of_getElem? (h : net.nodes[n]? = some nd) : net.slots n = nd.fanins := by
  rw [slots, kind?_of_getElem? h, Node.fanins]
  cases nd.kind <;> rfl

theorem fanins_of_lt (h : n < net.size) : net.fanins n = .ok (net.slots n) := by
  obtain ⟨nd, hnd⟩ := exists_node h
  rw [fanins, node_eq_ok.2 hnd, slots_of_getElem? hnd]
  rfl

theorem isConstant_eq (net : Network) (n : Nat) :
    net.isConstant n = (net.kind? n).any fun | .constant _ => true | _ => false := by
  simp only [isConstant, kind?, Option.any_map]
  rfl

theorem isGate_of_mem_slots (h : s ∈ net.slots n) : net.IsGate n := by
  unfold slots at h
  split at h
  · exact ⟨_, _, ‹_›⟩
  · cases h

theorem isGate_of_getElem? (h : net.nodes[n]? = some nd) : net.IsGate n ↔ nd.isGate = true := by
  rw [IsGate, kind?_of_getElem? h, Node.isGate]
  cases nd.kind <;> simp

theorem checkGate_eq_ok {g : GateFunction} {fanins : List Signal} (h : net.kind? n = some (.gate g fanins)) :
    net.checkGate n = .ok fanins := by
  obtain ⟨nd, hnd, hkind⟩ := kind?_eq_some.1 h
  have gate : nd.isGate = true := (isGate_of_getElem? hnd).1 ⟨g, fanins, h⟩
  have hfanins : nd.fanins = fanins := by rw [← slots_of_getElem? hnd, slots_of_kind? h]
  simp only [checkGate, hnd, gate, hfanins, if_true]

theorem checkGate_of_size_le (h : net.size ≤ n) : net.checkGate n = .error (.nodeOutOfRange n net.size) := by
  have absent : net.nodes[n]? = none := Array.getElem?_eq_none h
  simp only [checkGate, absent]

theorem checkGate_of_not_isGate (inRange : n < net.size) (h : ¬ net.IsGate n) :
    net.checkGate n = .error (.notAGate n) := by
  obtain ⟨nd, hnd⟩ := exists_node inRange
  have noGate : nd.isGate = false := Bool.eq_false_iff.2 fun gate => h ((isGate_of_getElem? hnd).2 gate)
  simp only [checkGate, hnd, noGate, Bool.false_eq_true, if_false]

theorem nodeFunction_of_kind? {g : GateFunction} {fanins : List Signal}
    (h : net.kind? n = some (.gate g fanins)) : net.nodeFunction n = net.functions.tableOf g := by
  obtain ⟨nd, hnd, hkind⟩ := kind?_eq_some.1 h
  simp only [nodeFunction, node_eq_ok.2 hnd, ok_bind, hkind]

theorem isLive_iff : net.isLive n = true ↔ ∃ nd, net.nodes[n]? = some nd ∧ nd.dead = false := by
  simp [isLive, Option.any_eq_true]

theorem isLive_of_getElem? (h : net.nodes[n]? = some nd) : net.isLive n = !nd.dead := by
  simp [isLive, h]

theorem lt_size_of_isLive (h : net.isLive n) : n < net.size := by
  obtain ⟨nd, hnd, -⟩ := isLive_iff.1 h
  exact lt_size_of_getElem? hnd

theorem isLiveGate_iff : net.isLiveGate n = true ↔ net.isLive n = true ∧ net.IsGate n := by
  unfold isLiveGate isLive
  cases hnd : net.nodes[n]? with
  | none => simp
  | some nd => simp [isGate_of_getElem? hnd]

theorem fanout_of_getElem? (h : net.nodes[n]? = some nd) : net.fanout n = nd.fanout := by
  simp [fanout, h]

theorem mem_liveGates : n ∈ net.liveGates ↔ net.isLive n = true ∧ net.IsGate n := by
  rw [liveGates, List.mem_filter, List.mem_range, isLiveGate_iff]
  exact and_iff_right_of_imp fun h => lt_size_of_isLive h.1

theorem nodup_liveGates (net : Network) : net.liveGates.Nodup := List.nodup_range.filter _

theorem parents_eq (net : Network) (n : Nat) :
    net.parents n = net.liveGates.filter fun p => (net.slots p).any (·.node == n) := by
  refine List.filter_congr fun p _ => ?_
  cases hnd : net.nodes[p]? with
  | none => simp [slots, kind?, hnd]
  | some nd => rw [slots_of_getElem? hnd, Option.any_some]

/-- The parents of a node are the live gates that have it among their fanins. -/
theorem mem_parents :
    p ∈ net.parents n ↔ net.isLive p = true ∧ ∃ s ∈ net.slots p, s.node = n := by
  rw [parents_eq, List.mem_filter, mem_liveGates]
  simp only [List.any_eq_true, beq_iff_eq, and_assoc]
  refine and_congr_right fun _ => and_iff_right_of_imp ?_
  rintro ⟨s, hs, -⟩
  exact isGate_of_mem_slots hs

theorem canonical_of_kind? {g : GateFunction} {fanins : List Signal}
    (h : net.kind? n = some (.gate g fanins)) :
    net.canonical n = Canonical.ofGate net.functions g fanins := by
  obtain ⟨nd, hnd, hkind⟩ := kind?_eq_some.1 h
  simp [canonical, node_eq_ok.2 hnd, hkind]

theorem canonical_eq_ok {c : Canonical} : net.canonical n = .ok c ↔ ∃ g fanins,
    net.kind? n = some (.gate g fanins) ∧ Canonical.ofGate net.functions g fanins = .ok c := by
  constructor
  · intro h
    obtain ⟨nd, hnd, hc⟩ := bind_eq_ok.1 h
    split at hc
    · next g fanins hkind =>
      exact ⟨g, fanins, kind?_eq_some.2 ⟨nd, node_eq_ok.1 hnd, hkind⟩, hc⟩
    · cases hc
  · rintro ⟨g, fanins, hkind, hc⟩
    rw [canonical_of_kind? hkind, hc]

/-- Two networks with the same nodes, apart from counts, marks and scratch fields. -/
structure SameGraph (net net' : Network) : Prop where
  family : net'.family = net.family
  inputs : net'.inputs = net.inputs
  outputs : net'.outputs = net.outputs
  functions : net'.functions = net.functions
  kind? : net'.kind? = net.kind?

namespace SameGraph

theorem refl (net : Network) : SameGraph net net := ⟨rfl, rfl, rfl, rfl, rfl⟩

theorem trans (h : SameGraph net net') (h' : SameGraph net' net'') : SameGraph net net'' :=
  ⟨h'.family.trans h.family, h'.inputs.trans h.inputs, h'.outputs.trans h.outputs,
    h'.functions.trans h.functions, h'.kind?.trans h.kind?⟩

theorem slots (h : SameGraph net net') : net'.slots = net.slots := by
  funext n
  simp only [Network.slots, h.kind?]

theorem isGate (h : SameGraph net net') : net'.IsGate n ↔ net.IsGate n := by
  simp only [IsGate, h.kind?]

theorem size (h : SameGraph net net') : net'.size = net.size := by
  refine Nat.le_antisymm ?_ ?_
  · exact kind?_eq_none.1 ((congrFun h.kind? _).trans (kind?_eq_none.2 (Nat.le_refl _)))
  · exact kind?_eq_none.1 ((congrFun h.kind? _).symm.trans (kind?_eq_none.2 (Nat.le_refl _)))

theorem canonical (h : SameGraph net net') (n : Nat) : net'.canonical n = net.canonical n := by
  cases hc : net.canonical n with
  | ok c =>
    obtain ⟨g, fanins, hkind, hc⟩ := canonical_eq_ok.1 hc
    rw [canonical_of_kind? (h.kind? ▸ hkind), h.functions, hc]
  | error e =>
    unfold Network.canonical node at hc ⊢
    have hsize := h.size
    have hkind := congrFun h.kind? n
    unfold Network.kind? at hkind
    cases hnd : net.nodes[n]? with
    | none =>
      have hnd' : net'.nodes[n]? = none := by simpa [hnd] using hkind
      simp only [hnd, hnd', hsize] at hc ⊢
      exact hc
    | some nd =>
      obtain ⟨nd', hnd', hkind'⟩ : ∃ nd', net'.nodes[n]? = some nd' ∧ nd'.kind = nd.kind := by
        simpa [hnd] using hkind
      simp only [hnd, hnd', ok_bind, hkind', h.functions] at hc ⊢
      exact hc

end SameGraph

theorem sameGraph_withTable (net : Network) (t : GateTable) :
    SameGraph net { net with gateTable := t } :=
  ⟨rfl, rfl, rfl, rfl, rfl⟩

section modifyNode

variable {f : Node → Node}

theorem kind?_modifyNode (kinds : ∀ nd, (f nd).kind = nd.kind) (net : Network) (n : Nat) :
    (net.modifyNode n f).kind? = net.kind? := by
  funext m
  simp only [kind?, getElem?_modifyNode]
  split
  · simp [Function.comp_def, kinds]
  · rfl

theorem sameGraph_modifyNode (kinds : ∀ nd, (f nd).kind = nd.kind) (net : Network) (n : Nat) :
    SameGraph net (net.modifyNode n f) :=
  ⟨rfl, rfl, rfl, rfl, kind?_modifyNode kinds net n⟩

theorem isLive_modifyNode (marks : ∀ nd, (f nd).dead = nd.dead) (net : Network) (n : Nat) :
    (net.modifyNode n f).isLive = net.isLive := by
  funext m
  simp only [isLive, getElem?_modifyNode]
  split
  · cases net.nodes[m]? <;> simp [marks]
  · rfl

theorem fanout_modifyNode_self (h : net.nodes[n]? = some nd) :
    (net.modifyNode n f).fanout n = (f nd).fanout := by
  simp [fanout, h]

theorem fanout_modifyNode_of_ne {m : Nat} (h : m ≠ n) :
    (net.modifyNode n f).fanout m = net.fanout m := by
  simp [fanout, Ne.symm h]

end modifyNode

end LogicNet.Network
