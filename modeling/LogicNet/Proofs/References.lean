import LogicNet.Proofs.Structure
import Mathlib.Algebra.Order.BigOperators.Group.Finset

/-! # Counting references

The references to a node are those in the fanins of live nodes, summed up, and those of the outputs.
So a change to one node, or one change to all signals, changes the number of references by what it
changes in the single terms.
-/

namespace LogicNet

/-- Applies a change to the fanins of a gate. -/
def NodeKind.mapFanins (f : Signal → Signal) : NodeKind → NodeKind
  | .gate g fanins => .gate g (fanins.map f)
  | kind => kind

theorem Node.kind_mapFanins (f : Signal → Signal) (nd : Node) :
    (nd.mapFanins f).kind = nd.kind.mapFanins f := by
  obtain ⟨kind, _, _, _, _⟩ := nd
  cases kind <;> rfl

theorem Node.dead_mapFanins (f : Signal → Signal) (nd : Node) :
    (nd.mapFanins f).dead = nd.dead := by
  obtain ⟨kind, _, _, _, _⟩ := nd
  cases kind <;> rfl

theorem Node.fanout_mapFanins (f : Signal → Signal) (nd : Node) :
    (nd.mapFanins f).fanout = nd.fanout := by
  obtain ⟨kind, _, _, _, _⟩ := nd
  cases kind <;> rfl

namespace Network

variable {net net' : Network} {n p old : Nat} {new : Signal}

/-- Sum of a weight of fanins over the live nodes. -/
def slotSum (net : Network) (weight : List Signal → Nat) : Nat :=
  ∑ p ∈ Finset.range net.size, if net.isLive p then weight (net.slots p) else 0

theorem sum_map_eq_sum_range {α : Type} (f : α → Nat) (l : List α) :
    (l.map f).sum = ∑ i ∈ Finset.range l.length, (l[i]?.map f).getD 0 := by
  induction l with
  | nil => rfl
  | cons a rest ih =>
    rw [List.map_cons, List.sum_cons, List.length_cons, Finset.sum_range_succ', ih, Nat.add_comm]
    rfl

theorem sum_map_nodes (f : Node → Nat) (net : Network) :
    (net.nodes.toList.map f).sum = ∑ p ∈ Finset.range net.size, (net.nodes[p]?.map f).getD 0 := by
  rw [sum_map_eq_sum_range]
  simp [size]

theorem references_eq (net : Network) (n : Nat) : net.references n
    = net.slotSum (·.countP (·.node == n)) + net.outputs.countP (·.node == n) := by
  rw [references, sum_map_nodes]
  congr 1
  apply Finset.sum_congr rfl
  intro p hp
  obtain ⟨nd, hnd⟩ := exists_node (Finset.mem_range.1 hp)
  rw [isLive_of_getElem? hnd, slots_of_getElem? hnd, hnd]
  cases hdead : nd.dead <;> simp [Node.references, hdead]

theorem slotSum_add (net : Network) (weight weight' : List Signal → Nat) :
    net.slotSum (fun fanins => weight fanins + weight' fanins)
      = net.slotSum weight + net.slotSum weight' := by
  unfold slotSum
  rw [← Finset.sum_add_distrib]
  apply Finset.sum_congr rfl
  intro p _
  split <;> rfl

theorem numSlots_eq (net : Network) :
    net.numSlots = ∑ p ∈ Finset.range net.size, (net.slots p).length := by
  rw [numSlots, sum_map_nodes]
  apply Finset.sum_congr rfl
  intro p hp
  obtain ⟨nd, hnd⟩ := exists_node (Finset.mem_range.1 hp)
  rw [slots_of_getElem? hnd, hnd]
  rfl

theorem slotSum_length_le (net : Network) : net.slotSum List.length ≤ net.numSlots := by
  rw [numSlots_eq]
  apply Finset.sum_le_sum
  intro p _
  split
  · exact Nat.le_refl _
  · exact Nat.zero_le _

/-- A node without references is used by no live gate and by no output. -/
theorem references_eq_zero_iff : net.references n = 0 ↔
    (∀ p, net.isLive p = true → ∀ s ∈ net.slots p, s.node ≠ n) ∧ ∀ s ∈ net.outputs, s.node ≠ n := by
  rw [references_eq, Nat.add_eq_zero_iff, slotSum, Finset.sum_eq_zero_iff, List.countP_eq_zero]
  refine and_congr ⟨fun h p hlive s hs => ?_, fun h p _ => ?_⟩ (by simp)
  · have hzero := h p (Finset.mem_range.2 (lt_size_of_isLive hlive))
    rw [if_pos hlive, List.countP_eq_zero] at hzero
    simpa using hzero s hs
  · split
    · exact List.countP_eq_zero.2 fun s hs => by simpa using h p ‹_› s hs
    · rfl

/-- Marking a node dead takes its fanins out of the sum. -/
theorem slotSum_of_marked (graph : SameGraph net net') (live : net.isLive p = true)
    (marks : ∀ m, net'.isLive m = (net.isLive m && m != p)) (weight : List Signal → Nat) :
    net.slotSum weight = net'.slotSum weight + weight (net.slots p) := by
  have hp := Finset.mem_range.2 (lt_size_of_isLive live)
  unfold slotSum
  rw [graph.size, graph.slots, ← Finset.sum_erase_add _ _ hp, ← Finset.sum_erase_add _ _ hp, marks p,
    if_pos live, bne_self_eq_false, Bool.and_false, if_neg Bool.false_ne_true, Nat.add_zero]
  congr 1
  apply Finset.sum_congr rfl
  intro m hm
  have hne := Finset.ne_of_mem_erase hm
  rw [marks m, bne_iff_ne.2 hne, Bool.and_true]

theorem references_of_marked (graph : SameGraph net net') (live : net.isLive p = true)
    (marks : ∀ m, net'.isLive m = (net.isLive m && m != p)) (n : Nat) :
    net.references n = net'.references n + (net.slots p).countP (·.node == n) := by
  rw [references_eq, references_eq, graph.outputs, slotSum_of_marked graph live marks]
  omega

theorem SameGraph.references (graph : SameGraph net net') (live : net'.isLive = net.isLive) :
    net'.references = net.references := by
  funext n
  simp only [references_eq, slotSum, graph.outputs, graph.size, graph.slots, live]

section mapReferences

variable {f : Signal → Signal}

theorem getElem?_mapReferences (net : Network) (f : Signal → Signal) (n : Nat) :
    (net.mapReferences f).nodes[n]?
      = net.nodes[n]?.map fun nd => if nd.dead then nd else nd.mapFanins f :=
  getElem?_mapNodes ..

@[simp] theorem size_mapReferences (net : Network) (f : Signal → Signal) :
    (net.mapReferences f).size = net.size :=
  size_mapNodes ..

theorem isLive_mapReferences (net : Network) (f : Signal → Signal) :
    (net.mapReferences f).isLive = net.isLive := by
  funext n
  simp only [isLive, getElem?_mapReferences]
  cases hnd : net.nodes[n]? with
  | none => rfl
  | some nd => cases hdead : nd.dead <;> simp [hdead, Node.dead_mapFanins]

theorem fanout_mapReferences (net : Network) (f : Signal → Signal) :
    (net.mapReferences f).fanout = net.fanout := by
  funext n
  simp only [fanout, getElem?_mapReferences]
  cases hnd : net.nodes[n]? with
  | none => rfl
  | some nd => cases hdead : nd.dead <;> simp [hdead, Node.fanout_mapFanins]

theorem kind?_mapReferences (net : Network) (f : Signal → Signal) (n : Nat) :
    (net.mapReferences f).kind? n
      = if net.isLive n then (net.kind? n).map (NodeKind.mapFanins f) else net.kind? n := by
  rcases hnd : net.nodes[n]? with _ | nd
  · simp [kind?, getElem?_mapReferences, hnd]
  · rw [isLive_of_getElem? hnd, kind?_of_getElem? hnd, kind?, getElem?_mapReferences, hnd]
    cases hdead : nd.dead <;> simp [hdead, Node.kind_mapFanins]

theorem slots_mapReferences (net : Network) (f : Signal → Signal) (n : Nat) :
    (net.mapReferences f).slots n
      = if net.isLive n then (net.slots n).map f else net.slots n := by
  by_cases hlive : net.isLive n
  · rcases hkind : net.kind? n with _ | (_ | _ | _) <;>
      simp [slots, kind?_mapReferences, hlive, hkind, NodeKind.mapFanins]
  · simp [slots, kind?_mapReferences, hlive]

theorem isGate_mapReferences : (net.mapReferences f).IsGate n ↔ net.IsGate n := by
  simp only [IsGate, kind?_mapReferences]
  split
  · rcases hkind : net.kind? n with _ | (_ | _ | _) <;> simp [NodeKind.mapFanins]
  · rfl

theorem slotSum_mapReferences (net : Network) (f : Signal → Signal) (weight : List Signal → Nat) :
    (net.mapReferences f).slotSum weight = net.slotSum fun fanins => weight (fanins.map f) := by
  unfold slotSum
  rw [size_mapReferences, isLive_mapReferences]
  apply Finset.sum_congr rfl
  intro p _
  split
  · rw [slots_mapReferences, if_pos ‹_›]
  · rfl

theorem redirected_node (old : Nat) (new s : Signal) :
    (redirected old new s).node = if s.node = old then new.node else s.node := by
  unfold redirected
  split <;> rfl

theorem countP_map_redirected (hne : new.node ≠ old) (l : List Signal) (n : Nat) :
    (l.map (redirected old new)).countP (·.node == n)
      = if n = old then 0 else if n = new.node
        then l.countP (·.node == n) + l.countP (·.node == old) else l.countP (·.node == n) := by
  induction l with
  | nil => simp
  | cons s rest ih =>
    simp only [List.map_cons, List.countP_cons, ih, redirected_node, beq_iff_eq]
    grind

/-- Redirecting moves the references of the old node to the new one. -/
theorem references_redirected (hne : new.node ≠ old) :
    (net.mapReferences (redirected old new)).references n
      = if n = old then 0 else if n = new.node
        then net.references n + net.references old else net.references n := by
  have houtputs : (net.mapReferences (redirected old new)).outputs.countP (·.node == n)
      = _ := countP_map_redirected hne net.outputs n
  simp only [references_eq, slotSum_mapReferences, countP_map_redirected hne, houtputs]
  by_cases hold : n = old
  · simp [slotSum, hold]
  · by_cases hnew : n = new.node
    · have sum := slotSum_add net (·.countP (·.node == n)) (·.countP (·.node == old))
      simp only [if_neg hold, if_pos hnew]
      omega
    · simp only [hold, hnew, if_false]

end mapReferences

end Network

end LogicNet
