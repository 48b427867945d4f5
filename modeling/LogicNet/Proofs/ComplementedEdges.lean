import LogicNet.Inverters
import LogicNet.Proofs.Polarities
import Mathlib.Algebra.BigOperators.Ring.Finset

/-! # Counting complemented edges

A change of polarities adds and removes complemented edges where the two ends of an edge disagree.  What it
removes altogether is a sum over the edges, and for a single gate only those at the gate contribute.
-/

namespace LogicNet

/-- Complemented edges that disappear from a list when the references to a node are complemented. -/
def referenceGain (l : List Signal) (n : Nat) : Int := ((l.filter (·.node == n)).map flipGain).sum

/-- What flipping some edges takes from the number of complemented edges among those that count. -/
theorem countP_sub_countP_complementIf (counts : Nat → Bool) (flips : Signal → Bool) (l : List Signal) :
    (l.countP fun s => s.complemented && counts s.node : Int)
      - (l.map fun s => s.complementIf (flips s)).countP (fun s => s.complemented && counts s.node)
      = ((l.filter fun s => flips s && counts s.node).map flipGain).sum := by
  induction l with
  | nil => rfl
  | cons s rest ih =>
    rw [List.map_cons, List.countP_cons, List.countP_cons, List.filter_cons, Signal.complementIf_node]
    have flipped : (s.complementIf (flips s)).complemented = (s.complemented ^^ flips s) := rfl
    rw [flipped]
    cases hs : s.complemented <;> cases hcounts : counts s.node <;> cases hflips : flips s <;>
      simp [flipGain, hs, -List.countP_map] <;> omega

namespace Network

variable {net net' net'' : Network} {f : Nat → Bool} {n p : Nat}

theorem countComplementedEdges_eq (net : Network) : net.countComplementedEdges
    = net.slotSum (·.countP net.isCountedEdge) + net.outputs.countP (·.complemented) := by
  rw [countComplementedEdges, sum_map_nodes]
  congr 1
  refine Finset.sum_congr rfl fun p hp => ?_
  obtain ⟨nd, hnd⟩ := exists_node (Finset.mem_range.1 hp)
  rw [isLive_of_getElem? hnd, slots_of_getElem? hnd, hnd]
  cases hdead : nd.dead <;> simp [hdead]

/-- Complemented edges that disappear from the fanins of a node when the gates of `f` are inverted. -/
def faninsRemoved (net : Network) (f : Nat → Bool) (p : Nat) : Int :=
  (((net.slots p).filter fun s => (f p ^^ f s.node) && !net.isConstant s.node).map flipGain).sum

/-- Complemented edges that disappear from the outputs when the gates of `f` are inverted. -/
def outputsRemoved (net : Network) (f : Nat → Bool) : Int :=
  ((net.outputs.filter fun s => f s.node).map flipGain).sum

/-- Complemented edges that inverting the gates of `f` removes. -/
def edgesRemoved (net : Network) (f : Nat → Bool) : Int :=
  ∑ p ∈ Finset.range net.size, (if net.isLive p then net.faninsRemoved f p else 0)
    + net.outputsRemoved f

namespace Repolarized

variable (h : Repolarized net f net')

include h

theorem isConstant (n : Nat) : net'.isConstant n = net.isConstant n := by
  rw [isConstant_eq, isConstant_eq, h.kind?]
  rcases net.kind? n with _ | (_ | _ | _) <;> rfl

theorem faninsRemoved_eq (live : net.isLive p = true) : net.faninsRemoved f p
    = (net.slots p).countP net.isCountedEdge - (net'.slots p).countP net'.isCountedEdge := by
  have moved : net.repolarize f p = fun s => s.complementIf (f p ^^ f s.node) := by
    funext s
    rw [repolarize, if_pos live]
  have counted : net'.isCountedEdge = net.isCountedEdge := by
    funext s
    rw [isCountedEdge, isCountedEdge, h.isConstant]
  rw [h.slots, moved, counted]
  exact (countP_sub_countP_complementIf (fun n => !net.isConstant n) _ _).symm

theorem outputsRemoved_eq : net.outputsRemoved f
    = net.outputs.countP (·.complemented) - net'.outputs.countP (·.complemented) := by
  have flips := countP_sub_countP_complementIf (fun _ => true) (fun s => f s.node) net.outputs
  simp only [Bool.and_true] at flips
  rw [h.outputs]
  exact flips.symm

/-- The sum over the edges is the difference of the counts. -/
theorem edgesRemoved_eq :
    net.edgesRemoved f = net.countComplementedEdges - net'.countComplementedEdges := by
  have inside : ∑ p ∈ Finset.range net.size, (if net.isLive p then net.faninsRemoved f p else 0)
      = (net.slotSum (·.countP net.isCountedEdge) : Int) - net'.slotSum (·.countP net'.isCountedEdge) := by
    unfold slotSum
    rw [h.size, h.live, Nat.cast_sum, Nat.cast_sum, ← Finset.sum_sub_distrib]
    refine Finset.sum_congr rfl fun p _ => ?_
    by_cases live : net.isLive p = true
    · simp only [live, if_true, h.faninsRemoved_eq live]
    · simp [live]
  rw [edgesRemoved, inside, h.outputsRemoved_eq, countComplementedEdges_eq, countComplementedEdges_eq]
  omega

/-- What inverting gates removes depends only on which of the nodes are inverted. -/
theorem edgesRemoved_sub {g : Nat → Bool} (h' : Repolarized net g net'') :
    net.edgesRemoved g - net.edgesRemoved f
      = net'.countComplementedEdges - net''.countComplementedEdges := by
  rw [h.edgesRemoved_eq, h'.edgesRemoved_eq]
  omega

end Repolarized

theorem edgesRemoved_none (net : Network) : net.edgesRemoved (fun _ => false) = 0 := by
  simp [edgesRemoved, faninsRemoved, outputsRemoved]

theorem referenceGain_of_not_parent (live : net.isLive p = true) (hp : p ∉ net.parents n) :
    referenceGain (net.slots p) n = 0 := by
  have none : (net.slots p).filter (·.node == n) = [] := List.filter_eq_nil_iff.2 fun s hs heq =>
    hp (mem_parents.2 ⟨live, s, hs, by simpa using heq⟩)
  rw [referenceGain, none]
  rfl

/-- A sum over the live nodes to which only the parents of a node contribute. -/
theorem sum_parents (net : Network) (n : Nat) {weight : Nat → Int}
    (others : ∀ p, net.isLive p = true → p ∉ net.parents n → weight p = 0) :
    ∑ p ∈ Finset.range net.size, (if net.isLive p then weight p else 0)
      = ((net.parents n).map weight).sum := by
  have nodup : (net.parents n).Nodup := (nodup_liveGates net).filter _
  rw [← List.sum_toFinset weight nodup]
  refine (Finset.sum_subset_zero_on_sdiff ?_ ?_ ?_).symm
  · intro p hp
    obtain ⟨live, -⟩ := mem_parents.1 (List.mem_toFinset.1 hp)
    exact Finset.mem_range.2 (lt_size_of_isLive live)
  · intro p hp
    obtain ⟨-, hp⟩ := Finset.mem_sdiff.1 hp
    split
    · exact others p ‹_› fun hparent => hp (List.mem_toFinset.2 hparent)
    · rfl
  · intro p hp
    obtain ⟨live, -⟩ := mem_parents.1 (List.mem_toFinset.1 hp)
    rw [if_pos live]

theorem WellFormed.faninsRemoved_single (wf : net.WellFormed) (gate : net.IsGate n) (p : Nat) :
    net.faninsRemoved (toggled (fun _ => false) n) p
      = (if p = n then (((net.slots n).filter fun s => !net.isConstant s.node).map flipGain).sum else 0)
        + referenceGain (net.slots p) n := by
  have noLoop (s : Signal) (hs : s ∈ net.slots n) : s.node ≠ n := fun heq =>
    wf.acyclic n (.single ⟨s, hs, heq⟩)
  have noConstant : net.isConstant n = false := by
    obtain ⟨g, l, hkind⟩ := gate
    rw [isConstant_eq, hkind]
    rfl
  by_cases hp : p = n
  · subst hp
    have all : (net.slots p).filter (fun s => (toggled (fun _ => false) p p
        ^^ toggled (fun _ => false) p s.node) && !net.isConstant s.node)
        = (net.slots p).filter fun s => !net.isConstant s.node :=
      List.filter_congr fun s hs => by simp [toggled, noLoop s hs]
    have none : (net.slots p).filter (·.node == p) = [] :=
      List.filter_eq_nil_iff.2 fun s hs => by simpa using noLoop s hs
    rw [faninsRemoved, referenceGain, all, none, if_pos rfl]
    exact (Int.add_zero _).symm
  · have moved : (net.slots p).filter (fun s => (toggled (fun _ => false) n p
        ^^ toggled (fun _ => false) n s.node) && !net.isConstant s.node)
        = (net.slots p).filter (·.node == n) := by
      refine List.filter_congr fun s _ => ?_
      by_cases hs : s.node = n <;> simp [toggled, hp, hs, noConstant]
    rw [faninsRemoved, referenceGain, moved, if_neg hp, Int.zero_add]

/-- Inverting a single gate moves the edges at its outputs, at its fanins and at its parents. -/
theorem WellFormed.edgesRemoved_single (wf : net.WellFormed) (live : net.isLive n = true)
    (gate : net.IsGate n) : net.edgesRemoved (toggled (fun _ => false) n)
      = referenceGain net.outputs n
        + (((net.slots n).filter fun s => !net.isConstant s.node).map flipGain).sum
        + ((net.parents n).map fun p => referenceGain (net.slots p) n).sum := by
  let own := (((net.slots n).filter fun s => !net.isConstant s.node).map flipGain).sum
  have atFanins : ∑ p ∈ Finset.range net.size, (if p = n then own else 0) = own := by
    rw [Finset.sum_ite_eq', if_pos (Finset.mem_range.2 (lt_size_of_isLive live))]
  have inside : ∑ p ∈ Finset.range net.size,
      (if net.isLive p then net.faninsRemoved (toggled (fun _ => false) n) p else 0)
      = own + ((net.parents n).map fun p => referenceGain (net.slots p) n).sum := by
    rw [← net.sum_parents n fun p => referenceGain_of_not_parent, ← atFanins, ← Finset.sum_add_distrib]
    refine Finset.sum_congr rfl fun p _ => ?_
    rw [wf.faninsRemoved_single gate]
    by_cases hp : net.isLive p = true
    · simp only [hp, if_true, own]
    · have hpn : p ≠ n := fun heq => hp (heq ▸ live)
      simp only [hp, hpn, Bool.false_eq_true, if_false, add_zero]
  have atOutputs : net.outputsRemoved (toggled (fun _ => false) n)
      = referenceGain net.outputs n := by
    simp only [outputsRemoved, toggled, Bool.false_xor]
    rfl
  rw [edgesRemoved, inside, atOutputs]
  omega

end Network

end LogicNet
