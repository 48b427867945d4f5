import LogicNet.Proofs.Creation
import LogicNet.Proofs.Inversion
import LogicNet.Proofs.SubstitutionValues

/-! # What endures

Callers keep the numbers of nodes across all later changes.  A node is never taken away: its shape, and the
place of an input among the inputs, are what they were, and a dead node stays dead.  Nothing but a
substitution takes a node out of use or gives a gate fanins on other nodes.
-/

namespace LogicNet

/-- What a node is, apart from the signals that it is made over. -/
inductive NodeShape where
  | constant (value : Bool)
  | input
  | gate (function : GateFunction) (numFanins : Nat)
deriving Repr, DecidableEq

def NodeKind.shape : NodeKind → NodeShape
  | constant value => .constant value
  | input => .input
  | gate function fanins => .gate function fanins.length

@[simp] theorem NodeKind.shape_mapFanins (f : Signal → Signal) (kind : NodeKind) :
    (kind.mapFanins f).shape = kind.shape := by
  cases kind <;> simp [mapFanins, shape]

namespace Network

variable {net net' net'' : Network} {n : Nat}

/-- Shape of a node, if the network has it. -/
def shape? (net : Network) (n : Nat) : Option NodeShape := (net.kind? n).map NodeKind.shape

theorem shape?_eq_none : net.shape? n = none ↔ net.size ≤ n := by
  rw [shape?, Option.map_eq_none_iff, kind?_eq_none]

/-- What was told about the nodes of the first network is true of the second one. -/
structure Endures (net net' : Network) : Prop where
  family : net'.family = net.family
  size : net.size ≤ net'.size
  shape : ∀ n < net.size, net'.shape? n = net.shape? n
  inputs : net.inputs <+: net'.inputs
  dead : ∀ n < net.size, net.isLive n = false → net'.isLive n = false

/-- The nodes of the first network are in use as they were, and gates are over the same nodes. -/
structure Steady (net net' : Network) : Prop where
  size : net.size ≤ net'.size
  live : ∀ n < net.size, net'.isLive n = net.isLive n
  drivers : ∀ n < net.size, (net'.slots n).map Signal.node = (net.slots n).map Signal.node

/-- The second network has the nodes and outputs of the first one, over other signals perhaps, and none
of its dead nodes is in use again. -/
structure Reworked (net net' : Network) : Prop where
  family : net'.family = net.family
  shape? : net'.shape? = net.shape?
  inputs : net'.inputs = net.inputs
  numOutputs : net'.numOutputs = net.numOutputs
  live : ∀ n, net'.isLive n = true → net.isLive n = true

namespace Endures

theorem refl (net : Network) : Endures net net :=
  ⟨rfl, Nat.le_refl _, fun _ _ => rfl, List.prefix_refl _, fun _ _ => id⟩

end Endures

namespace Steady

theorem refl (net : Network) : Steady net net := ⟨Nat.le_refl _, fun _ _ => rfl, fun _ _ => rfl⟩

theorem trans (h : Steady net net') (h' : Steady net' net'') : Steady net net'' where
  size := Nat.le_trans h.size h'.size
  live n hn := (h'.live n (Nat.lt_of_lt_of_le hn h.size)).trans (h.live n hn)
  drivers n hn := (h'.drivers n (Nat.lt_of_lt_of_le hn h.size)).trans (h.drivers n hn)

end Steady

namespace Reworked

theorem refl (net : Network) : Reworked net net := ⟨rfl, rfl, rfl, rfl, fun _ => id⟩

theorem trans (h : Reworked net net') (h' : Reworked net' net'') : Reworked net net'' where
  family := h'.family.trans h.family
  shape? := h'.shape?.trans h.shape?
  inputs := h'.inputs.trans h.inputs
  numOutputs := h'.numOutputs.trans h.numOutputs
  live n hn := h.live n (h'.live n hn)

theorem size (h : Reworked net net') : net'.size = net.size := by
  apply Nat.le_antisymm
  · rw [← shape?_eq_none, h.shape?, shape?_eq_none]
  · rw [← shape?_eq_none, ← h.shape?, shape?_eq_none]

theorem endures (h : Reworked net net') : Endures net net' where
  family := h.family
  size := Nat.le_of_eq h.size.symm
  shape n _ := congrFun h.shape? n
  inputs := h.inputs ▸ List.prefix_refl _
  dead n _ dead := Bool.eq_false_iff.2 fun live => by
    rw [h.live n live] at dead
    cases dead

end Reworked

section creation

theorem Grows.endures (h : Grows net net') : Endures net net' where
  family := h.family
  size := h.size
  shape n hn := by rw [shape?, shape?, h.kind? n hn]
  inputs := h.inputs
  dead n hn dead := (h.live n hn).trans dead

theorem Grows.steady (h : Grows net net') : Steady net net' where
  size := h.size
  live := h.live
  drivers n hn := by rw [h.slots hn]

end creation

section change

variable {f : Signal → Signal}

theorem SameGraph.reworked (graph : SameGraph net net')
    (live : ∀ n, net'.isLive n = true → net.isLive n = true) : Reworked net net' where
  family := graph.family
  shape? := by
    funext n
    rw [shape?, shape?, graph.kind?]
  inputs := graph.inputs
  numOutputs := congrArg List.length graph.outputs
  live := live

theorem SameGraph.steady (graph : SameGraph net net') (live : net'.isLive = net.isLive) :
    Steady net net' where
  size := Nat.le_of_eq graph.size.symm
  live n _ := congrFun live n
  drivers n _ := by rw [graph.slots]

theorem reworked_mapReferences (net : Network) (f : Signal → Signal) :
    Reworked net (net.mapReferences f) where
  family := rfl
  shape? := by
    funext n
    unfold shape?
    rw [kind?_mapReferences]
    split
    · cases net.kind? n <;> simp
    · rfl
  inputs := rfl
  numOutputs := List.length_map _
  live n hn := congrFun (isLive_mapReferences net f) n ▸ hn

theorem Redirected.reworked {old : Nat} {new : Signal} {queue : List (Nat × Signal)}
    (h : Redirected net old new net' queue) : Reworked net net' := by
  have mapped := reworked_mapReferences net (redirected old new)
  have released : Reworked (net.mapReferences (redirected old new)) net' :=
    h.graph.reworked fun n hn => (congrFun (isLive_mapReferences net _) n).trans (h.live n hn)
  exact mapped.trans released

theorem Advance.reworked (h : Advance net net') : Reworked net net' := by
  cases h with
  | enters enters => exact enters.graph.reworked fun n hn => enters.live ▸ hn
  | redirected _ _ _ _ _ redirected => exact redirected.reworked

/-- A cascade goes through all its steps without a new node. -/
theorem reworked_of_advance (h : Relation.ReflTransGen Advance net net') : Reworked net net' := by
  induction h with
  | refl => exact .refl net
  | tail _ last ih => exact ih.trans last.reworked

theorem Substituted.reworked {old : Nat} {new : Signal} (h : Substituted net old new net') :
    Reworked net net' := by
  obtain ⟨net₁, queue, first, advance⟩ := h.steps
  exact first.reworked.trans (reworked_of_advance advance)

theorem Inverted.reworked (h : Inverted net n net') : Reworked net net' := by
  have mirrored : Reworked net (net.mirrored n) := by
    refine ⟨rfl, funext fun p => ?_, rfl, List.length_map _, fun p hp => ?_⟩
    · unfold shape?
      rw [kind?_mirrored]
      cases net.kind? p <;> simp
    · exact congrFun (isLive_mirrored net n) p ▸ hp
  refine mirrored.trans (h.graph.reworked fun p hp => ?_)
  rw [isLive_mirrored, ← h.live]
  exact hp

theorem Inverted.steady (h : Inverted net n net') : Steady net net' where
  size := Nat.le_of_eq h.reworked.size.symm
  live p _ := congrFun h.live p
  drivers p _ := by
    rw [h.graph.slots, slots_mirrored, List.map_map]
    exact List.map_congr_left fun s _ => mirror_node net n p s

end change

end Network

end LogicNet
