import LogicNet.Proofs.FunctionCache
import LogicNet.Proofs.GateFunction
import LogicNet.Proofs.Graph
import LogicNet.Proofs.References

/-! # Invariants of networks

A network is well formed if its graph is: the constants, inputs and gates are those that the family
allows, and there is no cycle.  It is coherent if marks, counts and table agree with the graph.  It is
hash-consed if, besides, the table holds every live gate.  A substitution keeps a network coherent in
all its steps; only in the end it is hash-consed again.
-/

namespace LogicNet

/-- Whether the gates of a family may have a function. -/
def Family.hasGate : Family → GateFunction → Bool
  | .aig, .and | .mig, .maj | .klut, .table _ => true
  | _, _ => false

/-- Each function is that of the gates of one family. -/
theorem Family.eq_of_hasGate {family : Family} {g : GateFunction} (h : family.hasGate g = true) :
    family = match g with
      | .and => .aig
      | .maj => .mig
      | .table _ => .klut := by
  cases family <;> cases g <;> first | rfl | cases h

namespace Network

variable {net net' : Network} {n : Nat}

/-- A signal that the network may use. -/
structure Typed (net : Network) (s : Signal) : Prop where
  inRange : s.node < net.size
  polarity : s.complemented = true → net.family.hasComplementedEdges = true

/-- Fanins over which the network may have a gate. -/
structure Fits (net : Network) (g : GateFunction) (fanins : List Signal) : Prop where
  hasGate : net.family.hasGate g = true
  arity : net.functions.arity? g = some fanins.length
  nonempty : fanins ≠ []
  bounded : fanins.length ≤ maxFanins
  typed : ∀ s ∈ fanins, net.Typed s

/-- The family of majorities has edges with polarities. -/
theorem Fits.edges_of_maj {g : GateFunction} {fanins : List Signal} (fits : net.Fits g fanins)
    (hg : g = .maj) : net.family.hasComplementedEdges = true := by
  subst hg
  rw [Family.eq_of_hasGate fits.hasGate]
  rfl

/-- The gates of table networks have a literal of a table of their width. -/
theorem Fits.exists_table {g : GateFunction} {fanins : List Signal} (fits : net.Fits g fanins)
    (family : net.family = .klut) :
    ∃ f t, g = .table f ∧ net.functions.get f = .ok t ∧ t.numVars = fanins.length := by
  have hfamily := fits.hasGate
  rw [family] at hfamily
  cases g with
  | and => cases hfamily
  | maj => cases hfamily
  | table f =>
    obtain ⟨t, ht, hvars⟩ := FunctionCache.arity?_table.1 fits.arity
    exact ⟨f, t, rfl, ht, hvars⟩

structure WellFormed (net : Network) : Prop where
  constant_iff : ∀ n value,
    net.kind? n = some (.constant value) ↔ net.family.constants[n]? = some value
  input_iff : ∀ n, net.kind? n = some .input ↔ n ∈ net.inputs
  nodup_inputs : net.inputs.Nodup
  fits : ∀ n g fanins, net.kind? n = some (.gate g fanins) → net.Fits g fanins
  outputs : ∀ s ∈ net.outputs, net.Typed s
  functions : net.functions.WellFormed
  seeded : net.family = .klut → FunctionCache.seeded.Extends net.functions
  acyclic : net.Acyclic

/-- What holds of an entry of the table. -/
def Entered (net : Network) (key : GateKey) (s : Signal) : Prop :=
  net.isLive s.node = true ∧ net.canonical s.node = .ok (.gate key s.complemented)

structure Coherent (net : Network) : Prop extends net.WellFormed where
  dead_isGate : ∀ n, n < net.size → net.isLive n = false → net.IsGate n
  live_fanins : ∀ n, net.isLive n = true → ∀ s ∈ net.slots n, net.isLive s.node = true
  live_outputs : ∀ s ∈ net.outputs, net.isLive s.node = true
  counted : ∀ n, net.fanout n = net.references n
  entered : ∀ key s, net.gateTable.get? key = some s → net.Entered key s

/-- The table holds the gate under its key. -/
def Hashed (net : Network) (n : Nat) : Prop :=
  ∃ key flip, net.canonical n = .ok (.gate key flip) ∧ net.gateTable.get? key = some ⟨n, flip⟩

structure HashConsed (net : Network) : Prop extends net.Coherent where
  hashed : ∀ n, net.isLive n = true → net.IsGate n → net.Hashed n

/-- A gate that may be replaced by a signal: it needs no gate, or another gate is made over fanins
that are alike. -/
def Redundant (net : Network) (n : Nat) (s : Signal) : Prop :=
  net.canonical n = .ok (.trivial s) ∨ ∃ g fanins fanins', net.kind? n = some (.gate g fanins) ∧
    net.kind? s.node = some (.gate g fanins') ∧
    Canonical.Alike net.functions g s.complemented fanins fanins'

namespace SameGraph

variable {g : GateFunction} {fanins : List Signal} {s : Signal}

theorem typed (graph : SameGraph net net') : net'.Typed s ↔ net.Typed s := by
  constructor
  · rintro ⟨inRange, polarity⟩
    exact ⟨graph.size ▸ inRange, graph.family ▸ polarity⟩
  · rintro ⟨inRange, polarity⟩
    exact ⟨graph.size.symm ▸ inRange, graph.family.symm ▸ polarity⟩

theorem fits (graph : SameGraph net net') (h : net.Fits g fanins) : net'.Fits g fanins where
  hasGate := graph.family.symm ▸ h.hasGate
  arity := graph.functions.symm ▸ h.arity
  nonempty := h.nonempty
  bounded := h.bounded
  typed s hs := graph.typed.2 (h.typed s hs)

theorem wellFormed (graph : SameGraph net net') (wf : net.WellFormed) : net'.WellFormed where
  constant_iff := by
    rw [graph.kind?, graph.family]
    exact wf.constant_iff
  input_iff := by
    rw [graph.kind?, graph.inputs]
    exact wf.input_iff
  nodup_inputs := graph.inputs.symm ▸ wf.nodup_inputs
  fits n g fanins hkind := graph.fits (wf.fits n g fanins (graph.kind? ▸ hkind))
  outputs := by
    rw [graph.outputs]
    exact fun s hs => graph.typed.2 (wf.outputs s hs)
  functions := graph.functions.symm ▸ wf.functions
  seeded := by
    rw [graph.family, graph.functions]
    exact wf.seeded
  acyclic := graph.acyclic wf.acyclic

theorem redundant (graph : SameGraph net net') : net'.Redundant n s ↔ net.Redundant n s := by
  simp only [Redundant, graph.canonical, graph.kind?, graph.functions]

end SameGraph

namespace WellFormed

variable {s : Signal}

theorem typed_slots (wf : net.WellFormed) (hs : s ∈ net.slots n) : net.Typed s := by
  obtain ⟨g, fanins, hkind⟩ := isGate_of_mem_slots hs
  rw [slots_of_kind? hkind] at hs
  exact (wf.fits n g fanins hkind).typed s hs

theorem closed (wf : net.WellFormed) : net.Closed := by
  rintro m n ⟨s, hs, rfl⟩
  exact (wf.typed_slots hs).inRange

theorem exists_canonical (wf : net.WellFormed) (gate : net.IsGate n) :
    ∃ c, net.canonical n = .ok c := by
  obtain ⟨g, fanins, hkind⟩ := gate
  rw [canonical_of_kind? hkind]
  exact Canonical.exists_ofGate (wf.fits n g fanins hkind).arity

/-- A constant is no gate. -/
theorem not_isGate_of_constant (wf : net.WellFormed) {value : Bool}
    (h : net.family.constants[n]? = some value) : ¬ net.IsGate n := by
  rintro ⟨g, fanins, hkind⟩
  rw [(wf.constant_iff n value).2 h] at hkind
  cases hkind

/-- Where there are conjunctions, node 0 is the false constant. -/
theorem constant_of_and (wf : net.WellFormed) {fanins : List Signal}
    (h : net.kind? n = some (.gate .and fanins)) : net.family.constants[0]? = some false := by
  rw [Family.eq_of_hasGate (wf.fits n .and fanins h).hasGate]
  rfl

/-- Signal that a gate without need for a gate is equal to: a fanin of it, or a constant. -/
theorem of_trivial (wf : net.WellFormed) (h : net.canonical n = .ok (.trivial s)) :
    s ∈ net.slots n ∨ s = Canonical.constant false ∧ net.family.constants[0]? = some false := by
  obtain ⟨g, fanins, hkind, hc⟩ := canonical_eq_ok.1 h
  rw [slots_of_kind? hkind]
  refine (Canonical.mem_of_trivial hc).imp id fun ⟨hg, hs⟩ => ⟨hs, ?_⟩
  subst hg
  exact wf.constant_of_and hkind

/-- Only majorities stand for the complements of gates, and their edges carry polarities. -/
theorem typed_of_redundant (wf : net.WellFormed) (h : net.Redundant n s) : net.Typed s := by
  rcases h with h | ⟨g, fanins, fanins', hkind, hkind', alike⟩
  · rcases wf.of_trivial h with hs | ⟨rfl, hconstant⟩
    · exact wf.typed_slots hs
    · exact ⟨lt_size_of_kind? ((wf.constant_iff 0 false).2 hconstant), fun hs => by cases hs⟩
  · refine ⟨lt_size_of_kind? hkind', fun hs => ?_⟩
    rw [hs] at alike
    exact (wf.fits n g fanins hkind).edges_of_maj alike.eq_maj

/-- A gate is made over nodes below it, and so are the gates that are alike to it. -/
theorem not_inCone_of_redundant (wf : net.WellFormed) (h : net.Redundant n s)
    (hne : s.node ≠ n) : ¬ net.InCone n s.node := by
  intro hcone
  rcases h with h | ⟨g, fanins, fanins', hkind, hkind', alike⟩
  · rcases wf.of_trivial h with hs | ⟨rfl, hconstant⟩
    · exact wf.acyclic.not_inCone ⟨s, hs, rfl⟩ hcone
    · rcases Relation.ReflTransGen.cases_tail hcone with heq | ⟨m, -, hfanin⟩
      · exact hne heq
      · exact wf.not_isGate_of_constant hconstant hfanin.isGate
  · rcases Relation.ReflTransGen.cases_tail hcone with heq | ⟨m, hm, t, ht, rfl⟩
    · exact hne heq
    · rw [slots_of_kind? hkind'] at ht
      have hmem := alike.complementIf_perm.mem_iff.2 (List.mem_map_of_mem ht)
      refine wf.acyclic.not_inCone ⟨t.complementIf s.complemented, ?_, rfl⟩ hm
      rwa [slots_of_kind? hkind]

end WellFormed

namespace Coherent

theorem isLive_of_constant (coherent : net.Coherent) {value : Bool}
    (h : net.family.constants[n]? = some value) : net.isLive n = true := by
  have hkind := (coherent.constant_iff n value).2 h
  by_contra dead
  exact coherent.not_isGate_of_constant h
    (coherent.dead_isGate n (lt_size_of_kind? hkind) (Bool.eq_false_iff.2 dead))

/-- Replacing the table by one whose entries are right. -/
theorem withTable (coherent : net.Coherent) {t : GateTable}
    (entered : ∀ key s, t.get? key = some s → net.Entered key s) :
    Coherent { net with gateTable := t } where
  toWellFormed := (sameGraph_withTable net t).wellFormed coherent.toWellFormed
  dead_isGate := coherent.dead_isGate
  live_fanins := coherent.live_fanins
  live_outputs := coherent.live_outputs
  counted := coherent.counted
  entered := entered

end Coherent

end Network

end LogicNet
