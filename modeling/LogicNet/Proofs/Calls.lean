import LogicNet.Network.Scratch
import LogicNet.Proofs.Endurance
import LogicNet.Proofs.Gates

/-! # Calls

Everything that callers do with a network is a sequence of the calls below.  A call over operands that
may be used keeps a network hash-consed, or is refused and changes nothing.  So every network that calls
lead to from an empty one is hash-consed.  `Call.Effect` says all that a call can do to the nodes, inputs
and outputs.
-/

namespace LogicNet.Network

/-- A call that changes a network. -/
inductive Call where
  | input
  | output (s : Signal)
  | not (a : Signal)
  | and (a b : Signal)
  | or (a b : Signal)
  | nand (a b : Signal)
  | xor (a b : Signal)
  | maj (a b c : Signal)
  | xor3 (a b c : Nat)
  | table (nodes : List Nat) (t : TruthTable)
  /-- The gate `n` of another network, made over given fanins. -/
  | clone (source : Network) (n : Nat) (fanins : List Signal)
  | substitute (old : Nat) (new : Signal)
  | invert (n : Nat)
  | setValue (n : Nat) (value : UInt32)
  | setVisited (n : Nat) (visited : UInt32)
  | clearValues
  | clearVisited
deriving Repr, DecidableEq

namespace Call

/-- What a call does, apart from its result. -/
def edit : Call → Edit Unit
  | input => discard createInput
  | output s => discard (createOutput s)
  | not a => discard (createNot a)
  | and a b => discard (createAnd a b)
  | or a b => discard (createOr a b)
  | nand a b => discard (createNand a b)
  | xor a b => discard (createXor a b)
  | maj a b c => discard (createMaj a b c)
  | xor3 a b c => discard (createXor3 a b c)
  | table nodes t => discard (createTable nodes t)
  | clone source n fanins => discard (cloneGate source n fanins)
  | substitute old new => Network.substitute old new
  | invert n => invertGate n
  | setValue n value => Network.setValue n value
  | setVisited n visited => Network.setVisited n visited
  | clearValues => Network.clearValues
  | clearVisited => Network.clearVisited

/-- The signals that a call makes a gate or an output of without checking them. -/
def operands : Call → List Signal
  | output s => [s]
  | not a => [a]
  | and a b | or a b | nand a b | xor a b => [a, b]
  | maj a b c => [a, b, c]
  | xor3 a b c => [.ofNode a, .ofNode b, .ofNode c]
  | clone _ _ fanins => fanins
  | _ => []

/-- The signal that a call puts in the place of a node, if it does. -/
def target? : Call → Option Signal
  | substitute _ new => some new
  | _ => none

/-- The operands are live, and polarities stand only where the family has them. -/
structure Admissible (net : Network) (c : Call) : Prop where
  operands : ∀ s ∈ c.operands, net.Operand s
  polarity : ∀ s ∈ c.target?, s.complemented = true → net.family.hasComplementedEdges = true

end Call

/-- The networks that calls lead to, whatever their number and order, as long as none faults. -/
inductive Reachable : Network → Prop
  | empty (family : Family) : Reachable (.empty family)
  | call {net net' : Network} {c : Call} (before : Reachable net) (admissible : c.Admissible net)
      (leads : Leads c.edit net net') : Reachable net'

variable {net net' : Network}

/-- What making gates comes to: a hash-consed network with some more nodes and functions. -/
structure Builds (net net' : Network) : Prop where
  consed : net'.HashConsed
  grows : Grows net net'
  inputs : net'.inputs = net.inputs
  outputs : net'.outputs = net.outputs

theorem HashConsed.builds (consed : net.HashConsed) : Builds net net := ⟨consed, .refl net, rfl, rfl⟩

theorem Adds.ensures {α : Type} {e : Edit α} {post : Network → α → Prop} (h : Adds net e post) :
    Ensures (Builds net) net e := by
  obtain ⟨a, net', run, consed, grows, inputs, outputs, -⟩ := h
  exact .of_ok run ⟨consed, grows, inputs, outputs⟩

theorem Computes.ensures {e : Edit Signal} {f : (Nat → Bool) → Bool} (h : Computes net e f) :
    Ensures (Builds net) net e :=
  Adds.ensures h

namespace Call

/-- Number of inputs that a call makes. -/
def newInputs : Call → Nat
  | input => 1
  | _ => 0

/-- Number of outputs that a call makes. -/
def newOutputs : Call → Nat
  | output _ => 1
  | _ => 0

/-- Whether a call may make inputs or gates. -/
def addsNodes : Call → Bool
  | output _ | substitute .. | invert _ | setValue .. | setVisited .. | clearValues | clearVisited => false
  | _ => true

def substitutes : Call → Bool
  | substitute .. => true
  | _ => false

/-- Whether a call makes a signal for a function of other signals. -/
def combines : Call → Bool
  | not _ | and .. | or .. | nand .. | xor .. | maj .. => true
  | _ => false

/-- All that a call can do to the nodes, inputs and outputs of a network. -/
structure Effect (c : Call) (net net' : Network) : Prop where
  consed : net'.HashConsed
  endures : Endures net net'
  inputs : net'.numInputs = net.numInputs + c.newInputs
  outputs : net'.numOutputs = net.numOutputs + c.newOutputs
  size : c.addsNodes = false → net'.size = net.size
  steady : c.substitutes = false → Steady net net'

end Call

/-- A call that makes gates only has their effect. -/
theorem Builds.effect (h : Builds net net') {c : Call} (inputs : c.newInputs = 0)
    (outputs : c.newOutputs = 0) (adds : c.addsNodes = true) : c.Effect net net' where
  consed := h.consed
  endures := h.grows.endures
  inputs := by rw [inputs, numInputs, h.inputs, Nat.add_zero, numInputs]
  outputs := by rw [outputs, numOutputs, h.outputs, Nat.add_zero, numOutputs]
  size none := by
    rw [adds] at none
    cases none
  steady _ := h.grows.steady

/-- A call that makes neither nodes nor outputs changes the nodes that there are. -/
theorem Reworked.effect (h : Reworked net net') (consed : net'.HashConsed) {c : Call}
    (inputs : c.newInputs = 0) (outputs : c.newOutputs = 0)
    (steady : c.substitutes = false → Steady net net') : c.Effect net net' where
  consed := consed
  endures := h.endures
  inputs := by rw [inputs, numInputs, h.inputs, Nat.add_zero, numInputs]
  outputs := by rw [outputs, h.numOutputs, Nat.add_zero]
  size _ := h.size
  steady := steady

/-- Conjunctions and majorities have a canonical form over their number of fanins only. -/
theorem arity_of_ofGate {functions : FunctionCache} {g : GateFunction} {fanins : List Signal}
    {c : Canonical} (fixed : ∀ f, g ≠ .table f) (h : Canonical.ofGate functions g fanins = .ok c) :
    functions.arity? g = some fanins.length ∧ fanins ≠ [] ∧ fanins.length ≤ maxFanins := by
  unfold Canonical.ofGate at h
  split at h
  · exact ⟨rfl, List.cons_ne_nil _ _, by simp [maxFanins]⟩
  · cases h
  · exact ⟨rfl, List.cons_ne_nil _ _, by simp [maxFanins]⟩
  · cases h
  · next f => exact absurd rfl (fixed f)

/-- A change of the scratch fields of a node. -/
structure Scratch (f : Node → Node) : Prop where
  kind : ∀ nd, (f nd).kind = nd.kind
  dead : ∀ nd, (f nd).dead = nd.dead
  fanout : ∀ nd, (f nd).fanout = nd.fanout

namespace Scratch

theorem id : Scratch id := ⟨fun _ => rfl, fun _ => rfl, fun _ => rfl⟩

theorem value (value : UInt32) : Scratch fun nd => { nd with value } :=
  ⟨fun _ => rfl, fun _ => rfl, fun _ => rfl⟩

theorem visited (visited : UInt32) : Scratch fun nd => { nd with visited } :=
  ⟨fun _ => rfl, fun _ => rfl, fun _ => rfl⟩

end Scratch

namespace HashConsed

/-- The invariants speak of the graph, the marks, the counts and the table only. -/
theorem of_sameGraph (consed : net.HashConsed) (graph : SameGraph net net')
    (live : net'.isLive = net.isLive) (fanout : net'.fanout = net.fanout)
    (table : net'.gateTable = net.gateTable) : net'.HashConsed where
  toWellFormed := graph.wellFormed consed.toWellFormed
  dead_isGate n hn dead :=
    graph.isGate.2 (consed.dead_isGate n (graph.size ▸ hn) (live ▸ dead))
  live_fanins := by
    rw [live, graph.slots]
    exact consed.live_fanins
  live_outputs := by
    rw [live, graph.outputs]
    exact consed.live_outputs
  counted := by
    rw [fanout, graph.references live]
    exact consed.counted
  entered key s hget := by
    obtain ⟨hlive, hc⟩ := consed.entered key s (table ▸ hget)
    exact ⟨live ▸ hlive, (graph.canonical s.node).trans hc⟩
  hashed n hlive gate := by
    obtain ⟨key, flip, hc, hget⟩ := consed.hashed n (live ▸ hlive) (graph.isGate.1 gate)
    exact ⟨key, flip, (graph.canonical n).trans hc, table ▸ hget⟩

/-- Callers may do with the scratch fields what they like. -/
theorem scratch (consed : net.HashConsed) {nodes : Array Node}
    (same : ∀ n : Nat, ∃ f, Scratch f ∧ nodes[n]? = net.nodes[n]?.map f) {c : Call}
    (inputs : c.newInputs = 0) (outputs : c.newOutputs = 0) : c.Effect net { net with nodes } := by
  have graph : SameGraph net { net with nodes } := by
    refine ⟨rfl, rfl, rfl, rfl, funext fun n => ?_⟩
    obtain ⟨f, scratch, hnode⟩ := same n
    simp only [kind?, hnode, Option.map_map, Function.comp_def, scratch.kind]
  have live : isLive { net with nodes } = net.isLive := by
    funext n
    obtain ⟨f, scratch, hnode⟩ := same n
    simp only [isLive, hnode, Option.any_map, scratch.dead]
  have fanout : Network.fanout { net with nodes } = net.fanout := by
    funext n
    obtain ⟨f, scratch, hnode⟩ := same n
    simp only [Network.fanout, hnode, Option.map_map, Function.comp_def, scratch.fanout]
  have reworked : Reworked net { net with nodes } := graph.reworked fun n hn => live ▸ hn
  exact reworked.effect (consed.of_sameGraph graph live fanout rfl) inputs outputs
    fun _ => graph.steady live

theorem modifyNode (consed : net.HashConsed) {f : Node → Node} (scratch : Scratch f) (n : Nat)
    {c : Call} (inputs : c.newInputs = 0) (outputs : c.newOutputs = 0) :
    c.Effect net (net.modifyNode n f) := by
  refine consed.scratch (fun m => ?_) inputs outputs
  rw [Array.getElem?_modify]
  split
  · exact ⟨f, scratch, rfl⟩
  · exact ⟨id, .id, by simp⟩

theorem mapNodes (consed : net.HashConsed) {f : Node → Node} (scratch : Scratch f) {c : Call}
    (inputs : c.newInputs = 0) (outputs : c.newOutputs = 0) : c.Effect net (net.mapNodes f) :=
  consed.scratch (fun n => ⟨f, scratch, getElem?_mapNodes net f n⟩) inputs outputs

/-- A conjunction or a majority over any number of signals.  A wrong number is a fault. -/
theorem ensures_hashCons (consed : net.HashConsed) {g : GateFunction} {fanins : List Signal}
    (hasGate : net.family.hasGate g = true) (fixed : ∀ f, g ≠ .table f)
    (operands : ∀ s ∈ fanins, net.Operand s) : Ensures (Builds net) net (hashCons g fanins) := by
  cases hform : Canonical.ofGate net.functions g fanins with
  | error cause =>
    refine .get_bind (.fault_bind fun c hc => ?_)
    cases hform.symm.trans hc
  | ok c =>
    obtain ⟨arity, nonempty, bounded⟩ := arity_of_ofGate fixed hform
    exact (consed.computes_gate hasGate arity nonempty bounded operands).ensures

theorem ensures_createTable (consed : net.HashConsed) (nodes : List Nat) (t : TruthTable) :
    Ensures (Builds net) net (createTable nodes t) := by
  by_cases family : net.family = .klut
  · cases checked : net.checkTable nodes t with
    | ok _ =>
      obtain ⟨hvars, bounded, live⟩ := checkTable_eq_ok.1 checked
      exact (consed.computes_createTable family hvars bounded live).ensures
    | error cause =>
      refine .requireFamily_bind fun _ => .get_bind (.refusal_bind consed.builds fun _ h => ?_)
      cases checked.symm.trans h
  · exact .requireFamily_bind fun h => absurd h family

theorem ensures_cloneGate (consed : net.HashConsed) (source : Network) (n : Nat)
    {fanins : List Signal} (operands : ∀ s ∈ fanins, net.Operand s) :
    Ensures (Builds net) net (cloneGate source n fanins) := by
  refine .refusal_bind consed.builds fun slots _ => ?_
  by_cases length : slots.length = fanins.length
  · simp only [length, ne_eq, not_true_eq_false, if_false]
    refine .get_bind ?_
    cases family : net.family with
    | aig => exact consed.ensures_hashCons (by rw [family]; rfl) (fun f h => by cases h) operands
    | mig => exact consed.ensures_hashCons (by rw [family]; rfl) (fun f h => by cases h) operands
    | klut => exact .fault_bind fun t _ => consed.ensures_createTable _ t
  · simp only [length, ne_eq, not_false_eq_true, if_true]
    exact .refuse consed.builds

theorem ensures_substitute (consed : net.HashConsed) (old : Nat) {new : Signal}
    (polarity : new.complemented = true → net.family.hasComplementedEdges = true) :
    Ensures (fun net' => net'.HashConsed ∧ Reworked net net') net (substitute old new) := by
  cases consed.substitute_outcome old polarity with
  | refused _ run => exact .of_refused run ⟨consed, .refl net⟩
  | cycle _ _ run => exact .of_fault run
  | done _ _ run substituted => exact .of_ok run ⟨substituted.consed, substituted.reworked⟩

theorem ensures_invertGate (consed : net.HashConsed) (n : Nat) :
    Ensures (fun net' => net'.HashConsed ∧ Reworked net net' ∧ Steady net net') net (invertGate n) := by
  have unchanged : net.HashConsed ∧ Reworked net net ∧ Steady net net := ⟨consed, .refl net, .refl net⟩
  refine .requireFamily_bind fun family => .get_bind ?_
  refine .refusal_bind unchanged fun _ checked => .fault_bind fun net' ok => .set ?_
  obtain ⟨live, gate⟩ := checkLiveGate_eq_ok.1 checked
  obtain ⟨net₁, ok₁, inverted⟩ := consed.inverted_eq_ok family live gate
  rw [ok] at ok₁
  cases ok₁
  exact ⟨inverted.consed, inverted.reworked, inverted.steady⟩

theorem operand_pair {a b : Signal} (h : ∀ s ∈ [a, b], net.Operand s) :
    net.Operand a ∧ net.Operand b :=
  ⟨h a List.mem_cons_self, h b (List.mem_cons_of_mem _ List.mem_cons_self)⟩

theorem ensures_input (consed : net.HashConsed) :
    Ensures (Call.input.Effect net) net createInput := by
  obtain ⟨s, net', run, consed', grows, inputs, outputs, -⟩ := consed.makes_createInput
  refine .of_ok run ⟨consed', grows.endures, ?_, ?_, fun none => (by cases none), fun _ => grows.steady⟩
  · rw [numInputs, inputs, List.length_append]
    rfl
  · rw [numOutputs, outputs]
    rfl

theorem ensures_output (consed : net.HashConsed) {s : Signal} (operand : net.Operand s) :
    Ensures ((Call.output s).Effect net) net (createOutput s) := by
  have grows := grows_withOutput net s
  refine .of_ok operand.createOutput_run ⟨consed.withOutput operand, grows.endures, rfl, ?_,
    fun _ => size_withOutput net s, fun _ => grows.steady⟩
  exact List.length_append

/-- A call that combines signals makes a signal for the result. -/
theorem computes_edit (consed : net.HashConsed) {c : Call} (combines : c.combines = true)
    (admissible : c.Admissible net) :
    ∃ (e : Edit Signal) (f : (Nat → Bool) → Bool), c.edit = discard e ∧ Computes net e f := by
  have operands := admissible.operands
  cases c with
  | not a =>
    exact ⟨_, _, rfl, consed.computes_createNot (operands a List.mem_cons_self).represents⟩
  | and a b =>
    obtain ⟨ha, hb⟩ := operand_pair operands
    exact ⟨_, _, rfl, consed.computes_createAnd ha.represents hb.represents⟩
  | or a b =>
    obtain ⟨ha, hb⟩ := operand_pair operands
    exact ⟨_, _, rfl, consed.computes_createOr ha.represents hb.represents⟩
  | nand a b =>
    obtain ⟨ha, hb⟩ := operand_pair operands
    exact ⟨_, _, rfl, consed.computes_createNand ha.represents hb.represents⟩
  | xor a b =>
    obtain ⟨ha, hb⟩ := operand_pair operands
    exact ⟨_, _, rfl, consed.computes_createXor ha.represents hb.represents⟩
  | maj a b c =>
    obtain ⟨ha, hbc⟩ := List.forall_mem_cons.1 operands
    obtain ⟨hb, hc⟩ := operand_pair hbc
    exact ⟨_, _, rfl, consed.computes_createMaj ha.represents hb.represents hc.represents⟩
  | input | output | xor3 | table | clone | substitute | invert | setValue | setVisited | clearValues
  | clearVisited => cases combines

/-- One call at a time. -/
theorem ensures_edit (consed : net.HashConsed) {c : Call} (admissible : c.Admissible net) :
    Ensures (c.Effect net) net c.edit := by
  have operands := admissible.operands
  cases c with
  | input => exact .discard consed.ensures_input
  | output s => exact .discard (consed.ensures_output (operands s List.mem_cons_self))
  | not | and | or | nand | xor | maj =>
    obtain ⟨e, f, edit, made⟩ := consed.computes_edit rfl admissible
    exact edit ▸ .discard (made.ensures.mono fun h => h.effect rfl rfl rfl)
  | xor3 a b c =>
    by_cases family : net.family = .klut
    · have made := consed.computes_createXor3 family fun n hn =>
        (operands (.ofNode n) (List.mem_map_of_mem (f := Signal.ofNode) hn)).live
      exact .discard (made.ensures.mono fun h => h.effect rfl rfl rfl)
    · exact .discard (.requireFamily_bind fun h => absurd h family)
  | table nodes t =>
    exact .discard ((consed.ensures_createTable nodes t).mono fun h => h.effect rfl rfl rfl)
  | clone source n fanins =>
    have made := consed.ensures_cloneGate source n operands
    exact .discard (made.mono fun h => h.effect rfl rfl rfl)
  | substitute old new =>
    have done := consed.ensures_substitute old (admissible.polarity new rfl)
    exact done.mono fun ⟨consed', reworked⟩ => reworked.effect consed' rfl rfl fun h => by cases h
  | invert n =>
    exact (consed.ensures_invertGate n).mono fun ⟨consed', reworked, steady⟩ =>
      reworked.effect consed' rfl rfl fun _ => steady
  | setValue n value =>
    exact .get_bind (.fault_bind fun _ _ => .set (consed.modifyNode (.value value) n rfl rfl))
  | setVisited n visited =>
    exact .get_bind (.fault_bind fun _ _ => .set (consed.modifyNode (.visited visited) n rfl rfl))
  | clearValues => exact .of_ok rfl (consed.mapNodes (.value 0) rfl rfl)
  | clearVisited => exact .of_ok rfl (consed.mapNodes (.visited 0) rfl rfl)

end HashConsed

section empty

variable (family : Family) (n : Nat)

theorem kind?_empty : (empty family).kind? n = family.constants[n]?.map .constant := by
  simp [kind?, empty, Function.comp_def]

theorem isLive_empty : (empty family).isLive n = decide (n < (empty family).size) := by
  simp only [isLive, empty, size, List.getElem?_toArray, List.getElem?_map, List.size_toArray,
    List.length_map]
  by_cases h : n < family.constants.length <;> simp [h]

theorem fanout_empty : (empty family).fanout n = 0 := by
  simp only [fanout, empty, List.getElem?_toArray, List.getElem?_map]
  cases family.constants[n]? <;> rfl

theorem not_isGate_empty : ¬ (empty family).IsGate n := by
  rintro ⟨g, fanins, hkind⟩
  rw [kind?_empty] at hkind
  cases hvalue : family.constants[n]? <;> simp [hvalue] at hkind

theorem slots_empty : (empty family).slots n = [] := by
  apply List.eq_nil_iff_forall_not_mem.2
  intro s hs
  exact not_isGate_empty family n (isGate_of_mem_slots hs)

theorem not_isFanin_empty (m : Nat) : ¬ (empty family).IsFanin m n :=
  fun h => not_isGate_empty family n h.isGate

theorem wellFormed_empty : (empty family).WellFormed where
  constant_iff n value := by
    rw [kind?_empty]
    simp [empty]
  input_iff n := by
    rw [kind?_empty]
    simp [empty]
  nodup_inputs := List.nodup_nil
  fits n g fanins hkind := absurd ⟨g, fanins, hkind⟩ (not_isGate_empty family n)
  outputs s hs := absurd hs List.not_mem_nil
  functions := by
    unfold empty
    split
    · exact FunctionCache.wellFormed_seeded
    · exact FunctionCache.wellFormed_empty
  seeded h := by
    simp only [empty] at h ⊢
    rw [if_pos h]
    exact .refl _
  acyclic n hcycle := by
    obtain ⟨m, hfanin, -⟩ := Relation.TransGen.head'_iff.1 hcycle
    exact not_isFanin_empty family m n hfanin

theorem hashConsed_empty : (empty family).HashConsed where
  toWellFormed := wellFormed_empty family
  dead_isGate n hn dead := by
    rw [isLive_empty] at dead
    cases dead.symm.trans (decide_eq_true hn)
  live_fanins n _ s hs := by
    rw [slots_empty] at hs
    cases hs
  live_outputs s hs := absurd hs List.not_mem_nil
  counted n := by
    rw [fanout_empty, eq_comm, references_eq_zero_iff]
    refine ⟨fun p _ s hs => ?_, fun s hs => absurd hs List.not_mem_nil⟩
    rw [slots_empty] at hs
    cases hs
  entered key s hget := by
    cases (GateTable.get?_empty key).symm.trans hget
  hashed n _ gate := absurd gate (not_isGate_empty family n)

end empty

/-- The invariants hold after every call of every run. -/
theorem Reachable.hashConsed (h : net.Reachable) : net.HashConsed := by
  induction h with
  | empty family => exact hashConsed_empty family
  | call _ admissible leads ih => exact (ih.ensures_edit admissible _ leads).consed

/-- Calls lead from the first network to the second. -/
def Later : Network → Network → Prop :=
  Relation.ReflTransGen fun net net' => ∃ c : Call, c.Admissible net ∧ Leads c.edit net net'

theorem Reachable.later (h : net.Reachable) (later : net.Later net') : net'.Reachable := by
  induction later with
  | refl => exact h
  | tail _ call ih =>
    obtain ⟨c, admissible, leads⟩ := call
    exact .call ih admissible leads

/-- What a call from a network that calls lead to does. -/
theorem Reachable.effect (h : net.Reachable) {c : Call} (admissible : c.Admissible net)
    (leads : Leads c.edit net net') : c.Effect net net' :=
  h.hashConsed.ensures_edit admissible _ leads

/-- Outputs are never taken away. -/
theorem Reachable.numOutputs_le (h : net.Reachable) (later : net.Later net') :
    net.numOutputs ≤ net'.numOutputs := by
  induction later with
  | refl => exact Nat.le_refl _
  | tail before call ih =>
    obtain ⟨c, admissible, leads⟩ := call
    have effect := (h.later before).effect admissible leads
    exact Nat.le_trans ih (effect.outputs ▸ Nat.le_add_right _ _)

section decidable

instance (s : Signal) : Decidable (net.Operand s) :=
  decidable_of_iff (net.isLive s.node = true ∧
      (s.complemented = true → net.family.hasComplementedEdges = true))
    ⟨fun ⟨live, polarity⟩ => ⟨live, polarity⟩, fun h => ⟨h.live, h.polarity⟩⟩

instance (c : Call) : Decidable (c.Admissible net) :=
  decidable_of_iff ((∀ s ∈ c.operands, net.Operand s) ∧
      ∀ s ∈ c.target?, s.complemented = true → net.family.hasComplementedEdges = true)
    ⟨fun ⟨operands, polarity⟩ => ⟨operands, polarity⟩, fun h => ⟨h.operands, h.polarity⟩⟩

end decidable

end LogicNet.Network
