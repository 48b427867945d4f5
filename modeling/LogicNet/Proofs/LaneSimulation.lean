import LogicNet.Proofs.Simulation
import LogicNet.Proofs.Workspaces

/-! # Simulation of many patterns at once

One word per input holds 64 patterns, and the tables of the variables hold all of them.  On every lane their
simulation gives the outputs the values that the simulation of that pattern gives them.  Where the tables
would have too many variables, no output gets one.
-/

namespace LogicNet

open LaneValue TruthTable Workspace

/-- The pattern on a lane of words. -/
def wordPattern (words : List Word) (lane : Nat) : List Bool := words.map (·.getLsbD lane)

/-- The pattern on a row of tables over `n` variables. -/
def rowPattern (n row : Nat) : List Bool := (List.range n).map row.testBit

theorem length_wordPattern (words : List Word) (lane : Nat) :
    (wordPattern words lane).length = words.length := List.length_map _

theorem length_rowPattern (n row : Nat) : (rowPattern n row).length = n := by simp [rowPattern]

namespace Network

section supplies

theorem supplies_ofWords (words : List Word) :
    (Stimulus.ofWords words).Supplies wordLanes fun k => ofPattern (wordPattern words k) where
  constant value :=
    ⟨_, rfl, reads_word.2 ⟨rfl, fun k hk => by cases value <;> simp [hk]⟩⟩
  input i hi := by
    have hlt : i < words.length := hi
    refine ⟨words[i], ?_, reads_word.2 ⟨rfl, fun k _ => ?_⟩⟩
    · simp [Stimulus.ofWords, Stimulus.ofList, hlt]
    · simp [ofPattern, wordPattern, hlt]

theorem supplies_allRows {n : Nat} (hn : n ≤ maxVars) :
    (Stimulus.allRows n).Supplies (2 ^ n) fun r => ofPattern (rowPattern n r) where
  constant value := by
    refine ⟨.const n value, if_pos hn, reads_table.2 ⟨rfl, fun r hr => ?_⟩⟩
    have inRange : r < 2 ^ n := hr
    cases value <;> simp [bit, const, inRange]
  input i hi := by
    have hlt : i < n := hi
    refine ⟨.var n i, ?_, reads_table.2 ⟨rfl, fun r hr => ?_⟩⟩
    · exact (if_neg (Nat.not_le.2 hlt)).trans (if_pos hn)
    · have inRange : r < 2 ^ n := hr
      rw [bit_var i inRange]
      simp [ofPattern, rowPattern, hlt]

end supplies

variable {net : Network} {w : Nat} {patterns : Nat → List Bool}

/-- On every lane, the outputs get the values that they get from the pattern there. -/
theorem WellFormed.exists_simulate_lanes {V : Type} [LaneValue V] [LawfulLanes V]
    (wf : net.WellFormed) {stimulus : Stimulus V}
    (supplies : stimulus.Supplies w fun k => ofPattern (patterns k))
    (count : stimulus.numInputs = net.numInputs)
    (lengths : ∀ k, (patterns k).length = net.numInputs) (bit : V → Nat → Bool)
    (bits : ∀ {v f}, Reads v w f → ∀ k < w, bit v k = f k) :
    ∃ outputs, net.simulate stimulus = .ok outputs ∧ (∀ v ∈ outputs, laneCount v = w) ∧
      ∀ k < w, net.simulate (.ofPattern (patterns k)) = .ok (outputs.map (bit · k)) := by
  obtain ⟨outputs, ok, read⟩ := wf.exists_simulate_eq_ok supplies count
  refine ⟨outputs, ok, read.laneCount_eq, fun k hk => ?_⟩
  rw [wf.simulate_eq_ok (lengths k), outputValues]
  refine congrArg Except.ok (List.forall₂_eq_eq_eq ▸ List.forall₂_map_right_iff.2 ?_)
  exact List.forall₂_map_left_iff.2 (read.imp fun s v hv => (bits hv k hk).symm)

theorem simulate_of_simulateNodes_eq_error {V : Type} [LaneValue V] {stimulus : Stimulus V} {e : Failure}
    (error : net.simulateNodes stimulus = .error e) : net.simulate stimulus = .error e := by
  rw [simulate, error, error_bind]

theorem simulate_of_outputs_eq_nil {V : Type} [LaneValue V] {stimulus : Stimulus V}
    (outputs : net.outputs = []) {values : Array (Option V)}
    (ok : net.simulateNodes stimulus = .ok values) : net.simulate stimulus = .ok [] := by
  rw [simulate, ok, ok_bind, outputs]
  rfl

/-- Without outputs, no node gets a value. -/
theorem WellFormed.simulateNodes_of_outputs_eq_nil {V : Type} [LaneValue V] (wf : net.WellFormed)
    (stimulus : Stimulus V) (count : stimulus.numInputs = net.numInputs) (outputs : net.outputs = [])
    (x : Nat → Nat → Bool) : ∃ values, net.simulateNodes stimulus = .ok values ∧
      Evaluated net w x net.InOutputCone values := by
  have empty : ∀ n, ¬ net.InOutputCone n := by
    rintro n ⟨s, hs, -⟩
    rw [outputs] at hs
    cases hs
  obtain ⟨seen, order, -, hseen⟩ := wf.exists_topologicalOrder
  obtain rfl : seen = [] := List.eq_nil_iff_forall_not_mem.2 fun n hn => empty n ((hseen n).1 hn)
  exact ⟨_, simulateNodes_eq_foldlM count order,
    (Evaluated.start net w x).congr fun n => iff_of_false not_false (empty n)⟩

section tables

/-- A node without fanins has no table over too many variables. -/
theorem WellFormed.simulateNode_allRows_eq_error {n : Nat} (wf : net.WellFormed)
    (many : maxVars < net.numInputs) (hn : n < net.size) (source : ∀ m, ¬ net.IsFanin m n)
    (values : Array (Option TruthTable)) :
    net.simulateNode (.allRows net.numInputs) values n
      = .error (.fault (.tooManyVariables net.numInputs maxVars)) := by
  have tooMany : ¬ net.numInputs ≤ maxVars := Nat.not_le.2 many
  rcases hkind : net.kind? n with _ | (value | _ | ⟨g, l⟩)
  · exact absurd hn (Nat.not_lt.2 (kind?_eq_none.1 hkind))
  · have refused : (Stimulus.allRows net.numInputs).constant value
        = .error (.tooManyVariables net.numInputs maxVars) := if_neg tooMany
    rw [simulateNode_of_constant hkind, refused]
    rfl
  · have refused : (Stimulus.allRows net.numInputs).input (net.inputs.idxOf n)
        = .error (.tooManyVariables net.numInputs maxVars) :=
      (if_neg (Nat.not_le.2 (wf.idxOf_lt hkind))).trans (if_neg tooMany)
    rw [wf.simulateNode_of_input hkind, refused]
    rfl
  · obtain ⟨s, rest, hl⟩ := List.exists_cons_of_ne_nil (wf.fits n g l hkind).nonempty
    exact absurd ⟨s, (slots_of_kind? hkind).symm ▸ hl ▸ List.mem_cons_self, rfl⟩ (source s.node)

/-- Over too many variables, already the first node in topological order has no table. -/
theorem WellFormed.simulateNodes_allRows_eq_error (wf : net.WellFormed)
    (many : maxVars < net.numInputs) (outputs : net.outputs ≠ []) :
    net.simulateNodes (.allRows net.numInputs)
      = .error (.fault (.tooManyVariables net.numInputs maxVars)) := by
  obtain ⟨seen, order, ordered, hseen⟩ := wf.exists_topologicalOrder
  obtain ⟨s, others, houtputs⟩ := List.exists_cons_of_ne_nil outputs
  have root : s.node ∈ seen := (hseen _).2 ⟨s, houtputs ▸ List.mem_cons_self, .refl⟩
  obtain ⟨n, rest, listed, source⟩ := ordered.exists_first (List.ne_nil_of_mem root)
  have hn : n < net.size :=
    wf.lt_size_of_inOutputCone ((hseen n).1 (List.mem_reverse.1 (listed ▸ List.mem_cons_self)))
  rw [simulateNodes_eq_foldlM rfl order, listed, List.foldlM_cons,
    wf.simulateNode_allRows_eq_error many hn source, error_bind]

/-- The tables of the outputs have one variable per input, and on each row the values that the outputs
get from its pattern. -/
theorem WellFormed.exists_outputTables_eq_ok (wf : net.WellFormed)
    (fits : net.numInputs ≤ maxVars ∨ net.outputs = []) :
    ∃ outputs, net.outputTables = .ok outputs ∧ (∀ t ∈ outputs, t.numVars = net.numInputs) ∧
      ∀ r < 2 ^ net.numInputs,
        net.simulate (.ofPattern (rowPattern net.numInputs r)) = .ok (outputs.map (·.bit r)) := by
  rcases fits with few | none
  · obtain ⟨outputs, ok, lanes, rows⟩ := wf.exists_simulate_lanes (supplies_allRows few) rfl
      (length_rowPattern net.numInputs) TruthTable.bit fun hv r hr => by
        obtain ⟨numRows, bits⟩ := reads_table.1 hv
        exact bits r (numRows ▸ hr)
    exact ⟨outputs, ok, fun t ht => Nat.pow_right_injective (Nat.le_refl 2) (lanes t ht), rows⟩
  · obtain ⟨values, ok, -⟩ := wf.simulateNodes_of_outputs_eq_nil (w := 0)
      (.allRows net.numInputs) rfl none fun _ _ => false
    refine ⟨[], simulate_of_outputs_eq_nil none ok, fun t ht => absurd ht List.not_mem_nil, fun r _ => ?_⟩
    rw [wf.simulate_eq_ok (length_rowPattern net.numInputs r), outputValues, none]
    rfl

end tables

/-- Exactly the nodes in the cones of the outputs get a value, on lane `k` theirs under `x k`. -/
def SimulatesCones {V : Type} [LaneValue V] (net : Network) (stimulus : Stimulus V) (w : Nat)
    (x : Nat → Nat → Bool) : Prop :=
  ∃ values, net.simulateNodes stimulus = .ok values ∧ Evaluated net w x net.InOutputCone values

/-- The simulations of a network agree with the values of its nodes and with each other. -/
structure ExactlySimulated (net : Network) : Prop where
  refused : ∀ (V : Type) [LaneValue V] (stimulus : Stimulus V), stimulus.numInputs ≠ net.numInputs →
    net.simulateNodes stimulus
      = .error (.refused (.inputCountMismatch net.numInputs stimulus.numInputs)) ∧
    net.simulate stimulus = .error (.refused (.inputCountMismatch net.numInputs stimulus.numInputs))
  recursive : ∀ x n, net.eval x n = net.equation x (net.eval x) n
  patterns : ∀ pattern : List Bool, pattern.length = net.numInputs →
    net.SimulatesCones (.ofPattern pattern) 1 (fun _ => ofPattern pattern) ∧
    net.simulate (.ofPattern pattern)
      = .ok (net.outputs.map fun s => net.eval (ofPattern pattern) s.node ^^ s.complemented)
  words : ∀ words : List Word, words.length = net.numInputs →
    net.SimulatesCones (.ofWords words) wordLanes (fun k => ofPattern (wordPattern words k)) ∧
    ∃ outputs, net.simulate (.ofWords words) = .ok outputs ∧ ∀ k < wordLanes,
      net.simulate (.ofPattern (wordPattern words k)) = .ok (outputs.map (·.getLsbD k))
  tables : net.numInputs ≤ maxVars ∨ net.outputs = [] →
    net.SimulatesCones (.allRows net.numInputs) (2 ^ net.numInputs)
      (fun r => ofPattern (rowPattern net.numInputs r)) ∧
    ∃ outputs, net.outputTables = .ok outputs ∧ (∀ t ∈ outputs, t.numVars = net.numInputs) ∧
      ∀ r < 2 ^ net.numInputs,
        net.simulate (.ofPattern (rowPattern net.numInputs r)) = .ok (outputs.map (·.bit r))
  pastCapacity : maxVars < net.numInputs → net.outputs ≠ [] →
    net.simulateNodes (.allRows net.numInputs)
      = .error (.fault (.tooManyVariables net.numInputs maxVars)) ∧
    net.outputTables = .error (.fault (.tooManyVariables net.numInputs maxVars))

end Network

variable {w : Workspace} {v : View} {net : Network}

/-- Every network is simulated exactly, unless its tables would have too many variables. -/
theorem Workspace.Reachable.simulation_exact (hw : w.Reachable)
    (hnet : w.networks[v.networkId]? = some net) : net.ExactlySimulated := by
  have wf := (hw.sound _ net hnet).hashConsed.toWellFormed
  refine ⟨fun V _ stimulus differ => ?_, fun x n => Network.eval_eq_equation wf.acyclic wf.closed x n,
    fun pattern length => ?_, fun words length => ?_, fun fits => ⟨?_, wf.exists_outputTables_eq_ok fits⟩,
    fun many outputs => ?_⟩
  · have refused : net.simulateNodes stimulus
        = .error (.refused (.inputCountMismatch net.numInputs stimulus.numInputs)) := if_pos differ
    exact ⟨refused, Network.simulate_of_simulateNodes_eq_error refused⟩
  · exact ⟨wf.simulateNodes_eq_ok (Network.supplies_ofPattern pattern) length, wf.simulate_eq_ok length⟩
  · have supplies := Network.supplies_ofWords words
    have lengths (k : Nat) := (length_wordPattern words k).trans length
    obtain ⟨outputs, ok, -, lanes⟩ := wf.exists_simulate_lanes supplies length lengths
      BitVec.getLsbD fun hv => (reads_word.1 hv).2
    exact ⟨wf.simulateNodes_eq_ok supplies length, outputs, ok, lanes⟩
  · rcases fits with few | none
    · exact wf.simulateNodes_eq_ok (Network.supplies_allRows few) rfl
    · exact wf.simulateNodes_of_outputs_eq_nil _ rfl none _
  · have refused := wf.simulateNodes_allRows_eq_error many outputs
    exact ⟨refused, Network.simulate_of_simulateNodes_eq_error refused⟩

section sample

/-- The words hold all patterns of the three inputs of the sample on their lowest lanes. -/
theorem sample_simulated : sample.Reachable ∧ sample.networks[0]? = some sampleNetwork ∧
    ∃ outputs, sampleNetwork.simulate (.ofWords [0xaa, 0xcc, 0xf0]) = .ok outputs ∧
      sampleNetwork.simulate (.ofPattern [true, true, false]) = .ok (outputs.map (·.getLsbD 3)) := by
  have exactly := reachable_sample.simulation_exact (v := .network 0) getElem?_sample
  obtain ⟨-, outputs, ok, lanes⟩ := exactly.words [0xaa, 0xcc, 0xf0] (by decide +kernel)
  exact ⟨reachable_sample, getElem?_sample, outputs, ok, lanes 3 (by decide)⟩

/-- A network with more inputs than a table can have variables. -/
def wideActions : List Action :=
  let v := View.network 0
  .make .aig :: List.replicate 61 (.call v .input) ++ [.call v (.output (.ofNode 61))]

theorem outputTables_past_capacity : ∃ (w : Workspace) (net : Network), w.Reachable ∧
    w.networks[0]? = some net ∧ net.numInputs < 64 ∧
    net.outputTables = .error (.fault (.tooManyVariables 61 60)) := by
  have done : ((Workspace.empty.run? wideActions).any fun w => w.networks[0]?.any fun net =>
      decide (net.numInputs = 61 ∧ net.outputs ≠ [])) = true := by decide +kernel
  obtain ⟨w, run, ends⟩ := (Option.any_eq_true _ _).1 done
  obtain ⟨net, hnet, ends⟩ := (Option.any_eq_true _ _).1 ends
  obtain ⟨inputs, outputs⟩ := of_decide_eq_true ends
  have reachable := Reachable.of_run? .empty run
  have wf := (reachable.sound _ net hnet).hashConsed.toWellFormed
  have many : maxVars < net.numInputs := by rw [inputs]; decide
  have refused := wf.simulateNodes_allRows_eq_error many outputs
  have tables : net.outputTables = _ := Network.simulate_of_simulateNodes_eq_error refused
  rw [inputs] at tables
  exact ⟨w, net, reachable, hnet, inputs ▸ by decide, tables⟩

end sample

end LogicNet
