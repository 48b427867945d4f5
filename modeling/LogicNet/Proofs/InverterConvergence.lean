import LogicNet.Proofs.InverterOptimization

/-! # Convergence of the pass over inverters

An unlimited run ends at a local optimum, after at most one more round than there were complemented edges.
Another run finds nothing to do and leaves the network as it is.
-/

namespace LogicNet

variable {net net' net'' : Network} {index : FanoutIndex} {g : Nat → Bool} {p : InverterPass}
  {options : InverterOptions} {w : Workspace} {v : View}

namespace Network

/-- The networks agree in all nodes with their counts and marks, in the outputs and in the table. -/
structure SameStore (net net' : Network) : Prop where
  graph : SameGraph net net'
  live : net'.isLive = net.isLive
  fanout : net'.fanout = net.fanout
  table : net'.gateTable.get? = net.gateTable.get?

theorem SameGraph.symm (h : SameGraph net net') : SameGraph net' net :=
  ⟨h.family.symm, h.inputs.symm, h.outputs.symm, h.functions.symm, h.kind?.symm⟩

/-- An entry of a coherent table is that of a live gate, which has one in every table that is complete. -/
theorem HashConsed.get?_of_sameGraph (consed : net'.HashConsed) (coherent : net.Coherent)
    (graph : SameGraph net net') (live : net'.isLive = net.isLive) {key : GateKey} {s : Signal}
    (h : net.gateTable.get? key = some s) : net'.gateTable.get? key = some s := by
  obtain ⟨hlive, form⟩ := coherent.entered key s h
  obtain ⟨fn, fanins, hkind, -⟩ := canonical_eq_ok.1 form
  obtain ⟨key', flip, form', h'⟩ := consed.hashed s.node ((congrFun live s.node).trans hlive)
    ⟨fn, fanins, (congrFun graph.kind? s.node).trans hkind⟩
  rw [graph.canonical, form] at form'
  cases form'
  exact h'

/-- The graph of a hash-consed network determines its counts and its table. -/
theorem HashConsed.sameStore (consed : net.HashConsed) (consed' : net'.HashConsed)
    (graph : SameGraph net net') (live : net'.isLive = net.isLive) : SameStore net net' where
  graph := graph
  live := live
  fanout := by
    funext n
    rw [consed'.counted, consed.counted, graph.references live]
  table := by
    funext key
    refine Option.ext fun s => ⟨fun h => ?_, fun h => ?_⟩
    · exact consed.get?_of_sameGraph consed'.toCoherent graph.symm live.symm h
    · exact consed'.get?_of_sameGraph consed.toCoherent graph live h

/-- Where the same gates are inverted, the networks are the same. -/
theorem Repolarized.sameStore (h : Repolarized net g net') (h' : Repolarized net g net'') :
    SameStore net' net'' := by
  refine h.consed.sameStore h'.consed ⟨?_, ?_, ?_, ?_, ?_⟩ (h'.live.trans h.live.symm)
  · exact h'.family.trans h.family.symm
  · exact h'.inputs.trans h.inputs.symm
  · exact h'.outputs.trans h.outputs.symm
  · exact h'.functions.trans h.functions.symm
  · funext n
    rw [h'.kind?, h.kind?]

open InverterPass

/-- No inversion of a single gate leaves fewer complemented edges. -/
theorem invertGate_of_locallyOptimal (same : Repolarized net g net') (family : net.family = .mig)
    (optimal : LocallyOptimal net g) {n : Nat} (hn : n ∈ net'.liveGates) :
    ∃ net'', (invertGate n).run net' = .ok () net'' ∧
      net'.countComplementedEdges ≤ net''.countComplementedEdges := by
  obtain ⟨live, gate⟩ := mem_liveGates.1 hn
  obtain ⟨net'', run, inverted⟩ := same.consed.invertGate_run (same.family.trans family) live gate
  refine ⟨net'', run, ?_⟩
  rw [same.liveGates] at hn
  obtain ⟨live, gate⟩ := mem_liveGates.1 hn
  have change := same.edgesRemoved_sub (same.inverted live gate inverted)
  have le := optimal n hn
  omega

/-- A pass may be taken to have begun before the inversions that were made already. -/
theorem Repolarized.tracks_start (same : Repolarized net g net') : Tracks net g (.start net') where
  polarities := same
  outputGain n hn := (Tracks.start same.consed).outputGain n (same.size.symm ▸ hn)

/-- Where a round changes nothing, a run changes nothing. -/
theorem optimizeInverters_of_settled (settled : Settled net index options.twoLevel g)
    (unlimited : options.maxRounds = none) (same : Repolarized net g net')
    (family : net.family = .mig) : ∃ net'',
      (optimizeInverters index options).run net' = .ok { rounds := 1 } net'' ∧ SameStore net' net'' := by
  have bound : roundBound options net.liveGates = 2 ^ net.liveGates.length + 1 := by
    rw [roundBound, unlimited]
  obtain ⟨p, run, tracks, stats⟩ :=
    settled.runRounds_run unlimited same.tracks_start (2 ^ net.liveGates.length)
  have nothing : p.stats = { rounds := 1 } := stats.trans (InverterStats.zero_add _)
  have unchanged := same.edgesRemoved_sub tracks.polarities
  rw [← bound, ← same.liveGates] at run
  refine ⟨p.net, ?_, same.sameStore tracks.polarities⟩
  rw [← nothing]
  refine optimizeInverters_of_ran (same.family.trans family) run ?_
  rw [nothing]
  change (0 : Int) = _
  omega

end Network

open Network in
/-- Unlimited runs through a view whose fanout index is current: the first one ends at a local optimum, the
second one does nothing. -/
theorem Workspace.Reachable.inverters_converge (reachable : w.Reachable) (twoLevel : Bool) {id : Nat}
    (hnet : w.networks[v.networkId]? = some net) (family : net.family = .mig)
    (hid : v.indexIds.getLast? = some id) (hindex : w.indexes[id]? = some index)
    (current : index.Current net) : ∃ stats net' net'',
      (v.optimizeInverters { twoLevel, maxRounds := none }).run w
        = .ok stats { w with networks := w.networks.setIfInBounds v.networkId net' } ∧
      stats.rounds ≤ net.countComplementedEdges + 1 ∧
      (∀ n ∈ net'.liveGates, ∃ inverted, (invertGate n).run net' = .ok () inverted ∧
        net'.countComplementedEdges ≤ inverted.countComplementedEdges) ∧
      (v.optimizeInverters { twoLevel, maxRounds := none }).run
          { w with networks := w.networks.setIfInBounds v.networkId net' }
        = .ok { totalGain := 0, numInvertedGates := 0, oneLevelMoves := 0, twoLevelMoves := 0, rounds := 1 }
            { w with networks := w.networks.setIfInBounds v.networkId net'' } ∧
      SameStore net' net'' := by
  let options : InverterOptions := { twoLevel, maxRounds := none }
  have consed : net.HashConsed := (reachable.sound _ net hnet).hashConsed
  obtain ⟨g, p, run, ran, gain⟩ := optimizeInverters_ran ⟨consed, family, current⟩ options
  have same := ran.tracks.polarities
  have settled := ran.settled rfl
  obtain ⟨net'', run', unchanged⟩ := optimizeInverters_of_settled settled rfl same family
  have inBounds : v.networkId < w.networks.size := (Array.getElem?_eq_some_iff.1 hnet).1
  refine ⟨p.stats, p.net, net'', ?_, ?_, ?_, ?_, unchanged⟩
  · rw [View.optimizeInverters, Edit.run_bind_ok (View.currentIndex_run hid hindex)]
    exact View.edit_run hnet run
  · have rounds := ran.rounds
    have removed := same.edgesRemoved_eq
    rw [edgesRemoved_none] at rounds
    change (p.stats.rounds : Int) ≤ (0 : Nat) + _ + 1 at rounds
    omega
  · exact fun n => invertGate_of_locallyOptimal same family settled.optimal
  · let w' : Workspace := { w with networks := w.networks.setIfInBounds v.networkId p.net }
    have hnet' : w'.networks[v.networkId]? = some p.net := by simp [w', inBounds]
    rw [View.optimizeInverters, Edit.run_bind_ok (View.currentIndex_run (w := w') hid hindex)]
    refine (View.edit_run hnet' run').trans ?_
    simp only [w', Array.setIfInBounds_setIfInBounds]

section sample

open Workspace Network

/-- The pass over the sample, which has complemented edges to remove. -/
theorem sample_inverters_converge : sampleIndexed.Reachable ∧
    sampleIndexed.networks[0]? = some sampleNetwork ∧ sampleNetwork.family = .mig ∧
    sampleIndexed.indexes[0]? = some (.ofNetwork sampleNetwork) ∧
    (FanoutIndex.ofNetwork sampleNetwork).Current sampleNetwork ∧
    0 < sampleNetwork.countComplementedEdges ∧ ∃ stats net' net'',
      ((View.fanout (.network 0) 0).optimizeInverters { twoLevel := true, maxRounds := none }).run
          sampleIndexed
        = .ok stats { sampleIndexed with networks := sampleIndexed.networks.setIfInBounds 0 net' } ∧
      stats.rounds ≤ sampleNetwork.countComplementedEdges + 1 ∧
      (∀ n ∈ net'.liveGates, ∃ inverted, (invertGate n).run net' = .ok () inverted ∧
        net'.countComplementedEdges ≤ inverted.countComplementedEdges) ∧
      ((View.fanout (.network 0) 0).optimizeInverters { twoLevel := true, maxRounds := none }).run
          { sampleIndexed with networks := sampleIndexed.networks.setIfInBounds 0 net' }
        = .ok { totalGain := 0, numInvertedGates := 0, oneLevelMoves := 0, twoLevelMoves := 0, rounds := 1 }
            { sampleIndexed with networks := sampleIndexed.networks.setIfInBounds 0 net'' } ∧
      SameStore net' net'' := by
  have family : sampleNetwork.family = .mig := by decide +kernel
  have indexed : sampleIndexed.indexes[0]? = some (.ofNetwork sampleNetwork) := by decide +kernel
  have current := FanoutIndex.current_ofNetwork sampleNetwork
  exact ⟨reachable_sampleIndexed, getElem?_sampleIndexed, family, indexed, current, by decide +kernel,
    reachable_sampleIndexed.inverters_converge (v := .fanout (.network 0) 0) true getElem?_sampleIndexed
      family rfl indexed current⟩

end sample

end LogicNet
