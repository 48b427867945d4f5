import LogicNet.Proofs.HeldViews
import LogicNet.Proofs.InverterRounds

/-! # Optimizing inverters

Through any view with a current index the pass succeeds.  All outputs keep their functions, the reported gain
is the change in the number of complemented edges, and nothing but polarities is changed.
-/

namespace LogicNet

variable {net net' : Network} {index : FanoutIndex} {f : Nat → Bool} {w : Workspace} {v : View}

theorem FanoutIndex.current_ofNetwork (net : Network) : (FanoutIndex.ofNetwork net).Current net :=
  fun _ hn => .of_eq (fanout_ofNetwork hn)

namespace Network

/-- What is left of a node without the polarities of its fanins. -/
def skeleton? (net : Network) (n : Nat) : Option NodeKind :=
  (net.kind? n).map (NodeKind.mapFanins fun s => .ofNode s.node)

/-- The networks differ in polarities at most. -/
structure SameUpToPolarities (net net' : Network) : Prop where
  size : net'.size = net.size
  skeleton : net'.skeleton? = net.skeleton?
  live : net'.isLive = net.isLive
  inputs : net'.inputs = net.inputs
  drivers : net'.outputs.map Signal.node = net.outputs.map Signal.node
  fanout : net'.fanout = net.fanout

theorem Repolarized.sameUpToPolarities (h : Repolarized net f net') : SameUpToPolarities net net' where
  size := h.size
  skeleton := by
    funext n
    rw [skeleton?, skeleton?, h.kind?, Option.map_map]
    congr 1
    funext kind
    rw [Function.comp_apply, NodeKind.mapFanins_mapFanins]
    congr 1
    funext s
    rw [Function.comp_apply, repolarize_node]
  live := h.live
  inputs := h.inputs
  drivers := by
    rw [h.outputs, List.map_map]
    rfl
  fanout := h.fanout

open InverterPass

/-- The pass as a whole reports what its rounds have removed. -/
theorem optimizeInverters_of_ran {options : InverterOptions} {p : InverterPass}
    (family : net.family = .mig)
    (run : (runRounds index options net.liveGates (roundBound options net.liveGates)).run (.start net)
      = .ok () p)
    (gain : p.stats.totalGain = net.countComplementedEdges - p.net.countComplementedEdges) :
    (optimizeInverters index options).run net = .ok p.stats p.net := by
  rw [optimizeInverters, Edit.run_bind_ok (Edit.run_requireFamily family), Edit.run_get_bind]
  simp only [run, gain, ne_eq, not_true_eq_false, if_false]
  rfl

/-- All that the rounds of a whole pass have removed is reported. -/
theorem totalGain_of_ran {options : InverterOptions} {p : InverterPass}
    (ran : Ran net index options (fun _ => false) (.start net) f p) :
    p.stats.totalGain = net.countComplementedEdges - p.net.countComplementedEdges := by
  have removed := ran.tracks.polarities.edgesRemoved_eq
  have reported := ran.reported
  rw [edgesRemoved_none] at reported
  simp only [InverterPass.start] at reported
  omega

theorem optimizeInverters_ran (ready : Optimizable net index) (options : InverterOptions) :
    ∃ f p, (optimizeInverters index options).run net = .ok p.stats p.net ∧
      Ran net index options (fun _ => false) (.start net) f p ∧
      p.stats.totalGain = net.countComplementedEdges - p.net.countComplementedEdges := by
  obtain ⟨f, p, run, ran⟩ := ready.runRounds_run options _ (.start ready.consed) (.start net options)
  have gain := totalGain_of_ran ran
  exact ⟨f, p, optimizeInverters_of_ran ready.family run gain, ran, gain⟩

theorem optimizeInverters_run (ready : Optimizable net index) (options : InverterOptions) :
    ∃ stats net' f, (optimizeInverters index options).run net = .ok stats net' ∧
      Repolarized net f net' ∧ 0 ≤ stats.totalGain ∧
      stats.totalGain = net.countComplementedEdges - net'.countComplementedEdges := by
  obtain ⟨f, p, run, ran, gain⟩ := optimizeInverters_ran ready options
  refine ⟨p.stats, p.net, f, run, ran.tracks.polarities, ?_, gain⟩
  have le := ran.le
  have removed := ran.tracks.polarities.edgesRemoved_eq
  rw [edgesRemoved_none] at le
  omega

end Network

/-- Optimizing inverters through a view whose fanout index is current. -/
theorem Workspace.Reachable.inverters_exact (reachable : w.Reachable) (options : InverterOptions)
    {id : Nat} (hnet : w.networks[v.networkId]? = some net) (family : net.family = .mig)
    (hid : v.indexIds.getLast? = some id) (hindex : w.indexes[id]? = some index)
    (current : index.Current net) :
    ∃ stats net', (v.optimizeInverters options).run w
        = .ok stats { w with networks := w.networks.setIfInBounds v.networkId net' } ∧
      (∀ x, net'.outputValues x = net.outputValues x) ∧
      0 ≤ stats.totalGain ∧
      stats.totalGain = net.countComplementedEdges - net'.countComplementedEdges ∧
      net.SameUpToPolarities net' := by
  have consed : net.HashConsed := (reachable.sound _ net hnet).hashConsed
  obtain ⟨stats, net', f, run, same, nonneg, gain⟩ :=
    Network.optimizeInverters_run ⟨consed, family, current⟩ options
  refine ⟨stats, net', ?_, same.outputValues_eq consed family, nonneg, gain, same.sameUpToPolarities⟩
  rw [View.optimizeInverters, Edit.run_bind_ok (View.currentIndex_run hid hindex)]
  exact View.edit_run hnet run

section sample

open Workspace

/-- The inverters of the sample are optimized, whose complemented edges are all at the inverted gate. -/
theorem sample_inverters_optimized : sampleIndexed.Reachable ∧
    sampleIndexed.networks[0]? = some sampleNetwork ∧ sampleNetwork.family = .mig ∧
    sampleIndexed.indexes[0]? = some (.ofNetwork sampleNetwork) ∧
    (FanoutIndex.ofNetwork sampleNetwork).Current sampleNetwork ∧
    ∃ stats net', ((View.fanout (.network 0) 0).optimizeInverters {}).run sampleIndexed
        = .ok stats { sampleIndexed with networks := sampleIndexed.networks.setIfInBounds 0 net' } ∧
      (∀ x, net'.outputValues x = sampleNetwork.outputValues x) ∧
      0 ≤ stats.totalGain ∧
      stats.totalGain = sampleNetwork.countComplementedEdges - net'.countComplementedEdges ∧
      sampleNetwork.SameUpToPolarities net' := by
  have family : sampleNetwork.family = .mig := by decide +kernel
  have indexed : sampleIndexed.indexes[0]? = some (.ofNetwork sampleNetwork) := by decide +kernel
  have current := FanoutIndex.current_ofNetwork sampleNetwork
  exact ⟨reachable_sampleIndexed, getElem?_sampleIndexed, family, indexed, current,
    reachable_sampleIndexed.inverters_exact (v := .fanout (.network 0) 0) {} getElem?_sampleIndexed
      family rfl indexed current⟩

end sample

end LogicNet
