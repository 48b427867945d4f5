import LogicNet.Proofs.SubstitutionValues
import LogicNet.Proofs.Workspaces

/-! # The meaning of a substitution

Whatever the cascade folds, merges or releases, a substitution means no more than this: every reference
to the old node is read as the new signal.
-/

namespace LogicNet

open Network Workspace

variable {w : Workspace} {id old : Nat} {new : Signal} {net : Network}

/-- A substitution that makes no cycle is carried out.  It gives the outputs and all nodes that stay
alive the values of the network before, read anew; signals of one function replace each other without
changing an output. -/
theorem Workspace.Reachable.substitute_values (hw : w.Reachable) (hnet : w.networks[id]? = some net)
    (substitutable : net.Substitutable old new)
    (polarity : new.complemented = true → net.family.hasComplementedEdges = true)
    (acyclic : ¬ net.InCone old new.node) :
    ∃ net', (substitute old new).run net = .ok () net' ∧
      (net.reading (redirected old new)).Acyclic ∧
      (∀ x, net'.outputValues x = (net.reading (redirected old new)).outputValues x ∧
        ∀ n, net'.isLive n = true → net'.eval x n = (net.reading (redirected old new)).eval x n) ∧
      ((∀ x, net.eval x old = new.value (net.eval x)) →
        ∀ x, net'.outputValues x = net.outputValues x) := by
  have consed := (hw.sound id net hnet).hashConsed
  cases consed.substitute_outcome old polarity with
  | refused checked =>
    rw [checkSubstitution_eq_ok.2 substitutable] at checked
    cases checked
  | cycle _ cycle => exact absurd cycle acyclic
  | @done net' _ _ run substituted =>
    have typed : net.Typed new := ⟨lt_size_of_isLive substitutable.liveTarget, polarity⟩
    have redirectable := substitutable.redirectable typed acyclic
    have values := substituted.values consed.toWellFormed redirectable
    refine ⟨net', run, (consed.reading redirectable).1, ?_, ?_⟩
    · intro x
      obtain ⟨nodes, outputs⟩ := values x
      exact ⟨outputs, nodes⟩
    · intro same x
      obtain ⟨-, outputs⟩ := values x
      exact outputs.trans (consed.outputValues_reading redirectable (same x))

/-- The majority gate of the sample is replaced by its first fanin, which folds the output gate. -/
theorem sample_majority_replaced : sampleNetwork.Substitutable 4 (.ofNode 1) ∧
    ¬ sampleNetwork.InCone 4 1 ∧ ∃ net',
      (substitute 4 (.ofNode 1)).run sampleNetwork = .ok () net' ∧
      ∀ x, net'.outputValues x
        = (sampleNetwork.reading (redirected 4 (.ofNode 1))).outputValues x := by
  have substitutable : sampleNetwork.Substitutable 4 (.ofNode 1) :=
    ⟨by decide +kernel, by decide +kernel, by decide, by decide +kernel⟩
  have consed := (reachable_sample.sound 0 _ getElem?_sample).hashConsed
  have acyclic : ¬ sampleNetwork.InCone 4 1 := by
    have inRange : 1 < sampleNetwork.size := by decide +kernel
    obtain ⟨found, search, hfound⟩ := consed.dependsOn_eq_ok inRange 4
    have absent : sampleNetwork.dependsOn 1 4 = .ok false := by decide +kernel
    cases absent.symm.trans search
    exact fun cycle => Bool.false_ne_true (hfound.2 cycle)
  obtain ⟨net', run, -, values, -⟩ := reachable_sample.substitute_values getElem?_sample
    substitutable (fun h => by cases h) acyclic
  exact ⟨substitutable, acyclic, net', run, fun x => (values x).1⟩

end LogicNet
