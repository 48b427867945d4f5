import LogicNet.Proofs.Workspaces

/-! # Cycles

Calls never make a cycle, not even among dead nodes, and what is alive refers to live nodes only.  A
substitution looks for a cycle once, before its first redirection.  The redirections of the cascade make
none, because a gate and the signal that replaces it are made over the same nodes.
-/

namespace LogicNet

open Network Workspace

variable {w : Workspace} {id : Nat} {net : Network}

/-- The graph of all nodes has no cycle, live gates and outputs refer to live nodes, and table gates have
as many fanins as their tables have variables.  A substitution faults for a cycle exactly if it passes
its checks and there would be one, and otherwise no step of it makes a cycle. -/
theorem Workspace.Reachable.no_cycle (hw : w.Reachable) (hnet : w.networks[id]? = some net) :
    net.Acyclic ∧
    (∀ n s, net.isLive n = true → s ∈ net.slots n → s.node < net.size ∧ net.isLive s.node = true) ∧
    (∀ s ∈ net.outputs, s.node < net.size ∧ net.isLive s.node = true) ∧
    (net.family = .klut → ∀ n g fanins, net.kind? n = some (.gate g fanins) →
      ∃ f t, g = .table f ∧ net.functions.get f = .ok t ∧ t.numVars = fanins.length) ∧
    ∀ old new, (new.complemented = true → net.family.hasComplementedEdges = true) →
      ((∃ net', (substitute old new).run net = .error (.fault (.createsCycle old new)) net') ↔
        net.checkSubstitution old new = .ok () ∧ net.InCone old new.node) ∧
      (net.checkSubstitution old new = .ok () → ¬ net.InCone old new.node →
        ∀ c p s items, Worklist.Visits cascadeStep (⟨net, []⟩, [(old, new)]) (c, (p, s) :: items) →
          c.net.Acyclic ∧ ∀ t, c.net.isLive p = true →
            resolve c.replaced (c.replaced.length + 1) s = .ok t → t.node ≠ p →
            c.net.isLive t.node = true → ¬ c.net.InCone p t.node) := by
  have consed := (hw.sound id net hnet).hashConsed
  refine ⟨consed.acyclic, ?_, ?_, ?_, ?_⟩
  · intro n s live hs
    exact ⟨(consed.typed_slots hs).inRange, consed.live_fanins n live s hs⟩
  · intro s hs
    exact ⟨(consed.outputs s hs).inRange, consed.live_outputs s hs⟩
  · intro family n g fanins hkind
    exact (consed.fits n g fanins hkind).exists_table family
  · intro old new polarity
    refine ⟨⟨?_, ?_⟩, ?_⟩
    · rintro ⟨net', fails⟩
      cases consed.substitute_outcome old polarity with
      | refused _ run => cases fails.symm.trans run
      | cycle checked cycle => exact ⟨checkSubstitution_eq_ok.2 checked, cycle⟩
      | done _ _ run => cases fails.symm.trans run
    · rintro ⟨checked, cycle⟩
      cases consed.substitute_outcome old polarity with
      | refused refused => cases checked.symm.trans refused
      | cycle _ _ run => exact ⟨net, run⟩
      | done _ acyclic => exact absurd cycle acyclic
    · intro checked acyclic c p s items visits
      have substitutable := checkSubstitution_eq_ok.1 checked
      have typed : net.Typed new := ⟨lt_size_of_isLive substitutable.liveTarget, polarity⟩
      refine ⟨(consed.coherent_of_visits substitutable typed acyclic visits).acyclic, ?_⟩
      intro t live resolve ne liveTarget
      exact (consed.redirectable_of_visits substitutable typed acyclic visits live resolve ne
        liveTarget).not_inCone

/-- The output gate of the sample cannot replace the majority gate that it is made over. -/
theorem sample_cycle_refused : sampleNetwork.InCone 4 5 ∧
    ∃ net', (substitute 4 (.ofNode 5)).run sampleNetwork
      = .error (.fault (.createsCycle 4 (.ofNode 5))) net' := by
  have kind : sampleNetwork.kind? 5 = some (.gate .maj [⟨0, false⟩, ⟨1, false⟩, ⟨4, true⟩]) := by
    decide +kernel
  have cycle : sampleNetwork.InCone 4 5 := by
    apply Relation.ReflTransGen.single
    exact ⟨⟨4, true⟩, (slots_of_kind? kind).symm ▸ by decide, rfl⟩
  have checked : sampleNetwork.checkSubstitution 4 (.ofNode 5) = .ok () := by decide +kernel
  obtain ⟨-, -, -, -, substitution⟩ := reachable_sample.no_cycle getElem?_sample
  obtain ⟨faults, -⟩ := substitution 4 (.ofNode 5) (fun h => by cases h)
  exact ⟨cycle, faults.2 ⟨checked, cycle⟩⟩

end LogicNet
