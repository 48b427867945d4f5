import LogicNet.Proofs.Invariants
import LogicNet.Proofs.Worklist

/-! # Searching the transitive fanin

The search for a node below another visits the transitive fanin of its root and nothing else.  It ends,
because each visited node puts no more on the stack than its own fanins.
-/

namespace LogicNet.Network

variable {net : Network} {root n : Nat} {seen : Visited} {items : List Nat}

/-- What every state of the search keeps. -/
structure Searching (net : Network) (root : Nat) (seen : Visited) (items : List Nat) : Prop where
  sound : ∀ n, n ∈ seen ∨ n ∈ items → net.InCone n root
  complete : ∀ n ∈ seen, ∀ m, net.IsFanin m n → m ∈ seen ∨ m ∈ items
  root : root ∈ seen ∨ root ∈ items

/-- The stack, and the fanins of the nodes that are not visited yet. -/
def searchMeasure (net : Network) (seen : Visited) (items : List Nat) : Nat :=
  items.length + ∑ p ∈ Finset.range net.size, if p ∈ seen then 0 else (net.slots p).length

theorem searchMeasure_push (inRange : n < net.size) (fresh : n ∉ seen) :
    searchMeasure net (seen.push n) ((net.slots n).map (·.node) ++ items) + 1
      = searchMeasure net seen (n :: items) := by
  have hn := Finset.mem_range.2 inRange
  have others : ∀ p ∈ (Finset.range net.size).erase n,
      (if p ∈ seen.push n then 0 else (net.slots p).length)
        = if p ∈ seen then 0 else (net.slots p).length := by
    intro p hp
    have hne := Finset.ne_of_mem_erase hp
    simp only [Visited.mem_push, hne, false_or]
  have visited : n ∈ seen.push n := Visited.mem_push.2 (.inl rfl)
  unfold searchMeasure
  rw [← Finset.sum_erase_add _ _ hn, ← Finset.sum_erase_add _ _ hn, Finset.sum_congr rfl others,
    if_neg fresh, if_pos visited]
  simp only [List.length_append, List.length_map, List.length_cons]
  omega

theorem Searching.step (wf : net.WellFormed) (hroot : root < net.size)
    (h : Searching net root seen (n :: items)) : ∃ seen' pushed,
      net.faninStep seen n = .ok (seen', pushed) ∧ Searching net root seen' (pushed ++ items) ∧
      searchMeasure net seen' (pushed ++ items) < searchMeasure net seen (n :: items) := by
  have hcone : net.InCone n root := h.sound n (.inr List.mem_cons_self)
  have inRange : n < net.size := wf.closed.lt_size_of_inCone hcone hroot
  unfold faninStep
  by_cases hn : n ∈ seen
  · rw [if_pos hn]
    refine ⟨seen, [], rfl, ⟨fun m hm => ?_, fun m hm k hk => ?_, ?_⟩, ?_⟩
    · exact h.sound m (hm.imp_right (List.mem_cons_of_mem _))
    · rcases h.complete m hm k hk with hseen | hmem
      · exact .inl hseen
      · rcases List.mem_cons.1 hmem with rfl | hmem
        · exact .inl hn
        · exact .inr hmem
    · rcases h.root with hseen | hmem
      · exact .inl hseen
      · rcases List.mem_cons.1 hmem with rfl | hmem
        · exact .inl hn
        · exact .inr hmem
    · simp [searchMeasure]
  · rw [if_neg hn, fanins_of_lt inRange]
    refine ⟨seen.push n, (net.slots n).map (·.node), rfl, ⟨fun m hm => ?_, fun m hm k hk => ?_, ?_⟩,
      by rw [← searchMeasure_push inRange hn]; exact Nat.lt_succ_self _⟩
    · rcases hm with hm | hm
      · rcases Visited.mem_push.1 hm with rfl | hm
        · exact hcone
        · exact h.sound m (.inl hm)
      · rcases List.mem_append.1 hm with hm | hm
        · obtain ⟨s, hs, rfl⟩ := List.mem_map.1 hm
          exact .head ⟨s, hs, rfl⟩ hcone
        · exact h.sound m (.inr (List.mem_cons_of_mem _ hm))
    · rcases Visited.mem_push.1 hm with rfl | hm
      · obtain ⟨s, hs, rfl⟩ := hk
        exact .inr (List.mem_append_left _ (List.mem_map.2 ⟨s, hs, rfl⟩))
      · rcases h.complete m hm k hk with hseen | hmem
        · exact .inl (Visited.mem_push.2 (.inr hseen))
        · rcases List.mem_cons.1 hmem with rfl | hmem
          · exact .inl (Visited.mem_push.2 (.inl rfl))
          · exact .inr (List.mem_append_right _ hmem)
    · rcases h.root with hseen | hmem
      · exact .inl (Visited.mem_push.2 (.inr hseen))
      · rcases List.mem_cons.1 hmem with rfl | hmem
        · exact .inl (Visited.mem_push.2 (.inl rfl))
        · exact .inr (List.mem_append_right _ hmem)

/-- The search answers whether one node is in the transitive fanin of another. -/
theorem WellFormed.dependsOn_eq_ok (wf : net.WellFormed) (hroot : root < net.size) (target : Nat) :
    ∃ found, net.dependsOn root target = .ok found ∧ (found = true ↔ net.InCone target root) := by
  have start : Searching net root .empty [root] := by
    refine ⟨fun m hm => ?_, fun m hm => absurd hm (Visited.not_mem_empty m), .inr (by simp)⟩
    rcases hm with hm | hm
    · exact absurd hm (Visited.not_mem_empty m)
    · obtain rfl := List.mem_singleton.1 hm
      exact .refl
  have bound : searchMeasure net .empty [root] ≤ net.numSlots + 1 := by
    simp only [searchMeasure, Visited.not_mem_empty, if_false, List.length_singleton, numSlots_eq]
    omega
  obtain ⟨seen, ok, done⟩ := Worklist.drain_of_decreasing (searchMeasure net)
    (fun _ _ _ => Searching.step wf hroot) _ .empty [root] start bound
  refine ⟨decide (target ∈ seen), by rw [dependsOn, ok]; rfl, ?_⟩
  rw [decide_eq_true_iff]
  constructor
  · intro hmem
    exact done.sound target (.inl hmem)
  · intro hcone
    induction hcone using Relation.ReflTransGen.head_induction_on with
    | refl => exact done.root.resolve_right List.not_mem_nil
    | head hfanin _ ih => exact (done.complete _ ih _ hfanin).resolve_right List.not_mem_nil

end LogicNet.Network
