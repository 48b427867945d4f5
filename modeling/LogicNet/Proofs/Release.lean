import LogicNet.Proofs.HashTable
import LogicNet.Proofs.Worklist

/-! # Releasing gates

Releasing a gate that nothing refers to marks it dead, together with every gate that loses its last
reference by this.  While the fanins of a retired gate are dropped one by one, each stored count is too
high by the slots that are still to come; so no count is ever taken below zero.
-/

namespace LogicNet.Network

variable {net net₀ net' : Network} {n : Nat} {s : Signal} {rest : List Signal}
  {state : Network × List Nat}

/-- The second network is the first one with gates marked dead, whose entries are gone. -/
structure Shrinks (net net' : Network) : Prop where
  graph : SameGraph net net'
  live : ∀ m, net'.isLive m = true → net.isLive m = true
  get? : ∀ key s, net'.gateTable.get? key = some s ↔
    net.gateTable.get? key = some s ∧ net'.isLive s.node = true
  references : ∀ m, net'.references m ≤ net.references m

theorem Coherent.shrinks_refl (coherent : net.Coherent) : Shrinks net net where
  graph := .refl net
  live _ := id
  get? key s := (and_iff_left_of_imp fun h => (coherent.entered key s h).1).symm
  references _ := Nat.le_refl _

theorem Shrinks.trans {net'' : Network} (h : Shrinks net net') (h' : Shrinks net' net'') :
    Shrinks net net'' where
  graph := h.graph.trans h'.graph
  live m hm := h.live m (h'.live m hm)
  get? key s := by
    rw [h'.get?, h.get?]
    constructor
    · exact fun ⟨⟨hget, _⟩, hlive⟩ => ⟨hget, hlive⟩
    · exact fun ⟨hget, hlive⟩ => ⟨⟨hget, h'.live _ hlive⟩, hlive⟩
  references m := Nat.le_trans (h'.references m) (h.references m)

theorem Shrinks.hashed (h : Shrinks net net') (hashed : net.Hashed n)
    (live : net'.isLive n = true) : net'.Hashed n := by
  obtain ⟨key, flip, hc, hget⟩ := hashed
  exact ⟨key, flip, (h.graph.canonical n).trans hc, (h.get? key ⟨n, flip⟩).2 ⟨hget, live⟩⟩

/-- A gate is retired: its slots count no more, but the counts of its fanins are as before. -/
structure Retired (net : Network) (n : Nat) (net' : Network) : Prop where
  graph : SameGraph net net'
  marks : ∀ m, net'.isLive m = (net.isLive m && m != n)
  get? : ∀ key s, net'.gateTable.get? key = some s ↔
    net.gateTable.get? key = some s ∧ s.node ≠ n
  fanout : net'.fanout = net.references
  references : ∀ m, net.references m = net'.references m + (net.slots n).countP (·.node == m)

theorem Coherent.retire_eq_ok (coherent : net.Coherent) (gate : net.IsGate n)
    (live : net.isLive n = true) (unused : net.references n = 0) :
    ∃ net', net.retire n = .ok net' ∧ Retired net n net' := by
  obtain ⟨t, evicted, ht⟩ := coherent.evict_eq_ok gate
  obtain ⟨nd, hnd⟩ := exists_node gate.lt_size
  let evictedNet : Network := { net with gateTable := t }
  let marked := evictedNet.modifyNode n fun nd => { nd with dead := true, fanout := 0 }
  have step : SameGraph evictedNet marked := sameGraph_modifyNode (by intro nd; rfl) _ _
  have graph : SameGraph net marked := (sameGraph_withTable net t).trans step
  have marks : ∀ m, marked.isLive m = (net.isLive m && m != n) := by
    intro m
    simp only [marked, evictedNet, isLive, getElem?_modifyNode]
    by_cases h : n = m
    · subst h
      simp [hnd]
    · simp [h, Ne.symm h]
  refine ⟨marked, by rw [retire, evicted]; rfl, graph, marks, ht, funext fun m => ?_,
    references_of_marked graph live marks⟩
  by_cases h : m = n
  · have hfanout : marked.fanout n = 0 := evictedNet.fanout_modifyNode_self hnd
    rw [h, hfanout, unused]
  · have hfanout : marked.fanout m = net.fanout m := evictedNet.fanout_modifyNode_of_ne h
    rw [hfanout, coherent.counted m]

/-- The fanins of a retired gate are being dropped; some slots are still to come. -/
structure Dropping (net : Network) (slots : List Signal) (rest : List Signal)
    (state : Network × List Nat) : Prop where
  graph : SameGraph net state.1
  live : state.1.isLive = net.isLive
  table : state.1.gateTable = net.gateTable
  fanout : ∀ m, state.1.fanout m = net.references m + rest.countP (·.node == m)
  freed : ∀ m ∈ state.2, net.IsGate m ∧ net.references m = 0
  garbage : ∀ m, net.isLive m = true → net.IsGate m → net.references m = 0 →
    m ∈ state.2 ∨ m ∈ rest.map (·.node) ∨ m ∉ slots.map (·.node)
  length : state.2.length + rest.length ≤ slots.length

theorem countP_node_eq_zero {m : Nat} {l : List Signal} (h : m ∉ l.map (·.node)) :
    l.countP (·.node == m) = 0 := by
  apply List.countP_eq_zero.2
  intro t ht heq
  exact h (List.mem_map.2 ⟨t, ht, eq_of_beq heq⟩)

theorem Dropping.step {slots : List Signal} (h : Dropping net slots (s :: rest) state)
    (inRange : s.node < net.size) :
    ∃ state', dropReference state s = .ok state' ∧ Dropping net slots rest state' := by
  obtain ⟨dropped, freed⟩ := state
  obtain ⟨nd, hnd⟩ := exists_node (h.graph.size.symm ▸ inRange)
  have hdead : dropped.isLive s.node = !nd.dead := isLive_of_getElem? hnd
  have hgate := isGate_of_getElem? hnd
  have hcount : nd.fanout - 1 = net.references s.node + rest.countP (·.node == s.node) := by
    have hfanout := h.fanout s.node
    rw [fanout_of_getElem? hnd, List.countP_cons, beq_self_eq_true] at hfanout
    simp only [if_true] at hfanout
    omega
  let after := dropped.modifyNode s.node fun nd' => { nd' with fanout := nd.fanout - 1 }
  have step : SameGraph dropped after := sameGraph_modifyNode (by intro nd; rfl) _ _
  have graph : SameGraph net after := h.graph.trans step
  have live : after.isLive = net.isLive := (isLive_modifyNode (by intro nd; rfl) _ _).trans h.live
  have fanout : ∀ m, after.fanout m = net.references m + rest.countP (·.node == m) := by
    intro m
    by_cases hm : m = s.node
    · rw [hm, ← hcount]
      exact fanout_modifyNode_self hnd
    · have hne : (s.node == m) = false := beq_false_of_ne (Ne.symm hm)
      have hfanout := h.fanout m
      rw [List.countP_cons, hne] at hfanout
      exact (fanout_modifyNode_of_ne hm).trans hfanout
  have length := h.length
  simp only [List.length_cons] at length
  simp only [dropReference, node_eq_ok.2 hnd, ok_bind]
  split
  · next lost =>
    simp only [Bool.and_eq_true, decide_eq_true_eq, Bool.not_eq_true'] at lost
    obtain ⟨⟨hzero, -⟩, isGate⟩ := lost
    refine ⟨_, rfl, graph, live, h.table, fanout, ?_, ?_, ?_⟩
    · intro m hm
      rcases List.mem_cons.1 hm with rfl | hm
      · exact ⟨h.graph.isGate.1 (hgate.2 isGate), by omega⟩
      · exact h.freed m hm
    · intro m hlive hm hreferences
      rcases h.garbage m hlive hm hreferences with hfreed | hrest | hother
      · exact .inl (List.mem_cons_of_mem _ hfreed)
      · rcases List.mem_cons.1 hrest with rfl | hrest
        · exact .inl List.mem_cons_self
        · exact .inr (.inl hrest)
      · exact .inr (.inr hother)
    · simp only [List.length_cons]
      omega
  · next kept =>
    refine ⟨_, rfl, graph, live, h.table, fanout, h.freed, ?_, by dsimp only at length ⊢; omega⟩
    intro m hlive hm hreferences
    rcases h.garbage m hlive hm hreferences with hfreed | hrest | hother
    · exact .inl hfreed
    · rcases List.mem_cons.1 hrest with rfl | hrest
      · refine .inr (.inl ?_)
        by_contra habsent
        apply kept
        have hnone : rest.countP (·.node == s.node) = 0 := countP_node_eq_zero habsent
        have hlive' : (!nd.dead) = true := hdead.symm.trans ((congrFun h.live _).trans hlive)
        have hgate' : nd.isGate = true := hgate.1 (h.graph.isGate.2 hm)
        rw [hlive', hgate', hcount, hnone, hreferences]
        rfl
      · exact .inr (.inl hrest)
    · exact .inr (.inr hother)

theorem Retired.dropping (retired : Retired net n net') :
    Dropping net' (net.slots n) (net.slots n) (net', []) where
  graph := .refl net'
  live := rfl
  table := rfl
  fanout m := (congrFun retired.fanout m).trans (retired.references m)
  freed m hm := by cases hm
  garbage m _ _ _ := by
    by_cases hm : m ∈ (net.slots n).map (·.node)
    · exact .inr (.inl hm)
    · exact .inr (.inr hm)
  length := by simp

/-- Dropping a part of the fanins of a retired gate succeeds. -/
theorem Retired.foldlM_dropReference (retired : Retired net n net') (wf : net.WellFormed)
    {before after : List Signal} (hslots : net.slots n = before ++ after) :
    ∃ state, before.foldlM dropReference (net', []) = .ok state ∧
      Dropping net' (net.slots n) after state := by
  have inRange : ∀ s ∈ net.slots n, s.node < net'.size := fun s hs =>
    retired.graph.size.symm ▸ (wf.typed_slots hs).inRange
  rw [hslots] at inRange
  have start := retired.dropping
  obtain ⟨state, ok, h, -⟩ := foldlM_ok
    (fun l state => Dropping net' (net.slots n) (l ++ after) state ∧ ∀ s ∈ l, s.node < net'.size)
    (fun s l state ⟨h, hl⟩ => by
      obtain ⟨state', ok, h'⟩ := h.step (hl s List.mem_cons_self)
      exact ⟨state', ok, h', fun t ht => hl t (List.mem_cons_of_mem _ ht)⟩)
    before (net', []) ⟨hslots ▸ start, fun s hs => inRange s (List.mem_append_left _ hs)⟩
  exact ⟨state, ok, h⟩

/-- Once all its fanins are dropped, a retired gate leaves a coherent network. -/
theorem Retired.coherent {net₁ : Network} (retired : Retired net n net₁) (coherent : net.Coherent)
    (gate : net.IsGate n) (unused : net.references n = 0) {freed : List Nat}
    (dropped : Dropping net₁ (net.slots n) [] (net', freed)) :
    net'.Coherent ∧ Shrinks net net' := by
  have graph : SameGraph net net' := retired.graph.trans dropped.graph
  have marks : ∀ m, net'.isLive m = true ↔ net.isLive m = true ∧ m ≠ n := by
    intro m
    rw [dropped.live, retired.marks]
    simp
  have references : net'.references = net₁.references := dropped.graph.references dropped.live
  have table : net'.gateTable = net₁.gateTable := dropped.table
  obtain ⟨unusedFanin, unusedOutput⟩ := references_eq_zero_iff.1 unused
  refine ⟨⟨graph.wellFormed coherent.toWellFormed, ?_, ?_, ?_, ?_, ?_⟩, graph, ?_, ?_, ?_⟩
  · intro m hsize hdead
    rw [graph.isGate]
    by_cases hm : m = n
    · exact hm ▸ gate
    · refine coherent.dead_isGate m (graph.size ▸ hsize) (Bool.eq_false_iff.2 fun hlive => ?_)
      exact Bool.eq_false_iff.1 hdead ((marks m).2 ⟨hlive, hm⟩)
  · intro m hlive s hs
    rw [graph.slots] at hs
    have hlive := (marks m).1 hlive
    exact (marks s.node).2 ⟨coherent.live_fanins m hlive.1 s hs, unusedFanin m hlive.1 s hs⟩
  · intro s hs
    rw [graph.outputs] at hs
    exact (marks s.node).2 ⟨coherent.live_outputs s hs, unusedOutput s hs⟩
  · intro m
    rw [references]
    exact dropped.fanout m
  · intro key s hget
    rw [table, retired.get?] at hget
    obtain ⟨hlive, hc⟩ := coherent.entered key s hget.1
    exact ⟨(marks s.node).2 ⟨hlive, hget.2⟩, (graph.canonical s.node).trans hc⟩
  · exact fun m hm => ((marks m).1 hm).1
  · intro key s
    rw [table, retired.get?]
    apply and_congr_right
    intro hget
    rw [marks]
    exact (and_iff_right (coherent.entered key s hget).1).symm
  · intro m
    rw [references, retired.references m]
    exact Nat.le_add_right _ _

/-- What every state of a release keeps. -/
structure Releasing (net₀ : Network) (root : Nat) (net : Network) (items : List Nat) : Prop where
  coherent : net.Coherent
  shrinks : Shrinks net₀ net
  queued : ∀ m ∈ items, net.IsGate m ∧ (net.isLive m = true → net.references m = 0)
  garbage : ∀ m, net.isLive m = true → net.IsGate m → net.references m = 0 →
    net₀.references m = 0 ∨ m ∈ items
  root : root ∈ items ∨ net.isLive root = false

/-- Every item takes one slot off, or the slots of a gate that dies. -/
def releaseMeasure (net : Network) (items : List Nat) : Nat :=
  net.slotSum List.length + items.length

theorem Releasing.start (coherent : net.Coherent) (gate : net.IsGate n)
    (unused : net.references n = 0) : Releasing net n net [n] where
  coherent := coherent
  shrinks := coherent.shrinks_refl
  queued m hm := by
    obtain rfl := List.mem_singleton.1 hm
    exact ⟨gate, fun _ => unused⟩
  garbage _ _ _ h := .inl h
  root := .inl (List.mem_singleton_self n)

/-- A queued gate that is dead by now is left out. -/
theorem Releasing.skip {root : Nat} {items : List Nat} (h : Releasing net₀ root net (n :: items))
    (dead : net.isLive n = false) : Releasing net₀ root net items where
  coherent := h.coherent
  shrinks := h.shrinks
  queued m hm := h.queued m (List.mem_cons_of_mem _ hm)
  garbage m live gate unused := by
    apply (h.garbage m live gate unused).imp_right
    intro hmem
    rcases List.mem_cons.1 hmem with rfl | hmem
    · rw [dead] at live
      cases live
    · exact hmem
  root := by
    rcases h.root with hmem | hroot
    · rcases List.mem_cons.1 hmem with rfl | hmem
      · exact .inr dead
      · exact .inl hmem
    · exact .inr hroot

/-- A retired gate leaves behind the gates that lost their last reference with it. -/
theorem Releasing.retired {root : Nat} {items freed : List Nat} {net₁ : Network}
    (h : Releasing net₀ root net (n :: items)) (live : net.isLive n = true)
    (retired : Retired net n net₁) (dropped : Dropping net₁ (net.slots n) [] (net', freed)) :
    Releasing net₀ root net' (freed ++ items) := by
  obtain ⟨⟨gate, unused⟩, others⟩ := List.forall_mem_cons.1 h.queued
  obtain ⟨coherent, shrinks⟩ := retired.coherent h.coherent gate (unused live) dropped
  have graph : SameGraph net₁ net' := dropped.graph
  have sameLive : net'.isLive = net₁.isLive := dropped.live
  have references : net'.references = net₁.references := graph.references sameLive
  have dead : net'.isLive n = false := by
    rw [sameLive, retired.marks]
    simp
  -- The gate stays in the queue for now, as it may be the root.
  have kept : Releasing net₀ root net' (n :: (freed ++ items)) := by
    refine ⟨coherent, h.shrinks.trans shrinks, ?_, ?_, ?_⟩
    · intro m hm
      rcases List.mem_cons.1 hm with rfl | hm
      · refine ⟨shrinks.graph.isGate.2 gate, fun hlive => ?_⟩
        rw [dead] at hlive
        cases hlive
      · rcases List.mem_append.1 hm with hm | hm
        · obtain ⟨isGate, hzero⟩ := dropped.freed m hm
          exact ⟨graph.isGate.2 isGate, fun _ => (congrFun references m).trans hzero⟩
        · obtain ⟨isGate, hzero⟩ := others m hm
          refine ⟨shrinks.graph.isGate.2 isGate, fun hm => ?_⟩
          exact Nat.le_zero.1 (hzero (shrinks.live m hm) ▸ shrinks.references m)
    · intro m hm isGate hreferences
      have hzero : net₁.references m = 0 := (congrFun references m).symm.trans hreferences
      rcases dropped.garbage m (sameLive ▸ hm) (graph.isGate.1 isGate) hzero with
        hfreed | hrest | hother
      · exact .inr (List.mem_cons_of_mem _ (List.mem_append_left _ hfreed))
      · cases hrest
      · have before : net.references m = 0 := by
          rw [retired.references m, hzero, countP_node_eq_zero hother]
        apply (h.garbage m (shrinks.live m hm) (shrinks.graph.isGate.1 isGate) before).imp_right
        intro hmem
        exact List.cons_subset_cons n (List.subset_append_right freed items) hmem
    · rcases h.root with hmem | hroot
      · exact .inl (List.cons_subset_cons n (List.subset_append_right freed items) hmem)
      · apply Or.inr
        apply Bool.eq_false_iff.2
        intro hlive
        exact Bool.eq_false_iff.1 hroot (shrinks.live _ hlive)
  exact kept.skip dead

theorem Retired.releaseMeasure_lt {net₁ : Network} {items freed : List Nat}
    (retired : Retired net n net₁) (live : net.isLive n = true)
    (dropped : Dropping net₁ (net.slots n) [] (net', freed)) :
    releaseMeasure net' (freed ++ items) < releaseMeasure net (n :: items) := by
  have sum := slotSum_of_marked retired.graph live retired.marks List.length
  have graph : SameGraph net₁ net' := dropped.graph
  have sameLive : net'.isLive = net₁.isLive := dropped.live
  have same : net'.slotSum List.length = net₁.slotSum List.length := by
    simp only [slotSum, graph.size, graph.slots, sameLive]
  have length := dropped.length
  simp only [releaseMeasure, List.length_append, List.length_cons, List.length_nil] at length ⊢
  omega

theorem Releasing.step {root : Nat} {items : List Nat} (h : Releasing net₀ root net (n :: items)) :
    ∃ net' freed, releaseStep net n = .ok (net', freed) ∧ Releasing net₀ root net' (freed ++ items) ∧
      releaseMeasure net' (freed ++ items) < releaseMeasure net (n :: items) := by
  obtain ⟨gate, unused⟩ := h.queued n List.mem_cons_self
  obtain ⟨nd, hnd⟩ := exists_node gate.lt_size
  have hlive := isLive_of_getElem? hnd
  unfold releaseStep
  rw [node_eq_ok.2 hnd, ok_bind]
  cases hdead : nd.dead with
  | true =>
    have dead : net.isLive n = false := by rw [hlive, hdead]; rfl
    exact ⟨net, [], rfl, h.skip dead, by simp [releaseMeasure]⟩
  | false =>
    have live : net.isLive n = true := by rw [hlive, hdead]; rfl
    obtain ⟨net₁, retire, retired⟩ := h.coherent.retire_eq_ok gate live (unused live)
    have slots : net.slots n = net.slots n ++ [] := (List.append_nil _).symm
    obtain ⟨⟨net', freed⟩, drop, dropped⟩ :=
      retired.foldlM_dropReference h.coherent.toWellFormed slots
    have run : net.retire n >>= (fun net₁ => nd.fanins.foldlM dropReference (net₁, []))
        = .ok (net', freed) := by
      rw [retire, ok_bind, ← slots_of_getElem? hnd, drop]
    exact ⟨net', freed, run, h.retired live retired dropped, retired.releaseMeasure_lt live dropped⟩

/-- What a release comes to. -/
structure Released (net : Network) (n : Nat) (net' : Network) : Prop where
  coherent : net'.Coherent
  shrinks : Shrinks net net'
  dead : net'.isLive n = false
  garbage : ∀ m, net'.isLive m = true → net'.IsGate m → net'.references m = 0 → net.references m = 0

/-- A gate without references can be released. -/
theorem Coherent.release_eq_ok (coherent : net.Coherent) (gate : net.IsGate n)
    (unused : net.references n = 0) : ∃ net', net.release n = .ok net' ∧ Released net n net' := by
  have bound : releaseMeasure net [n] ≤ net.numSlots + 1 :=
    Nat.add_le_add_right (slotSum_length_le net) 1
  have start := Releasing.start coherent gate unused
  obtain ⟨net', ok, done⟩ := Worklist.drain_of_decreasing releaseMeasure
    (fun _ _ _ => Releasing.step) _ net [n] start bound
  refine ⟨net', ok, done.coherent, done.shrinks, ?_, fun m hlive isGate hzero => ?_⟩
  · exact done.root.resolve_left List.not_mem_nil
  · exact (done.garbage m hlive isGate hzero).resolve_right List.not_mem_nil

/-- All states that a release comes through are alike. -/
theorem Releasing.of_visits {items : List Nat} (coherent : net.Coherent) (gate : net.IsGate n)
    (unused : net.references n = 0)
    (visits : Worklist.Visits releaseStep (net, [n]) (net', items)) :
    Releasing net n net' items := by
  refine visits.invariant (fun net₁ m rest net₂ freed h ok => ?_) (.start coherent gate unused)
  obtain ⟨net₃, freed', ok', h', -⟩ := h.step
  rw [ok] at ok'
  cases ok'
  exact h'

end LogicNet.Network
