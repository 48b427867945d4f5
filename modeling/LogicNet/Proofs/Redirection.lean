import LogicNet.Proofs.Release

/-! # Redirecting one node

Rewiring moves every reference of a node to a signal that does not depend on it.  Then nothing refers
to the node, and it is released if it is a gate.  Every gate that had been over it is entered again,
unless it has become redundant.
-/

namespace LogicNet.Network

variable {net net' : Network} {n p old : Nat} {new s : Signal}

theorem redirected_of_ne (h : s.node ≠ old) : redirected old new s = s := if_neg h

theorem redirected_of_eq (h : s.node = old) :
    redirected old new s = new.complementIf s.complemented := if_pos h

theorem renaming_redirected (old : Nat) (new : Signal) : Signal.Renaming (redirected old new) := by
  intro s
  unfold redirected
  rw [Signal.complement_node]
  split
  · simp [Signal.complement, Signal.complementIf]
  · rfl

theorem Typed.complementIf_of_typed (hs : net.Typed s) (hnew : net.Typed new) :
    net.Typed (new.complementIf s.complemented) := by
  refine ⟨hnew.inRange, fun h => ?_⟩
  rw [Signal.complementIf_complemented] at h
  cases hs' : s.complemented with
  | true => exact hs.polarity hs'
  | false =>
    rw [hs', Bool.xor_false] at h
    exact hnew.polarity h

theorem Typed.redirect (hnew : net.Typed new) (hs : net.Typed s) :
    net.Typed (redirected old new s) := by
  unfold redirected
  split
  · exact hs.complementIf_of_typed hnew
  · exact hs

section mapReferences

variable {f : Signal → Signal}

theorem typed_mapReferences : (net.mapReferences f).Typed s ↔ net.Typed s := by
  constructor
  · rintro ⟨inRange, polarity⟩
    exact ⟨size_mapReferences net f ▸ inRange, polarity⟩
  · rintro ⟨inRange, polarity⟩
    exact ⟨(size_mapReferences net f).symm ▸ inRange, polarity⟩

/-- A change of all references keeps a network well formed if it keeps signals typed and makes no
cycle. -/
theorem WellFormed.mapReferences (wf : net.WellFormed) (typed : ∀ s, net.Typed s → net.Typed (f s))
    (acyclic : (net.mapReferences f).Acyclic) : (net.mapReferences f).WellFormed where
  constant_iff n value := by
    rw [kind?_mapReferences]
    refine Iff.trans ?_ (wf.constant_iff n value)
    split
    · rcases hkind : net.kind? n with _ | (_ | _ | _) <;> simp [NodeKind.mapFanins]
    · rfl
  input_iff n := by
    rw [kind?_mapReferences]
    refine Iff.trans ?_ (wf.input_iff n)
    split
    · rcases hkind : net.kind? n with _ | (_ | _ | _) <;> simp [NodeKind.mapFanins]
    · rfl
  nodup_inputs := wf.nodup_inputs
  fits n g fanins hkind := by
    rw [kind?_mapReferences] at hkind
    have fits : ∀ l, net.kind? n = some (.gate g l) → (∀ s ∈ fanins, net.Typed s) →
        fanins.length = l.length → (net.mapReferences f).Fits g fanins := by
      intro l hkind htyped hlength
      have h := wf.fits n g l hkind
      refine ⟨h.hasGate, hlength ▸ h.arity, fun hnil => h.nonempty ?_, hlength ▸ h.bounded,
        fun s hs => typed_mapReferences.2 (htyped s hs)⟩
      rw [hnil] at hlength
      exact List.eq_nil_of_length_eq_zero hlength.symm
    split at hkind
    · rcases hnode : net.kind? n with _ | (_ | _ | ⟨g', l⟩)
      all_goals rw [hnode] at hkind; cases hkind
      refine fits l hnode (fun s hs => ?_) (by simp)
      obtain ⟨t, ht, rfl⟩ := List.mem_map.1 hs
      exact typed t ((wf.fits n g l hnode).typed t ht)
    · exact fits fanins hkind (wf.fits n g fanins hkind).typed rfl
  outputs s hs := by
    obtain ⟨t, ht, rfl⟩ := List.mem_map.1 hs
    exact typed_mapReferences.2 (typed t (wf.outputs t ht))
  functions := wf.functions
  seeded := wf.seeded
  acyclic := acyclic

end mapReferences

/-- Nothing changes in a gate that is not over the redirected node. -/
theorem kind?_redirected_of_not_parent (h : p ∉ net.parents old) :
    (net.mapReferences (redirected old new)).kind? p = net.kind? p := by
  rw [kind?_mapReferences]
  split
  · next hlive =>
    rcases hkind : net.kind? p with _ | (_ | _ | ⟨g, fanins⟩)
    · rfl
    · rfl
    · rfl
    · have same : ∀ s ∈ fanins, redirected old new s = s := by
        intro s hs
        refine redirected_of_ne fun heq => h (mem_parents.2 ⟨hlive, s, ?_, heq⟩)
        rwa [slots_of_kind? hkind]
      simp [NodeKind.mapFanins, List.map_congr_left same]
  · rfl

theorem isFanin_redirected {m : Nat}
    (h : (net.mapReferences (redirected old new)).IsFanin m n) :
    net.IsFanin m n ∨ m = new.node ∧ net.IsFanin old n := by
  obtain ⟨s, hs, rfl⟩ := h
  rw [slots_mapReferences] at hs
  split at hs
  · obtain ⟨t, ht, rfl⟩ := List.mem_map.1 hs
    rw [redirected_node]
    split
    · next heq => exact .inr ⟨rfl, t, ht, heq⟩
    · exact .inl ⟨t, ht, rfl⟩
  · exact .inl ⟨s, hs, rfl⟩

/-- When the references of a node may be moved to a signal. -/
structure Redirectable (net : Network) (old : Nat) (new : Signal) : Prop where
  inRange : old < net.size
  typed : net.Typed new
  live : net.isLive new.node = true
  not_inCone : ¬ net.InCone old new.node

theorem Redirectable.ne (h : net.Redirectable old new) : new.node ≠ old := by
  intro heq
  exact h.not_inCone (heq ▸ Relation.ReflTransGen.refl)

theorem Redirectable.wellFormed (h : net.Redirectable old new) (wf : net.WellFormed) :
    (net.mapReferences (redirected old new)).WellFormed :=
  wf.mapReferences (fun _ => h.typed.redirect)
    (wf.acyclic.redirect wf.closed h.not_inCone fun _ _ => isFanin_redirected)

/-- The count of one node is added to that of another one. -/
theorem fanout_moved {target : Nat} (hold : old < net.size)
    (htarget : target < net.size) (count m : Nat) :
    ((net.modifyNode target fun nd => { nd with fanout := nd.fanout + count }).modifyNode old
        fun nd => { nd with fanout := 0 }).fanout m
      = if m = old then 0 else if m = target then net.fanout m + count else net.fanout m := by
  split
  · next heq =>
    rw [← size_modifyNode net _ target] at hold
    obtain ⟨nd, hnd⟩ := exists_node hold
    rw [heq]
    exact fanout_modifyNode_self hnd
  · next hm =>
    rw [fanout_modifyNode_of_ne hm]
    split
    · next heq =>
      obtain ⟨nd, hnd⟩ := exists_node htarget
      rw [heq, fanout_modifyNode_self hnd, fanout_of_getElem? hnd]
    · next hm' => exact fanout_modifyNode_of_ne hm'

/-- The references of a node are moved; the gates that had them are not in the table. -/
structure Rewired (net : Network) (old : Nat) (new : Signal) (net' : Network) : Prop where
  graph : SameGraph (net.mapReferences (redirected old new)) net'
  live : net'.isLive = net.isLive
  get? : ∀ key s, net'.gateTable.get? key = some s ↔
    net.gateTable.get? key = some s ∧ s.node ∉ net.parents old
  coherent : net'.Coherent

theorem Rewired.references (h : Rewired net old new net') (m : Nat) : net'.references m
    = (net.mapReferences (redirected old new)).references m :=
  congrFun (h.graph.references (h.live.trans (isLive_mapReferences _ _).symm)) m

theorem Coherent.rewire_eq_ok (coherent : net.Coherent) (h : net.Redirectable old new) :
    ∃ net', net.rewire old new = .ok net' ∧ Rewired net old new net' := by
  have gates : ∀ p ∈ net.parents old, net.IsGate p := by
    intro p hp
    obtain ⟨-, s, hs, -⟩ := mem_parents.1 hp
    exact isGate_of_mem_slots hs
  obtain ⟨t, evicted, ht⟩ := coherent.evictAll_eq_ok gates
  let moved := net.mapReferences (redirected old new)
  let entered : Network := { moved with gateTable := t }
  let counted := entered.modifyNode new.node fun nd =>
    { nd with fanout := nd.fanout + net.references old }
  let net' := counted.modifyNode old fun nd => { nd with fanout := 0 }
  have first : SameGraph entered counted := sameGraph_modifyNode (by intro nd; rfl) _ _
  have second : SameGraph counted net' := sameGraph_modifyNode (by intro nd; rfl) _ _
  have graph : SameGraph moved net' := ((sameGraph_withTable moved t).trans first).trans second
  have live : net'.isLive = net.isLive := by
    apply (isLive_modifyNode (by intro nd; rfl) _ _).trans
    exact (isLive_modifyNode (by intro nd; rfl) _ _).trans (isLive_mapReferences net _)
  have references : net'.references = moved.references :=
    graph.references (live.trans (isLive_mapReferences _ _).symm)
  have liveTarget : ∀ s, net.isLive s.node = true → net.isLive (redirected old new s).node = true := by
    intro s hs
    rw [redirected_node]
    split
    · exact h.live
    · exact hs
  refine ⟨net', by rw [rewire, evicted]; rfl, graph, live, ht,
    graph.wellFormed (h.wellFormed coherent.toWellFormed), ?_, ?_, ?_, ?_, ?_⟩
  · intro m hsize hdead
    rw [graph.isGate, isGate_mapReferences]
    refine coherent.dead_isGate m ?_ (live ▸ hdead)
    rwa [graph.size, size_mapReferences] at hsize
  · intro m hlive s hs
    rw [live] at hlive ⊢
    rw [graph.slots, slots_mapReferences, if_pos hlive] at hs
    obtain ⟨t, ht, rfl⟩ := List.mem_map.1 hs
    exact liveTarget t (coherent.live_fanins m hlive t ht)
  · intro s hs
    rw [graph.outputs] at hs
    obtain ⟨t, ht, rfl⟩ := List.mem_map.1 hs
    rw [live]
    exact liveTarget t (coherent.live_outputs t ht)
  · intro m
    have base : entered.fanout m = net.references m :=
      (congrFun (fanout_mapReferences net (redirected old new)) m).trans (coherent.counted m)
    have size : entered.size = net.size := size_mapReferences net _
    rw [references, references_redirected h.ne, ← base]
    exact fanout_moved (size.symm ▸ h.inRange) (size.symm ▸ h.typed.inRange) _ m
  · intro key s hget
    obtain ⟨hget, hparent⟩ := (ht key s).1 hget
    obtain ⟨hlive, hc⟩ := coherent.entered key s hget
    refine ⟨live ▸ hlive, (graph.canonical s.node).trans ?_⟩
    obtain ⟨g, fanins, hkind, hform⟩ := canonical_eq_ok.1 hc
    exact canonical_eq_ok.2 ⟨g, fanins, (kind?_redirected_of_not_parent hparent).trans hkind, hform⟩

/-- The parents of a redirected node are being entered again. -/
structure Rekeying (net : Network) (parents rest : List Nat) (state : Network × List (Nat × Signal)) :
    Prop where
  enters : Enters net state.1
  queued : ∀ p s, (p, s) ∈ state.2 → p ∈ parents ∧ net.isLive p = true ∧ net.Redundant p s ∧
    s.node ≠ p ∧ net.isLive s.node = true
  settled : ∀ p ∈ parents, p ∈ rest ∨ net.isLive p = false ∨ state.1.Hashed p ∨
    ∃ s, (p, s) ∈ state.2
  length : state.2.length + rest.length ≤ parents.length

theorem Coherent.rekeying (coherent : net.Coherent) (parents : List Nat) :
    Rekeying net parents parents (net, []) where
  enters := coherent.enters_refl
  queued _ _ hmem := absurd hmem List.not_mem_nil
  settled _ hp := .inl hp
  length := by simp

theorem Rekeying.step {parents rest : List Nat} {state : Network × List (Nat × Signal)}
    (h : Rekeying net parents (p :: rest) state) (mem : p ∈ parents) (gate : net.IsGate p) :
    ∃ state', rekeyParent state p = .ok state' ∧ Rekeying net parents rest state' := by
  obtain ⟨entered, queue⟩ := state
  have enters : Enters net entered := h.enters
  obtain ⟨nd, hnd⟩ := exists_node (enters.graph.size.symm ▸ gate.lt_size)
  have hlive : net.isLive p = !nd.dead :=
    (congrFun enters.live p).symm.trans (isLive_of_getElem? hnd)
  have length : queue.length + (rest.length + 1) ≤ parents.length := h.length
  have settled : ∀ q ∈ parents, q = p ∨ q ∈ rest ∨ net.isLive q = false ∨ entered.Hashed q ∨
      ∃ s, (q, s) ∈ queue := by
    intro q hq
    rcases h.settled q hq with hmem | hother
    · exact (List.mem_cons.1 hmem).imp_right .inl
    · exact .inr (.inr hother)
  simp only [rekeyParent, node_eq_ok.2 hnd, ok_bind]
  cases hdead : nd.dead with
  | true =>
    have dead : net.isLive p = false := by rw [hlive, hdead]; rfl
    refine ⟨_, rfl, enters, h.queued, fun q hq => ?_, Nat.le_trans (by dsimp only; omega) length⟩
    rcases settled q hq with rfl | hother
    · exact .inr (.inl dead)
    · exact hother
  | false =>
    have live : net.isLive p = true := by rw [hlive, hdead]; rfl
    obtain ⟨result, rekeyed, outcome⟩ := enters.coherent.rekey_eq_ok
      ((congrFun enters.live p).trans live) (enters.graph.isGate.2 gate)
    simp only [Bool.false_eq_true, if_false, rekeyed, ok_bind]
    cases outcome with
    | entered again hashed =>
      refine ⟨_, rfl, enters.trans again, h.queued, fun q hq => ?_, ?_⟩
      · rcases settled q hq with rfl | hmem | hdead | hhashed | hqueued
        · exact .inr (.inr (.inl hashed))
        · exact .inl hmem
        · exact .inr (.inl hdead)
        · exact .inr (.inr (.inl (again.hashed hhashed)))
        · exact .inr (.inr (.inr hqueued))
      · simp only [Option.map_none, Option.toList_none, List.nil_append]
        omega
    | found redundant ne liveTarget =>
      next s =>
      refine ⟨_, rfl, enters, fun q t hqt => ?_, fun q hq => ?_, ?_⟩
      · rcases List.mem_cons.1 hqt with heq | hqt
        · cases heq
          exact ⟨mem, live, enters.graph.redundant.1 redundant, ne,
            (congrFun enters.live s.node).symm.trans liveTarget⟩
        · exact h.queued q t hqt
      · rcases settled q hq with rfl | hmem | hdead | hhashed | ⟨t, hqt⟩
        · exact .inr (.inr (.inr ⟨s, List.mem_cons_self⟩))
        · exact .inl hmem
        · exact .inr (.inl hdead)
        · exact .inr (.inr (.inl hhashed))
        · exact .inr (.inr (.inr ⟨t, List.mem_cons_of_mem _ hqt⟩))
      · simp only [Option.map_some, Option.toList_some, List.cons_append, List.nil_append,
          List.length_cons]
        omega

/-- What redirecting a node comes to. -/
structure Redirected (net : Network) (old : Nat) (new : Signal) (net' : Network)
    (queue : List (Nat × Signal)) : Prop where
  graph : SameGraph (net.mapReferences (redirected old new)) net'
  coherent : net'.Coherent
  live : ∀ m, net'.isLive m = true → net.isLive m = true
  dead : net.IsGate old → net'.isLive old = false
  references : ∀ m, net'.references m ≤ (net.mapReferences (redirected old new)).references m
  garbage : ∀ m, net'.isLive m = true → net'.IsGate m → net'.references m = 0 →
    m = old ∨ net.references m = 0
  queued : ∀ p s, (p, s) ∈ queue → net.IsGate p ∧ net'.isLive p = true ∧ net'.Redundant p s ∧
    s.node ≠ p ∧ net'.isLive s.node = true
  hashed : ∀ p, net'.isLive p = true → net.Hashed p → net'.Hashed p ∨ ∃ s, (p, s) ∈ queue
  length : queue.length ≤ net.liveGates.length

theorem Rewired.releaseGate_eq_ok (rewired : Rewired net old new net') (hne : new.node ≠ old)
    (hsize : old < net.size) : ∃ net'', net'.releaseGate old = .ok net'' ∧ net''.Coherent ∧
      Shrinks net' net'' ∧ (net.IsGate old → net''.isLive old = false) ∧
      ∀ m, net''.isLive m = true → net''.IsGate m → net''.references m = 0 → net'.references m = 0 := by
  have unused : net'.references old = 0 := by
    rw [rewired.references, references_redirected hne, if_pos rfl]
  have isGate : net'.IsGate old ↔ net.IsGate old := rewired.graph.isGate.trans isGate_mapReferences
  have inRange : old < net'.size := by
    rw [rewired.graph.size, size_mapReferences]
    exact hsize
  obtain ⟨nd, hnd⟩ := exists_node inRange
  rw [releaseGate, node_eq_ok.2 hnd, ok_bind]
  split
  · next gate =>
    obtain ⟨net'', ok, released⟩ :=
      rewired.coherent.release_eq_ok ((isGate_of_getElem? hnd).2 gate) unused
    exact ⟨net'', ok, released.coherent, released.shrinks, fun _ => released.dead, released.garbage⟩
  · next noGate =>
    refine ⟨net', rfl, rewired.coherent, rewired.coherent.shrinks_refl, fun gate => ?_,
      fun _ _ _ h => h⟩
    exact absurd ((isGate_of_getElem? hnd).1 (isGate.2 gate)) noGate

theorem Coherent.redirect_eq_ok (coherent : net.Coherent) (h : net.Redirectable old new) :
    ∃ net' queue, net.redirect old new = .ok (net', queue) ∧ Redirected net old new net' queue := by
  obtain ⟨net₁, rewire, rewired⟩ := coherent.rewire_eq_ok h
  obtain ⟨net₂, release, coherent₂, shrinks, dead, garbage⟩ := rewired.releaseGate_eq_ok h.ne h.inRange
  have gates : ∀ p, net₂.IsGate p ↔ net.IsGate p := fun p =>
    shrinks.graph.isGate.trans (rewired.graph.isGate.trans isGate_mapReferences)
  have gateOfParent : ∀ p ∈ net.parents old, net₂.IsGate p := by
    intro p hp
    obtain ⟨-, s, hs, -⟩ := mem_parents.1 hp
    exact (gates p).2 (isGate_of_mem_slots hs)
  obtain ⟨⟨net', queue⟩, rekey, ⟨enters, queued, settled, length⟩, -⟩ := foldlM_ok
    (fun rest state => Rekeying net₂ (net.parents old) rest state ∧ ∀ p ∈ rest, p ∈ net.parents old)
    (fun p rest state ⟨hrekeying, hrest⟩ => by
      have hp := hrest p List.mem_cons_self
      obtain ⟨state', ok, hstep⟩ := hrekeying.step hp (gateOfParent p hp)
      exact ⟨state', ok, hstep, fun q hq => hrest q (List.mem_cons_of_mem _ hq)⟩)
    (net.parents old) (net₂, []) ⟨coherent₂.rekeying _, fun _ => id⟩
  have graph : SameGraph (net.mapReferences (redirected old new)) net' :=
    (rewired.graph.trans shrinks.graph).trans enters.graph
  have live : ∀ m, net'.isLive m = true → net.isLive m = true := by
    intro m hm
    rw [← rewired.live]
    exact shrinks.live m ((congrFun enters.live m).symm.trans hm)
  have liveIff : ∀ m, net'.isLive m = net₂.isLive m := congrFun enters.live
  have references : net'.references = net₂.references := enters.graph.references enters.live
  refine ⟨net', queue, ?_, graph, enters.coherent, live, fun gate => ?_, ?_, ?_, ?_, ?_, ?_⟩
  · simp only [redirect, rewire, ok_bind, release, rekey]
  · exact (liveIff old).trans (dead gate)
  · intro m
    rw [references, ← rewired.references]
    exact shrinks.references m
  · intro m hlive isGate hzero
    rw [references] at hzero
    have before := garbage m ((liveIff m).symm.trans hlive) (enters.graph.isGate.1 isGate) hzero
    rw [rewired.references, references_redirected h.ne] at before
    by_cases hold : m = old
    · exact .inl hold
    · rw [if_neg hold] at before
      split at before
      · exact .inr (by omega)
      · exact .inr before
  · intro p s hps
    obtain ⟨hp, hlive, redundant, ne, liveTarget⟩ := queued p s hps
    exact ⟨(gates p).1 (gateOfParent p hp), (liveIff p).trans hlive,
      enters.graph.redundant.2 redundant, ne, (liveIff s.node).trans liveTarget⟩
  · intro p hlive hashed
    have hlive₂ := (liveIff p).symm.trans hlive
    by_cases hp : p ∈ net.parents old
    · rcases settled p hp with hmem | hdead | hhashed
      · cases hmem
      · rw [hlive₂] at hdead
        cases hdead
      · exact hhashed
    · obtain ⟨key, flip, hc, hget⟩ := hashed
      obtain ⟨g, fanins, hkind, hform⟩ := canonical_eq_ok.1 hc
      have hkind' : net₁.kind? p = some (.gate g fanins) := by
        rw [rewired.graph.kind?, kind?_redirected_of_not_parent hp, hkind]
      have hform' : Canonical.ofGate net₁.functions g fanins = .ok (.gate key flip) :=
        rewired.graph.functions.symm ▸ hform
      have hashed₁ : net₁.Hashed p := ⟨key, flip, canonical_eq_ok.2 ⟨g, fanins, hkind', hform'⟩,
        (rewired.get? key ⟨p, flip⟩).2 ⟨hget, hp⟩⟩
      exact .inl (enters.hashed (shrinks.hashed hashed₁ hlive₂))
  · exact Nat.le_trans (Nat.le_of_add_right_le length) (List.length_filter_le _ _)

end LogicNet.Network
