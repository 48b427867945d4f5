import LogicNet.Network.Inversion
import LogicNet.Proofs.Edit
import LogicNet.Proofs.Redirection

/-! # Inverting majority gates

Inverting a gate changes polarities only.  It maps keys one to one, so no gate becomes redundant by it,
and every gate that was taken out of the table is entered again.
-/

namespace LogicNet.Network

variable {net net' : Network} {n p q : Nat} {s : Signal}

/-- Two live gates of a hash-consed network are never made over fanins that are alike. -/
theorem HashConsed.eq_of_alike (consed : net.HashConsed) (liveP : net.isLive p = true)
    (liveQ : net.isLive q = true) {g : GateFunction} {l l' : List Signal} {flip : Bool}
    (hp : net.kind? p = some (.gate g l)) (hq : net.kind? q = some (.gate g l'))
    (alike : Canonical.Alike net.functions g flip l l') : p = q := by
  obtain ⟨key, a, hc, hget⟩ := consed.hashed q liveQ ⟨g, l', hq⟩
  obtain ⟨key', b, hc', hget'⟩ := consed.hashed p liveP ⟨g, l, hp⟩
  rw [canonical_of_kind? hq] at hc
  rw [canonical_of_kind? hp, Canonical.ofGate_of_alike alike hc] at hc'
  cases hc'
  rw [hget] at hget'
  exact (congrArg Signal.node (Option.some.inj hget')).symm

theorem HashConsed.not_trivial (consed : net.HashConsed) (live : net.isLive p = true)
    (gate : net.IsGate p) : net.canonical p ≠ .ok (.trivial s) := by
  obtain ⟨key, flip, hc, -⟩ := consed.hashed p live gate
  rw [hc]
  exact fun h => by cases h

theorem renaming_flipped (n : Nat) : Signal.Renaming (flipped n) := by
  intro s
  unfold flipped
  split <;> simp_all

@[simp] theorem flipped_node (n : Nat) (s : Signal) : (flipped n s).node = s.node := by
  unfold flipped
  split <;> rfl

@[simp] theorem flipped_flipped (n : Nat) (s : Signal) : flipped n (flipped n s) = s := by
  unfold flipped
  split <;> simp_all

/-- The network in which a gate has been complemented, as far as the graph is concerned. -/
def mirrored (net : Network) (n : Nat) : Network :=
  (net.modifyNode n (·.mapFanins Signal.complement)).mapReferences (flipped n)

theorem kind?_mapFaninsAt (net : Network) (n : Nat) (f : Signal → Signal) (p : Nat) :
    (net.modifyNode n (·.mapFanins f)).kind? p
      = if n = p then (net.kind? p).map (NodeKind.mapFanins f) else net.kind? p := by
  simp only [kind?, getElem?_modifyNode]
  split
  · simp [Function.comp_def, Node.kind_mapFanins]
  · rfl

theorem isLive_mirrored (net : Network) (n : Nat) : (net.mirrored n).isLive = net.isLive := by
  refine (isLive_mapReferences _ _).trans (isLive_modifyNode ?_ _ _)
  exact fun nd => Node.dead_mapFanins _ nd

theorem fanout_mirrored (net : Network) (n : Nat) : (net.mirrored n).fanout = net.fanout := by
  refine (fanout_mapReferences _ _).trans (funext fun m => ?_)
  simp only [fanout, getElem?_modifyNode]
  split
  · simp [Function.comp_def, Node.fanout_mapFanins]
  · rfl

@[simp] theorem size_mirrored (net : Network) (n : Nat) : (net.mirrored n).size = net.size := by
  simp [mirrored]

/-- What becomes of the fanins of a node: a dead one keeps the references to the mirrored node. -/
def mirror (net : Network) (n p : Nat) (s : Signal) : Signal :=
  (if net.isLive p then flipped n else id) (if n = p then s.complement else s)

@[simp] theorem mirror_node (net : Network) (n p : Nat) (s : Signal) :
    (net.mirror n p s).node = s.node := by
  unfold mirror
  split <;> split <;> simp

theorem kind?_mirrored (net : Network) (n p : Nat) :
    (net.mirrored n).kind? p = (net.kind? p).map (NodeKind.mapFanins (net.mirror n p)) := by
  have live : (net.modifyNode n (·.mapFanins Signal.complement)).isLive = net.isLive :=
    isLive_modifyNode (fun nd => Node.dead_mapFanins _ nd) _ _
  unfold mirrored mirror
  rw [kind?_mapReferences, kind?_mapFaninsAt, live]
  rcases net.kind? p with _ | (_ | _ | ⟨g, l⟩) <;> split <;> split <;>
    simp_all [NodeKind.mapFanins, Function.comp_def]

theorem slots_mirrored (net : Network) (n p : Nat) :
    (net.mirrored n).slots p = (net.slots p).map (net.mirror n p) := by
  unfold slots
  rw [kind?_mirrored]
  rcases net.kind? p with _ | (_ | _ | _) <;> rfl

theorem isFanin_mirrored (net : Network) (n : Nat) : (net.mirrored n).IsFanin = net.IsFanin := by
  funext m p
  unfold IsFanin
  rw [slots_mirrored]
  simp only [List.mem_map, exists_exists_and_eq_and, mirror_node]

theorem references_mirrored (net : Network) (n : Nat) :
    (net.mirrored n).references = net.references := by
  funext m
  rw [references_eq, references_eq]
  have houtputs : (net.mirrored n).outputs.countP (·.node == m)
      = net.outputs.countP (·.node == m) := by
    change (net.outputs.map (flipped n)).countP _ = _
    simp [List.countP_map, Function.comp_def]
  rw [houtputs]
  congr 1
  unfold slotSum
  rw [size_mirrored, isLive_mirrored]
  apply Finset.sum_congr rfl
  intro p _
  simp only [slots_mirrored, List.countP_map, Function.comp_def, mirror_node]

/-- Where edges carry polarities, a change of polarities keeps a network well formed. -/
theorem WellFormed.mirrored (wf : net.WellFormed) (edges : net.family.hasComplementedEdges = true)
    (n : Nat) : (net.mirrored n).WellFormed where
  constant_iff p value := by
    rw [kind?_mirrored]
    refine Iff.trans ?_ (wf.constant_iff p value)
    rcases hkind : net.kind? p with _ | (_ | _ | _) <;> simp [NodeKind.mapFanins]
  input_iff p := by
    rw [kind?_mirrored]
    refine Iff.trans ?_ (wf.input_iff p)
    rcases hkind : net.kind? p with _ | (_ | _ | _) <;> simp [NodeKind.mapFanins]
  nodup_inputs := wf.nodup_inputs
  fits p g fanins hkind := by
    rw [kind?_mirrored] at hkind
    rcases hnode : net.kind? p with _ | (_ | _ | ⟨g', l⟩)
    all_goals rw [hnode] at hkind; cases hkind
    have h := wf.fits p g l hnode
    refine ⟨h.hasGate, by rw [List.length_map]; exact h.arity, by simpa using h.nonempty,
      by rw [List.length_map]; exact h.bounded, fun s hs => ?_⟩
    obtain ⟨t, ht, rfl⟩ := List.mem_map.1 hs
    refine ⟨?_, fun _ => edges⟩
    rw [mirror_node, size_mirrored]
    exact (h.typed t ht).inRange
  outputs s hs := by
    obtain ⟨t, ht, rfl⟩ := List.mem_map.1 hs
    refine ⟨?_, fun _ => edges⟩
    rw [flipped_node, size_mirrored]
    exact (wf.outputs t ht).inRange
  functions := wf.functions
  seeded := wf.seeded
  acyclic := by
    unfold Acyclic
    rw [isFanin_mirrored]
    exact wf.acyclic

theorem isGate_mirrored : (net.mirrored n).IsGate p ↔ net.IsGate p := by
  unfold IsGate
  rw [kind?_mirrored]
  rcases net.kind? p with _ | (_ | _ | _) <;> simp [NodeKind.mapFanins]

/-- Nothing changes in a gate that neither is the mirrored one nor is over it. -/
theorem canonical_mirrored_of_not_mem {c : Canonical} (hp : p ∉ n :: net.parents n)
    (live : net.isLive p = true) (hc : net.canonical p = .ok c) :
    (net.mirrored n).canonical p = .ok c := by
  obtain ⟨hne, hparent⟩ := not_or.1 (List.mem_cons.not.1 hp)
  obtain ⟨g, fanins, hkind, hform⟩ := canonical_eq_ok.1 hc
  refine canonical_eq_ok.2 ⟨g, fanins, ?_, hform⟩
  have same : ∀ u ∈ fanins, net.mirror n p u = u := by
    intro u hu
    have hu : u.node ≠ n := fun heq =>
      hparent (mem_parents.2 ⟨live, u, (slots_of_kind? hkind).symm ▸ hu, heq⟩)
    simp [mirror, Ne.symm hne, live, flipped, hu]
  rw [kind?_mirrored, hkind]
  simp [NodeKind.mapFanins, List.map_congr_left same]

/-- The mirrored network is coherent over the entries of the gates that did not change. -/
theorem Coherent.mirrored (coherent : net.Coherent) (edges : net.family.hasComplementedEdges = true)
    {t : GateTable} (ht : ∀ key s, t.get? key = some s ↔
      net.gateTable.get? key = some s ∧ s.node ∉ n :: net.parents n) :
    Coherent { net.mirrored n with gateTable := t } := by
  have graph := sameGraph_withTable (net.mirrored n) t
  have wf := coherent.toWellFormed.mirrored edges n
  have live : (net.mirrored n).isLive = net.isLive := isLive_mirrored net n
  refine ⟨graph.wellFormed wf, fun p hp dead => ?_, fun p hlive s hs => ?_, fun s hs => ?_,
    fun m => ?_, fun key s hget => ?_⟩
  · refine graph.isGate.2 (isGate_mirrored.2 (coherent.dead_isGate p ?_ (live ▸ dead)))
    exact size_mirrored net n ▸ graph.size ▸ hp
  · rw [graph.slots, slots_mirrored] at hs
    obtain ⟨u, hu, rfl⟩ := List.mem_map.1 hs
    rw [mirror_node]
    exact live ▸ coherent.live_fanins p (live ▸ hlive) u hu
  · obtain ⟨u, hu, rfl⟩ := List.mem_map.1 hs
    rw [flipped_node]
    exact live ▸ coherent.live_outputs u hu
  · rw [congrFun (graph.references rfl) m, references_mirrored, ← coherent.counted]
    exact congrFun (fanout_mirrored net n) m
  · obtain ⟨hget, hmem⟩ := (ht key s).1 hget
    obtain ⟨hlive, hc⟩ := coherent.entered key s hget
    exact ⟨live ▸ hlive,
      (graph.canonical s.node).trans (canonical_mirrored_of_not_mem hmem hlive hc)⟩

/-- Up to the complement of the mirrored gate itself, the fanins are mapped one to one. -/
theorem alike_mirror (live : net.isLive p = true) (l : List Signal) :
    Canonical.Alike net.functions .maj (decide (n = p)) (l.map (net.mirror n p))
      (l.map (flipped n)) := by
  apply List.Perm.of_eq
  rw [List.map_map]
  apply List.map_congr_left
  intro s _
  by_cases h : n = p
  · simp [mirror, live, h, (renaming_flipped p) s]
  · simp [mirror, live, h]

theorem map_flipped_flipped (n : Nat) (l : List Signal) :
    (l.map (flipped n)).map (flipped n) = l := by
  simp [Function.comp_def]

theorem WellFormed.eq_maj (wf : net.WellFormed) (family : net.family = .mig) {g : GateFunction}
    {fanins : List Signal} (hkind : net.kind? p = some (.gate g fanins)) : g = .maj := by
  have hfamily := (wf.fits p g fanins hkind).hasGate
  rw [family] at hfamily
  cases g with
  | maj => rfl
  | and => cases hfamily
  | table f => cases hfamily

theorem exists_kind?_of_mirrored {g : GateFunction} {fanins : List Signal}
    (hkind : (net.mirrored n).kind? p = some (.gate g fanins)) :
    ∃ l, net.kind? p = some (.gate g l) ∧ fanins = l.map (net.mirror n p) := by
  rw [kind?_mirrored] at hkind
  rcases hnode : net.kind? p with _ | (_ | _ | ⟨g', l⟩)
  all_goals rw [hnode] at hkind; cases hkind
  exact ⟨l, rfl, rfl⟩

/-- No live gate becomes redundant with another signal. -/
theorem HashConsed.not_redundant_mirrored (consed : net.HashConsed) (family : net.family = .mig)
    (liveP : net.isLive p = true) (liveS : net.isLive s.node = true) (hne : s.node ≠ p) :
    ¬ (net.mirrored n).Redundant p s := by
  rintro (trivial | ⟨g, fanins, fanins', hkind, hkind', alike⟩)
  · obtain ⟨g, fanins, hkind, hform⟩ := canonical_eq_ok.1 trivial
    obtain ⟨l, hp, rfl⟩ := exists_kind?_of_mirrored hkind
    obtain rfl := consed.eq_maj family hp
    have hmapped := Canonical.ofGate_of_alike (alike_mirror liveP l).symm hform
    have hback := Canonical.ofGate_map_of_trivial (renaming_flipped n) (fun h => by cases h) hmapped
    rw [map_flipped_flipped] at hback
    exact consed.not_trivial liveP ⟨_, l, hp⟩ ((canonical_of_kind? hp).trans hback)
  · obtain ⟨l, hp, rfl⟩ := exists_kind?_of_mirrored hkind
    obtain ⟨l', hs, rfl⟩ := exists_kind?_of_mirrored hkind'
    obtain rfl := consed.eq_maj family hp
    have between := (alike_mirror (n := n) liveP l).symm.trans
      (alike.trans (alike_mirror (n := n) liveS l'))
    have back := between.map (renaming_flipped n)
    rw [map_flipped_flipped, map_flipped_flipped] at back
    exact hne (consed.eq_of_alike liveP liveS hp hs back).symm

/-- A gate that was taken out of the table is entered again: no gate has become equal to it. -/
theorem HashConsed.rekeyUnique_eq_ok (consed : net.HashConsed) (family : net.family = .mig)
    {base state : Network} (graph : SameGraph (net.mirrored n) base)
    (liveBase : base.isLive = net.isLive) (enters : Enters base state)
    (live : net.isLive p = true) (gate : net.IsGate p) :
    ∃ state', state.rekeyUnique p = .ok state' ∧ Enters state state' ∧ state'.Hashed p := by
  have sameLive : state.isLive = net.isLive := enters.live.trans liveBase
  obtain ⟨result, ok, outcome⟩ := enters.coherent.rekey_eq_ok
    ((congrFun sameLive p).trans live)
    (enters.graph.isGate.2 (graph.isGate.2 (isGate_mirrored.2 gate)))
  unfold rekeyUnique
  rw [ok]
  cases outcome with
  | @entered state' again hashed => exact ⟨state', rfl, again, hashed⟩
  | @found s redundant ne liveS =>
    have redundant : (net.mirrored n).Redundant p s :=
      graph.redundant.1 (enters.graph.redundant.1 redundant)
    exact absurd redundant (consed.not_redundant_mirrored family live
      ((congrFun sameLive s.node).symm.trans liveS) ne)

/-- What inverting a gate comes to. -/
structure Inverted (net : Network) (n : Nat) (net' : Network) : Prop where
  graph : SameGraph (net.mirrored n) net'
  live : net'.isLive = net.isLive
  fanout : net'.fanout = net.fanout
  consed : net'.HashConsed

theorem HashConsed.inverted_eq_ok (consed : net.HashConsed) (family : net.family = .mig)
    (live : net.isLive n = true) (gate : net.IsGate n) :
    ∃ net', net.inverted n = .ok net' ∧ Inverted net n net' := by
  have edges : net.family.hasComplementedEdges = true := by rw [family]; rfl
  have members : ∀ p ∈ n :: net.parents n, net.isLive p = true ∧ net.IsGate p := by
    intro p hp
    rcases List.mem_cons.1 hp with rfl | hp
    · exact ⟨live, gate⟩
    · obtain ⟨hlive, s, hs, -⟩ := mem_parents.1 hp
      exact ⟨hlive, isGate_of_mem_slots hs⟩
  obtain ⟨t, evicted, ht⟩ := consed.evictAll_eq_ok fun p hp => (members p hp).2
  let base : Network := { net.mirrored n with gateTable := t }
  have coherent : base.Coherent := consed.toCoherent.mirrored edges ht
  have graph : SameGraph (net.mirrored n) base := sameGraph_withTable _ t
  have liveBase : base.isLive = net.isLive := isLive_mirrored net n
  -- The gates entered so far stay in the table; the others wait in the list.
  obtain ⟨net', rekeyed, enters, settled, -⟩ := foldlM_ok
    (fun rest state => Enters base state ∧
      (∀ p ∈ n :: net.parents n, p ∈ rest ∨ state.Hashed p) ∧ ∀ p ∈ rest, p ∈ n :: net.parents n)
    (fun p rest state ⟨enters, settled, hrest⟩ => by
      obtain ⟨liveP, gateP⟩ := members p (hrest p List.mem_cons_self)
      obtain ⟨state', ok, again, hashed⟩ :=
        consed.rekeyUnique_eq_ok family graph liveBase enters liveP gateP
      refine ⟨state', ok, enters.trans again, fun q hq => ?_,
        fun q hq => hrest q (List.mem_cons_of_mem _ hq)⟩
      rcases settled q hq with hmem | hhashed
      · rcases List.mem_cons.1 hmem with rfl | hmem
        · exact .inr hashed
        · exact .inl hmem
      · exact .inr (again.hashed hhashed))
    (n :: net.parents n) base ⟨coherent.enters_refl, fun p hp => .inl hp, fun _ => id⟩
  refine ⟨net', ?_, graph.trans enters.graph, enters.live.trans liveBase,
    enters.fanout.trans (fanout_mirrored net n), enters.coherent, fun p hlive gateP => ?_⟩
  · rw [inverted, evicted]
    exact rekeyed
  · have liveP : net.isLive p = true :=
      (congrFun (enters.live.trans liveBase) p).symm.trans hlive
    by_cases hp : p ∈ n :: net.parents n
    · exact (settled p hp).resolve_left List.not_mem_nil
    · have gateP' := isGate_mirrored.1 (graph.isGate.1 (enters.graph.isGate.1 gateP))
      obtain ⟨key, flip, hc, hget⟩ := consed.hashed p liveP gateP'
      refine enters.hashed ⟨key, flip, ?_, (ht key ⟨p, flip⟩).2 ⟨hget, hp⟩⟩
      exact (graph.canonical p).trans (canonical_mirrored_of_not_mem hp liveP hc)

/-- What the checks of an inversion accept. -/
theorem checkLiveGate_eq_ok : net.checkLiveGate n = .ok () ↔ net.isLive n = true ∧ net.IsGate n := by
  unfold checkLiveGate checkGate checkLive
  cases hnd : net.nodes[n]? with
  | none => simp [isLive, hnd]
  | some nd =>
    have hgate : net.IsGate n ↔ nd.isGate = true := isGate_of_getElem? hnd
    cases live : net.isLive n <;> cases gate : nd.isGate <;> simp [hgate, gate]

theorem HashConsed.invertGate_run (consed : net.HashConsed) (family : net.family = .mig)
    (live : net.isLive n = true) (gate : net.IsGate n) :
    ∃ net', (invertGate n).run net = .ok () net' ∧ Inverted net n net' := by
  obtain ⟨net', ok, inverted⟩ := consed.inverted_eq_ok family live gate
  refine ⟨net', ?_, inverted⟩
  rw [invertGate, Edit.run_bind_ok (Edit.run_requireFamily family), Edit.run_get_bind,
    checkLiveGate_eq_ok.2 ⟨live, gate⟩, ok]
  rfl

end LogicNet.Network
