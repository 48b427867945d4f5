import LogicNet.Proofs.CascadeSteps
import LogicNet.Proofs.Workspaces

/-! # What a substitution leaves alone

The cascade of a substitution replaces nothing but live gates over the old node, so it rewrites nothing
else.  What it releases is what lost its last reference: the old node is gone, and no gate is left without
references that had one before.
-/

namespace LogicNet

open Relation

namespace Network

variable {net net' net₁ : Network} {p q m old : Nat} {s t new : Signal} {c c' : Cascade}
  {queue pushed items : List (Nat × Signal)}

/-- A live gate in the transitive fanout of a node. -/
structure Depends (net : Network) (old q : Nat) : Prop where
  live : net.isLive q = true
  path : TransGen net.IsFanin old q

theorem Depends.inCone (h : net.Depends old q) : net.InCone old q := h.path.to_reflTransGen

/-- A parent of a node is over all that the node is over. -/
theorem depends_of_parent (cone : net.InCone old p) (parent : q ∈ net.parents p) :
    net.Depends old q := by
  obtain ⟨live, fanin⟩ := mem_parents.1 parent
  exact ⟨live, .tail' cone fanin⟩

theorem not_depends_self (acyclic : net.Acyclic) (n : Nat) : ¬ net.Depends n n :=
  fun h => acyclic n h.path

section redirected

variable (h : Redirected net old new net' queue)

include h

theorem Redirected.kind?_of_not_parent (hq : q ∉ net.parents old) : net'.kind? q = net.kind? q := by
  rw [h.graph.kind?, kind?_redirected_of_not_parent hq]

theorem Redirected.output_of_ne {i : Nat} (found : net.outputs[i]? = some s) (hne : s.node ≠ old) :
    net'.outputs[i]? = some s := by
  have moved : net'.outputs = net.outputs.map (redirected old new) := h.graph.outputs
  rw [moved, List.getElem?_map, found, Option.map_some, redirected_of_ne hne]

/-- A redirection leaves no gate without references that had one before. -/
theorem Redirected.no_garbage (live : net'.isLive m = true) (gate : net'.IsGate m)
    (unused : net'.references m = 0) : net.references m = 0 := by
  refine (h.garbage m live gate unused).resolve_left ?_
  rintro rfl
  rw [h.dead (h.isGate.1 gate)] at live
  cases live

end redirected

/-- What every state of the cascade has in common with the network before the substitution. -/
structure Framed (net : Network) (old : Nat) (c : Cascade) (items : List (Nat × Signal)) : Prop where
  live : ∀ m, c.net.isLive m = true → net.isLive m = true
  kinds : ∀ q, ¬ net.Depends old q → c.net.kind? q = net.kind? q
  outputs : ∀ (i : Nat) (s : Signal), net.outputs[i]? = some s → ¬ net.InCone old s.node →
    c.net.outputs[i]? = some s
  queued : ∀ item ∈ items, net.InCone old item.1
  garbage : ∀ m, c.net.isLive m = true → c.net.IsGate m → c.net.references m = 0 →
    net.references m = 0
  gone : c.net.Gone old

/-- A gate whose fanins were rewritten already was over the old node from the start, so any parent was. -/
theorem Framed.depends_of_parent (h : Framed net old c items) (cone : net.InCone old p)
    (parent : q ∈ c.net.parents p) : net.Depends old q := by
  obtain ⟨live, s, hs, hp⟩ := mem_parents.1 parent
  by_contra apart
  have kind := h.kinds q apart
  rw [slots, kind] at hs
  exact apart ⟨h.live q live, .tail' cone ⟨s, hs, hp⟩⟩

theorem Redirected.framed (h : Redirected net old new net₁ queue) (gone : net₁.Gone old)
    (parents : ∀ item ∈ queue, item.1 ∈ net.parents old) :
    Framed net old ⟨net₁, [(old, new)]⟩ queue where
  live := h.live
  kinds q apart := h.kind?_of_not_parent fun parent => apart (depends_of_parent .refl parent)
  outputs i s found apart := by
    refine h.output_of_ne found ?_
    rintro rfl
    exact apart .refl
  queued item mem := (depends_of_parent .refl (parents item mem)).inCone
  garbage m live gate unused := h.no_garbage live gate unused
  gone := gone

theorem Gone.enters (gone : net.Gone m) (h : Enters net net') : net'.Gone m where
  unused := (congrFun (h.graph.references h.live) m).trans gone.unused
  dead gate := (congrFun h.live m).trans (gone.dead (h.graph.isGate.1 gate))
  nonconstant value hkind := gone.nonconstant value (congrFun h.graph.kind? m ▸ hkind)

/-- Entering gates into the table changes nothing that is looked at here. -/
theorem Framed.enters (h : Framed net old c items) (enters : Enters c.net net') :
    Framed net old { c with net := net' } items where
  live m live := h.live m (congrFun enters.live m ▸ live)
  kinds q apart := (congrFun enters.graph.kind? q).trans (h.kinds q apart)
  outputs i s found apart := enters.graph.outputs ▸ h.outputs i s found apart
  queued := h.queued
  garbage m live gate unused := by
    have references := congrFun (enters.graph.references enters.live) m
    exact h.garbage m (congrFun enters.live m ▸ live) (enters.graph.isGate.1 gate)
      (references.symm.trans unused)
  gone := h.gone.enters enters

/-- The replacement of a queued gate rewrites gates over the old node only. -/
theorem Framed.redirected (h : Framed net old c ((p, s) :: items)) (coherent : c.net.Coherent)
    (live : c.net.isLive p = true) (redundant : c.net.Redundant p t)
    (redirectable : c.net.Redirectable p t) (redirected : Redirected c.net p t net' pushed)
    (parents : ∀ item ∈ pushed, item.1 ∈ c.net.parents p) :
    Framed net old ⟨net', (p, t) :: c.replaced⟩ (pushed ++ items) where
  live m hm := h.live m (redirected.live m hm)
  kinds q apart := by
    have cone : net.InCone old p := h.queued _ List.mem_cons_self
    rw [redirected.kind?_of_not_parent fun parent => apart (h.depends_of_parent cone parent)]
    exact h.kinds q apart
  outputs i u found apart := by
    refine redirected.output_of_ne (h.outputs i u found apart) ?_
    rintro rfl
    exact apart (h.queued _ List.mem_cons_self)
  queued item mem := by
    rcases List.mem_append.1 mem with fresh | rest
    · have cone : net.InCone old p := h.queued _ List.mem_cons_self
      exact (h.depends_of_parent cone (parents item fresh)).inCone
    · exact h.queued item (List.mem_cons_of_mem _ rest)
  garbage m hlive gate unused := h.garbage m (redirected.live m hlive) (redirected.isGate.1 gate)
    (redirected.no_garbage hlive gate unused)
  gone := by
    -- A live gate is redundant with a fanin, a constant or a live gate, and the old node is none of these.
    refine h.gone.redirect redirectable.ne ?_ redirected
    rintro rfl
    exact coherent.not_gone_of_redundant live redundant redirectable.live h.gone

theorem Framed.step (h : Framed net old c ((p, s) :: items)) (coherent : c.net.Coherent)
    (handled : Handled c p c' pushed) : Framed net old c' (pushed ++ items) := by
  cases handled with
  | dropped => exact { h with queued := fun item mem => h.queued item (List.mem_cons_of_mem _ mem) }
  | @entered net' found enters =>
    refine { h.enters enters with queued := fun item mem => ?_ }
    rcases List.mem_append.1 mem with again | rest
    · obtain ⟨u, -, rfl⟩ := by simpa using again
      exact h.queued (p, s) List.mem_cons_self
    · exact h.queued item (List.mem_cons_of_mem _ rest)
  | replaced _ live redundant redirectable redirected parents =>
    exact h.redirected coherent live redundant redirectable redirected parents

theorem HashConsed.framed_of_substitute (consed : net.HashConsed) (typed : net.Typed new)
    (acyclic : ¬ net.InCone old new.node) (run : (substitute old new).run net = .ok () net') :
    ∃ c, c.net = net' ∧ Framed net old c [] := by
  obtain ⟨substitutable, c, rfl, drained⟩ := drain_of_substitute run
  have visits := Worklist.visits_of_drain drained
  refine ⟨c, rfl, ?_⟩
  rcases consed.visits_induction substitutable typed acyclic (Framed net old)
    (fun _ _ redirected gone parents => redirected.framed gone parents)
    (fun _ _ _ _ _ _ _ cascading framed handled => framed.step cascading.coherent handled) visits
    with ⟨-, unstarted⟩ | framed
  · cases unstarted
  · exact framed

end Network

open Network Workspace

variable {w : Workspace} {id old : Nat} {new : Signal} {net net' : Network}

/-- After a substitution nothing refers to the old node, which is dead if it is a gate and still there if
it is an input.  Only live gates over the old node have other fanins than before, and only outputs on these
gates or on the old node are other signals.  A live gate to which nothing refers is one to which nothing
referred before. -/
theorem Workspace.Reachable.substitution_frame (hw : w.Reachable) (hnet : w.networks[id]? = some net)
    (polarity : new.complemented = true → net.family.hasComplementedEdges = true)
    (run : (substitute old new).run net = .ok () net') :
    ((∀ p, net'.isLive p = true → ∀ s ∈ net'.slots p, s.node ≠ old) ∧
      (∀ s ∈ net'.outputs, s.node ≠ old) ∧ net'.fanout old = 0 ∧
      (net.IsGate old → net'.isLive old = false) ∧
      (net.kind? old = some .input → net'.isLive old = true)) ∧
    (∀ q, ¬ net.Depends old q → net'.kind? q = net.kind? q) ∧
    (∀ (i : Nat) (s : Signal), net.outputs[i]? = some s → ¬ net.InCone old s.node →
      net'.outputs[i]? = some s) ∧
    ∀ m, net'.IsGate m → net'.isLive m = true → net'.fanout m = 0 →
      net.isLive m = true ∧ net.fanout m = 0 := by
  have consed := (hw.sound id net hnet).hashConsed
  cases consed.substitute_outcome old polarity with
  | refused _ refused => cases run.symm.trans refused
  | cycle _ _ faults => cases run.symm.trans faults
  | done substitutable acyclic run' substituted =>
    cases run.symm.trans run'
    have typed : net.Typed new := ⟨lt_size_of_isLive substitutable.liveTarget, polarity⟩
    obtain ⟨c, rfl, framed⟩ := consed.framed_of_substitute typed acyclic run
    have coherent : c.net.Coherent := substituted.consed.toCoherent
    obtain ⟨unusedSlots, unusedOutputs⟩ := references_eq_zero_iff.1 framed.gone.unused
    have oldKind : c.net.kind? old = net.kind? old :=
      framed.kinds old (not_depends_self consed.acyclic old)
    refine ⟨⟨unusedSlots, unusedOutputs, ?_, fun gate => framed.gone.dead ?_, fun input => ?_⟩,
      framed.kinds, framed.outputs, fun m gate live unused => ⟨framed.live m live, ?_⟩⟩
    · rw [coherent.counted, framed.gone.unused]
    · obtain ⟨g, fanins, hkind⟩ := gate
      exact ⟨g, fanins, oldKind.trans hkind⟩
    · by_contra dead
      have inRange := lt_size_of_kind? (oldKind.trans input)
      obtain ⟨g, fanins, hkind⟩ := coherent.dead_isGate old inRange (Bool.eq_false_iff.2 dead)
      cases (oldKind.trans input).symm.trans hkind
    · rw [coherent.counted] at unused
      rw [consed.counted]
      exact framed.garbage m live gate unused

/-- Substituting the majority gate of the sample leaves its first fanin in its place. -/
theorem sample_majority_gone : ∃ net', (substitute 4 (.ofNode 1)).run sampleNetwork = .ok () net' ∧
    net'.fanout 4 = 0 ∧ net'.isLive 4 = false ∧ net'.kind? 1 = sampleNetwork.kind? 1 := by
  have done : Edit.endsWith (substitute 4 (.ofNode 1)) sampleNetwork (fun _ => true) = true := by
    decide +kernel
  obtain ⟨⟨⟩, net', run, -⟩ := Edit.exists_run_of_endsWith done
  obtain ⟨⟨-, -, unused, dead, -⟩, kinds, -, -⟩ :=
    reachable_sample.substitution_frame getElem?_sample (fun h => by cases h) run
  have gate : sampleNetwork.isLiveGate 4 = true := by decide +kernel
  have input : sampleNetwork.kind? 1 = some .input := by decide +kernel
  refine ⟨net', run, unused, dead (isLiveGate_iff.1 gate).2, kinds 1 fun above => ?_⟩
  obtain ⟨k, -, fanin⟩ := TransGen.tail'_iff.1 above.path
  obtain ⟨g, fanins, hkind⟩ := fanin.isGate
  cases input.symm.trans hkind

end LogicNet
