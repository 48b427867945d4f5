import LogicNet.Proofs.Replacements
import Mathlib.Data.List.Perm.Subperm

/-! # The cascade of a substitution

After the first redirection every live gate is in the table or in the queue, and every queued gate is
still equal to its replacement, read through the replacements made since.  One more step keeps this.
The cascade ends, because a step that leaves all gates alive either shortens the queue or makes its top
ready to be replaced.
-/

namespace LogicNet.Network

variable {net net' net₁ : Network} {p old : Nat} {s t new : Signal} {c : Cascade}
  {queue : List (Nat × Signal)}

/-- A node that was replaced: nothing refers to it, and it is neither a live gate nor a constant. -/
structure Gone (net : Network) (n : Nat) : Prop where
  unused : net.references n = 0
  dead : net.IsGate n → net.isLive n = false
  nonconstant : ∀ value, net.kind? n ≠ some (.constant value)

/-- One step of a cascade, as the network sees it. -/
inductive Advance : Network → Network → Prop where
  /-- Gates were entered into the table. -/
  | enters {net net' : Network} (enters : Enters net net') : Advance net net'
  /-- A redundant gate was replaced. -/
  | redirected {net net' : Network} {p : Nat} {t : Signal} {queue : List (Nat × Signal)}
    (coherent : net.Coherent) (gate : net.IsGate p) (live : net.isLive p = true)
    (redundant : net.Redundant p t) (redirectable : net.Redirectable p t)
    (redirected : Redirected net p t net' queue) : Advance net net'

/-- What every state of a cascade keeps, from the network after the first redirection on. -/
structure Cascading (net₁ : Network) (c : Cascade) (queue : List (Nat × Signal)) : Prop where
  coherent : c.net.Coherent
  chained : Chained c.replaced
  gone : ∀ p s, (p, s) ∈ c.replaced → c.net.Gone p
  queued : ∀ p s, (p, s) ∈ queue → c.net.IsGate p ∧
    (c.net.isLive p = true → c.net.Pending p (resolved c.replaced s))
  hashed : ∀ p, c.net.isLive p = true → c.net.IsGate p → c.net.Hashed p ∨ ∃ s, (p, s) ∈ queue
  advance : Relation.ReflTransGen Advance net₁ c.net

/-- A signal that makes a live gate redundant does not come from a replaced node. -/
theorem Coherent.not_gone_of_redundant (coherent : net.Coherent) (live : net.isLive p = true)
    (redundant : net.Redundant p s) (liveTarget : net.isLive s.node = true) : ¬ net.Gone s.node := by
  intro gone
  rcases redundant with trivial | ⟨g, fanins, fanins', -, hkind, -⟩
  · rcases coherent.of_trivial trivial with hs | ⟨rfl, hconstant⟩
    · exact (references_eq_zero_iff.1 gone.unused).1 p live s hs rfl
    · exact gone.nonconstant false ((coherent.constant_iff 0 false).2 hconstant)
  · have dead := gone.dead ⟨g, fanins', hkind⟩
    rw [liveTarget] at dead
    cases dead

theorem Cascading.resolved_of_redundant (h : Cascading net₁ c queue) (live : c.net.isLive p = true)
    (redundant : c.net.Redundant p s) (liveTarget : c.net.isLive s.node = true) :
    resolved c.replaced s = s :=
  resolved_of_not_mem fun u hu =>
    h.coherent.not_gone_of_redundant live redundant liveTarget (h.gone s.node u hu)

theorem Redirected.constant_iff {m : Nat} (h : Redirected net old new net' queue) {value : Bool} :
    net'.kind? m = some (.constant value) ↔ net.kind? m = some (.constant value) := by
  rw [h.graph.kind?, kind?_mapReferences]
  split
  · rcases hkind : net.kind? m with _ | (_ | _ | _) <;> simp [NodeKind.mapFanins]
  · rfl

theorem Redirected.isGate {m : Nat} (h : Redirected net old new net' queue) :
    net'.IsGate m ↔ net.IsGate m :=
  h.graph.isGate.trans isGate_mapReferences

/-- A replaced node stays so, unless it is replaced with. -/
theorem Gone.redirect {m : Nat} (gone : net.Gone m) (hne : new.node ≠ old) (hm : m ≠ new.node)
    (h : Redirected net old new net' queue) : net'.Gone m where
  unused := by
    refine Nat.le_zero.1 (Nat.le_trans (h.references m) ?_)
    rw [references_redirected hne, if_neg hm, gone.unused]
    split <;> exact Nat.le_refl 0
  dead gate := by
    apply Bool.eq_false_iff.2
    intro hlive
    exact Bool.eq_false_iff.1 (gone.dead (h.isGate.1 gate)) (h.live m hlive)
  nonconstant value hkind := gone.nonconstant value (h.constant_iff.1 hkind)

theorem Redirected.gone (h : Redirected net old new net' queue) (hne : new.node ≠ old)
    (nonconstant : ∀ value, net.kind? old ≠ some (.constant value)) : net'.Gone old where
  unused := by
    refine Nat.le_zero.1 (Nat.le_trans (h.references old) ?_)
    rw [references_redirected hne, if_pos rfl]
  dead gate := h.dead (h.isGate.1 gate)
  nonconstant value hkind := nonconstant value (h.constant_iff.1 hkind)

theorem nonconstant_of_isGate (gate : net.IsGate p) (value : Bool) :
    net.kind? p ≠ some (.constant value) := by
  obtain ⟨g, fanins, hkind⟩ := gate
  rw [hkind]
  exact fun h => by cases h

/-- The first redirection of a hash-consed network starts a cascade. -/
theorem HashConsed.cascading (consed : net.HashConsed) (hne : new.node ≠ old)
    (nonconstant : ∀ value, net.kind? old ≠ some (.constant value))
    (h : Redirected net old new net' queue) : Cascading net' ⟨net', [(old, new)]⟩ queue where
  coherent := h.coherent
  chained := .cons .nil (fun _ => List.not_mem_nil) (fun _ => List.not_mem_nil) hne
  gone p s hmem := by
    cases List.mem_singleton.1 hmem
    exact h.gone hne nonconstant
  queued p s hmem := by
    obtain ⟨gate, live, redundant, ne, liveTarget⟩ := h.queued p s hmem
    refine ⟨h.isGate.2 gate, fun _ => .inr ?_⟩
    rw [resolved_of_not_mem]
    · exact redundant
    · intro u hu
      have hold : s.node = old := (Prod.ext_iff.1 (List.mem_singleton.1 hu)).1
      exact h.coherent.not_gone_of_redundant live redundant liveTarget
        (hold.symm ▸ h.gone hne nonconstant)
  hashed p live gate := h.hashed p live (consed.hashed p (h.live p live) (h.isGate.1 gate))
  advance := .refl

/-- The top of the queue is going to be replaced. -/
def ready (c : Cascade) : List (Nat × Signal) → Bool
  | [] => false
  | (p, s) :: _ => c.net.isLive p && c.net.isLive (resolved c.replaced s).node &&
    (resolved c.replaced s).node != p

/-- A replacement kills a gate and queues at most as many as were alive; any other step shortens the
queue or makes its top ready. -/
def cascadeMeasure (c : Cascade) (queue : List (Nat × Signal)) : Nat :=
  c.net.liveGates.length * (c.net.liveGates.length + 1) + 2 * queue.length - (ready c queue).toNat

theorem mul_succ_add_le {a b : Nat} (h : a < b) : a * (a + 1) + 2 * b ≤ b * (b + 1) := by
  have below : a * (a + 1) ≤ a * b := Nat.mul_le_mul_left a h
  have above : (a + 1) * b ≤ b * b := Nat.mul_le_mul_right b h
  have square : b * (b + 1) = b * b + b := Nat.mul_succ b b
  rw [Nat.succ_mul] at above
  omega

theorem length_liveGates_lt (h : Redirected net p new net' queue) (gate : net.IsGate p)
    (live : net.isLive p = true) : net'.liveGates.length < net.liveGates.length := by
  have nodup : (p :: net'.liveGates).Nodup := by
    refine List.nodup_cons.2 ⟨fun hmem => ?_, nodup_liveGates net'⟩
    have hlive := (mem_liveGates.1 hmem).1
    rw [h.dead gate] at hlive
    cases hlive
  refine (nodup.subperm fun m hm => ?_).length_le
  rcases List.mem_cons.1 hm with rfl | hm
  · exact mem_liveGates.2 ⟨live, gate⟩
  · obtain ⟨hlive, hgate⟩ := mem_liveGates.1 hm
    exact mem_liveGates.2 ⟨h.live m hlive, h.isGate.1 hgate⟩

/-- The step of the cascade on a gate that is dead by now. -/
theorem cascadeStep_of_dead (gate : c.net.IsGate p) (dead : c.net.isLive p = false) :
    cascadeStep c (p, s) = .ok (c, []) := by
  obtain ⟨nd, hnd⟩ := exists_node gate.lt_size
  rw [isLive_of_getElem? hnd, Bool.not_eq_false'] at dead
  simp only [cascadeStep, node_eq_ok.2 hnd, ok_bind, dead, if_true]
  rfl

theorem cascadeStep_of_lost (chained : Chained c.replaced) (live : c.net.isLive p = true)
    (lost : c.net.Lost p (resolved c.replaced s)) :
    cascadeStep c (p, s) = c.net.rekey p >>= fun (net, found) =>
      .ok ({ c with net }, (found.map fun s => (p, s)).toList) := by
  obtain ⟨nd, hnd, hdead⟩ := isLive_iff.1 live
  simp only [cascadeStep, node_eq_ok.2 hnd, ok_bind, hdead, chained.resolve_eq_ok]
  rcases lost with heq | ⟨inRange, dead⟩
  · simp only [heq, if_true]
    rfl
  · obtain ⟨target, htarget⟩ := exists_node inRange
    rw [isLive_of_getElem? htarget, Bool.not_eq_false'] at dead
    by_cases heq : (resolved c.replaced s).node = p
    · simp only [heq, if_true]
      rfl
    · simp only [heq, if_false, node_eq_ok.2 htarget, map_ok, dead, ok_bind]
      rfl

theorem cascadeStep_of_ready (chained : Chained c.replaced) (live : c.net.isLive p = true)
    (ht : resolved c.replaced s = t) (hne : t.node ≠ p) (liveTarget : c.net.isLive t.node = true) :
    cascadeStep c (p, s) = c.net.redirect p t >>= fun (net, queue) =>
      .ok (⟨net, (p, t) :: c.replaced⟩, queue) := by
  obtain ⟨nd, hnd, hdead⟩ := isLive_iff.1 live
  obtain ⟨target, htarget, hdead'⟩ := isLive_iff.1 liveTarget
  simp only [cascadeStep, node_eq_ok.2 hnd, ok_bind, hdead, chained.resolve_eq_ok, ht, if_neg hne,
    node_eq_ok.2 htarget, map_ok, hdead']
  rfl

/-- A queued gate that is dead by now is left out. -/
theorem Cascading.drop (h : Cascading net₁ c ((p, s) :: queue)) (dead : c.net.isLive p = false) :
    Cascading net₁ c queue ∧ cascadeMeasure c queue < cascadeMeasure c ((p, s) :: queue) := by
  refine ⟨⟨h.coherent, h.chained, h.gone, fun q u hq => h.queued q u (List.mem_cons_of_mem _ hq),
    fun q live gate => ?_, h.advance⟩, ?_⟩
  · refine (h.hashed q live gate).imp_right fun ⟨u, hu⟩ => ⟨u, ?_⟩
    rcases List.mem_cons.1 hu with heq | hu
    · cases heq
      rw [dead] at live
      cases live
    · exact hu
  · have hready : ready c ((p, s) :: queue) = false := by simp [ready, dead]
    simp only [cascadeMeasure, hready, List.length_cons, Bool.toNat_false]
    omega

theorem ready_of_lost (lost : c.net.Lost p (resolved c.replaced s)) :
    ready c ((p, s) :: queue) = false := by
  rcases lost with heq | ⟨-, dead⟩
  · simp [ready, heq]
  · simp [ready, dead]

/-- Once the top of the queue is in the table, the queue may go on without it. -/
theorem Cascading.entered (h : Cascading net₁ c ((p, s) :: queue)) (enters : Enters c.net net')
    (hashed : net'.Hashed p) : Cascading net₁ { c with net := net' } queue := by
  have sameLive : ∀ q, net'.isLive q = c.net.isLive q := congrFun enters.live
  have references := enters.graph.references enters.live
  refine ⟨enters.coherent, h.chained, ?_, ?_, ?_, h.advance.tail (.enters enters)⟩
  · intro q u hq
    have gone := h.gone q u hq
    refine ⟨(congrFun references q).trans gone.unused, fun gate => ?_, fun value => ?_⟩
    · exact (sameLive q).trans (gone.dead (enters.graph.isGate.1 gate))
    · rw [enters.graph.kind?]
      exact gone.nonconstant value
  · intro q u hq
    obtain ⟨gate, pending⟩ := h.queued q u (List.mem_cons_of_mem _ hq)
    refine ⟨enters.graph.isGate.2 gate, fun hlive => ?_⟩
    have before := pending ((sameLive q).symm.trans hlive)
    unfold Pending Lost at before ⊢
    rwa [enters.graph.size, sameLive, enters.graph.redundant]
  · intro q hlive gate
    rcases h.hashed q ((sameLive q).symm.trans hlive) (enters.graph.isGate.1 gate) with
      hhashed | ⟨u, hu⟩
    · exact .inl (enters.hashed hhashed)
    · rcases List.mem_cons.1 hu with heq | hu
      · cases heq
        exact .inl hashed
      · exact .inr ⟨u, hu⟩

theorem length_liveGates_eq (enters : Enters net net') :
    net'.liveGates.length = net.liveGates.length := by
  apply congrArg List.length
  unfold liveGates
  rw [enters.graph.size]
  apply List.filter_congr
  intro q _
  rw [Bool.eq_iff_iff, isLiveGate_iff, isLiveGate_iff, enters.live, enters.graph.isGate]

/-- The top of the queue may get another replacement. -/
theorem Cascading.requeued {u : Signal} (h : Cascading net₁ c ((p, s) :: queue))
    (live : c.net.isLive p = true) (redundant : c.net.Redundant p u)
    (liveTarget : c.net.isLive u.node = true) : Cascading net₁ c ((p, u) :: queue) := by
  obtain ⟨gate, -⟩ := h.queued p s List.mem_cons_self
  refine ⟨h.coherent, h.chained, h.gone, ?_, ?_, h.advance⟩
  · intro q w hq
    rcases List.mem_cons.1 hq with heq | hq
    · cases heq
      rw [h.resolved_of_redundant live redundant liveTarget]
      exact ⟨gate, fun _ => .inr redundant⟩
    · exact h.queued q w (List.mem_cons_of_mem _ hq)
  · intro q hlive gate
    apply (h.hashed q hlive gate).imp_right
    rintro ⟨w, hw⟩
    rcases List.mem_cons.1 hw with heq | hw
    · cases heq
      exact ⟨u, List.mem_cons_self⟩
    · exact ⟨w, List.mem_cons_of_mem _ hw⟩

/-- A gate that has lost its replacement is entered under its own key, or queued again. -/
theorem Cascading.rekey (h : Cascading net₁ c ((p, s) :: queue)) (live : c.net.isLive p = true)
    (lost : c.net.Lost p (resolved c.replaced s)) :
    ∃ net' found, c.net.rekey p = .ok (net', found) ∧
      Cascading net₁ { c with net := net' } ((found.map fun s => (p, s)).toList ++ queue) ∧
      cascadeMeasure { c with net := net' } ((found.map fun s => (p, s)).toList ++ queue)
        < cascadeMeasure c ((p, s) :: queue) := by
  obtain ⟨gate, -⟩ := h.queued p s List.mem_cons_self
  have hready : ready c ((p, s) :: queue) = false := ready_of_lost lost
  obtain ⟨⟨net', found⟩, ok, outcome⟩ := h.coherent.rekey_eq_ok live gate
  refine ⟨net', found, ok, ?_⟩
  cases outcome with
  | entered enters hashed =>
    refine ⟨h.entered enters hashed, ?_⟩
    simp only [cascadeMeasure, hready, length_liveGates_eq enters, List.length_cons,
      Option.map_none, Option.toList_none, List.nil_append, Bool.toNat_false]
    omega
  | found redundant ne liveTarget =>
    next u =>
    refine ⟨h.requeued live redundant liveTarget, ?_⟩
    have again : ready c ((p, u) :: queue) = true := by
      simp [ready, h.resolved_of_redundant live redundant liveTarget, live, liveTarget, ne]
    simp only [cascadeMeasure, hready, Option.map_some, Option.toList_some, List.cons_append,
      List.nil_append, again, List.length_cons, Bool.toNat_true, Bool.toNat_false]
    omega

/-- A gate whose replacement is alive is redundant with it still. -/
theorem Cascading.redundant (h : Cascading net₁ c ((p, s) :: queue)) (live : c.net.isLive p = true)
    (ht : resolved c.replaced s = t) (hne : t.node ≠ p) (liveTarget : c.net.isLive t.node = true) :
    c.net.Redundant p t := by
  obtain ⟨-, pending⟩ := h.queued p s List.mem_cons_self
  rw [ht] at pending
  apply (pending live).resolve_left
  intro lost
  rcases lost with heq | ⟨-, dead⟩
  · exact hne heq
  · rw [liveTarget] at dead
    cases dead

/-- The replacement of a gate makes no cycle, although no step of the cascade looks for one. -/
theorem Cascading.redirectable (h : Cascading net₁ c ((p, s) :: queue))
    (live : c.net.isLive p = true) (ht : resolved c.replaced s = t) (hne : t.node ≠ p)
    (liveTarget : c.net.isLive t.node = true) : c.net.Redirectable p t := by
  have redundant := h.redundant live ht hne liveTarget
  exact ⟨lt_size_of_isLive live, h.coherent.typed_of_redundant redundant, liveTarget,
    h.coherent.not_inCone_of_redundant redundant hne⟩

/-- A gate that still has its replacement is replaced by it. -/
theorem Cascading.redirect (h : Cascading net₁ c ((p, s) :: queue)) (live : c.net.isLive p = true)
    (ht : resolved c.replaced s = t) (hne : t.node ≠ p) (liveTarget : c.net.isLive t.node = true) :
    ∃ net' pushed, c.net.redirect p t = .ok (net', pushed) ∧
      Cascading net₁ ⟨net', (p, t) :: c.replaced⟩ (pushed ++ queue) ∧
      cascadeMeasure ⟨net', (p, t) :: c.replaced⟩ (pushed ++ queue)
        < cascadeMeasure c ((p, s) :: queue) := by
  obtain ⟨gate, -⟩ := h.queued p s List.mem_cons_self
  have wf := h.coherent.toWellFormed
  have redundant := h.redundant live ht hne liveTarget
  have redirectable := h.redirectable live ht hne liveTarget
  obtain ⟨net', pushed, ok, redirected⟩ := h.coherent.redirect_eq_ok redirectable
  have fresh : ∀ u, (p, u) ∉ c.replaced := by
    intro u hu
    have dead := (h.gone p u hu).dead gate
    rw [live] at dead
    cases dead
  have target : ∀ u, (t.node, u) ∉ c.replaced := fun u => ht ▸ h.chained.resolved_not_mem s u
  have gone : ∀ q u, (q, u) ∈ (p, t) :: c.replaced → net'.Gone q := by
    intro q u hq
    rcases List.mem_cons.1 hq with heq | hq
    · cases heq
      exact redirected.gone hne (nonconstant_of_isGate gate)
    · exact (h.gone q u hq).redirect hne (fun heq => target u (heq ▸ hq)) redirected
  refine ⟨net', pushed, ok, ⟨redirected.coherent, .cons h.chained fresh target hne, gone, ?_, ?_,
    h.advance.tail (.redirected h.coherent gate live redundant redirectable redirected)⟩, ?_⟩
  · intro q u hq
    rcases List.mem_append.1 hq with hq | hq
    · obtain ⟨gateq, liveq, redundantq, -, liveu⟩ := redirected.queued q u hq
      refine ⟨redirected.isGate.2 gateq, fun _ => .inr ?_⟩
      rw [resolved_of_not_mem]
      · exact redundantq
      · exact fun w hw => redirected.coherent.not_gone_of_redundant liveq redundantq liveu
          (gone u.node w hw)
    · obtain ⟨gateq, pending⟩ := h.queued q u (List.mem_cons_of_mem _ hq)
      refine ⟨redirected.isGate.2 gateq, fun liveq => ?_⟩
      have hqp : q ≠ p := by
        rintro rfl
        rw [redirected.dead gate] at liveq
        cases liveq
      have liveq' := redirected.live q liveq
      exact (pending liveq').redirect wf gate live redundant hne liveTarget redirected hqp liveq'
  · intro q liveq gateq
    rcases h.hashed q (redirected.live q liveq) (redirected.isGate.1 gateq) with hhashed | ⟨u, hu⟩
    · apply (redirected.hashed q liveq hhashed).imp_right
      rintro ⟨u, hu⟩
      exact ⟨u, List.mem_append_left _ hu⟩
    · rcases List.mem_cons.1 hu with heq | hu
      · cases heq
        rw [redirected.dead gate] at liveq
        cases liveq
      · exact .inr ⟨u, List.mem_append_right _ hu⟩
  · have fewer := length_liveGates_lt redirected gate live
    have bound := redirected.length
    have square := mul_succ_add_le fewer
    have top := Bool.toNat_le (ready c ((p, s) :: queue))
    simp only [cascadeMeasure, List.length_append, List.length_cons]
    omega

/-- Whatever the top of the queue is, the cascade goes on. -/
theorem Cascading.step (h : Cascading net₁ c ((p, s) :: queue)) :
    ∃ c' pushed, cascadeStep c (p, s) = .ok (c', pushed) ∧ Cascading net₁ c' (pushed ++ queue) ∧
      cascadeMeasure c' (pushed ++ queue) < cascadeMeasure c ((p, s) :: queue) := by
  obtain ⟨gate, pending⟩ := h.queued p s List.mem_cons_self
  cases live : c.net.isLive p with
  | false =>
    obtain ⟨h', fewer⟩ := h.drop live
    exact ⟨c, [], cascadeStep_of_dead gate live, h', fewer⟩
  | true =>
    by_cases lost : c.net.Lost p (resolved c.replaced s)
    · obtain ⟨net', found, ok, h', fewer⟩ := h.rekey live lost
      exact ⟨_, _, by rw [cascadeStep_of_lost h.chained live lost, ok]; rfl, h', fewer⟩
    · obtain ⟨hne, hlive⟩ := not_or.1 lost
      have inRange := (h.coherent.typed_of_redundant ((pending live).resolve_left lost)).inRange
      have liveTarget : c.net.isLive (resolved c.replaced s).node = true := by
        by_contra dead
        exact hlive ⟨inRange, Bool.eq_false_iff.2 dead⟩
      obtain ⟨net', pushed, ok, h', fewer⟩ := h.redirect live rfl hne liveTarget
      exact ⟨_, _, by rw [cascadeStep_of_ready h.chained live rfl hne liveTarget, ok]; rfl, h', fewer⟩

end LogicNet.Network
