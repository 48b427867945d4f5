import LogicNet.Proofs.Cascade
import LogicNet.Proofs.Dependence
import LogicNet.Proofs.Edit

/-! # Substitutions as a whole

A substitution that passes its checks fails only if it would make a cycle.  Otherwise it redirects the
node, goes through the whole cascade and leaves a hash-consed network.
-/

namespace LogicNet.Network

variable {net net' net₁ : Network} {old n : Nat} {new : Signal} {c : Cascade}
  {queue items : List (Nat × Signal)}

/-- What the checks of a substitution accept. -/
structure Substitutable (net : Network) (old : Nat) (new : Signal) : Prop where
  live : net.isLive old = true
  liveTarget : net.isLive new.node = true
  ne : new.node ≠ old
  nonconstant : ∀ value, net.kind? old ≠ some (.constant value)

theorem isConstant_iff : net.isConstant n = true ↔ ∃ value, net.kind? n = some (.constant value) := by
  unfold isConstant kind?
  cases net.nodes[n]? with
  | none => simp
  | some nd => cases hkind : nd.kind <;> simp [Node.isConstant, hkind]

theorem checkSubstitution_eq_ok :
    net.checkSubstitution old new = .ok () ↔ net.Substitutable old new := by
  constructor
  · intro ok
    unfold checkSubstitution checkNode checkLive at ok
    by_cases hold : old < net.size
    · by_cases hnew : new.node < net.size
      · by_cases heq : old = new.node
        · simp [hnew, heq] at ok
        · by_cases hconstant : net.isConstant old = true
          · simp [hold, hnew, heq, hconstant] at ok
          · by_cases hlive : net.isLive old = true
            · by_cases hlive' : net.isLive new.node = true
              · refine ⟨hlive, hlive', Ne.symm heq, fun value hkind => hconstant ?_⟩
                exact isConstant_iff.2 ⟨value, hkind⟩
              · simp [hold, hnew, heq, hconstant, hlive, hlive'] at ok
            · simp [hold, hnew, heq, hconstant, hlive] at ok
      · simp [hold, hnew] at ok
    · simp [hold] at ok
  · intro h
    have hconstant : ¬ net.isConstant old = true := fun hconstant => by
      obtain ⟨value, hkind⟩ := isConstant_iff.1 hconstant
      exact h.nonconstant value hkind
    simp [checkSubstitution, checkNode, checkLive, lt_size_of_isLive h.live,
      lt_size_of_isLive h.liveTarget, Ne.symm h.ne, hconstant, h.live, h.liveTarget]

/-- The recount agrees with the stored counts. -/
theorem Coherent.checkFanoutCounts_eq_ok (coherent : net.Coherent) :
    net.checkFanoutCounts = .ok () := by
  apply forM_eq_ok.2
  intro m hm
  have inRange := List.mem_range.1 hm
  obtain ⟨nd, hnd⟩ := exists_node inRange
  have hcount : nd.fanout = net.referenceCounts.getD m 0 := by
    rw [← fanout_of_getElem? hnd, coherent.counted m, Array.getD_eq_getD_getElem?,
      getElem?_referenceCounts inRange, Option.getD_some]
  rw [node_eq_ok.2 hnd, ok_bind]
  simp only [← hcount, ne_eq, not_true_eq_false, if_false, pure_eq_ok]

/-- All states that a cascade comes through are alike. -/
theorem Cascading.of_visits (h : Cascading net₁ c queue) {c' : Cascade}
    (visits : Worklist.Visits cascadeStep (c, queue) (c', items)) : Cascading net₁ c' items := by
  refine visits.invariant (fun c₁ item rest c₂ pushed h ok => ?_) h
  obtain ⟨c₃, pushed', ok', h', -⟩ := h.step
  rw [ok] at ok'
  cases ok'
  exact h'

/-- What a substitution comes to: a first redirection, and the steps of the cascade after it. -/
structure Substituted (net : Network) (old : Nat) (new : Signal) (net' : Network) : Prop where
  consed : net'.HashConsed
  steps : ∃ net₁ queue, Redirected net old new net₁ queue ∧ Relation.ReflTransGen Advance net₁ net'

theorem Substitutable.redirectable (h : net.Substitutable old new) (typed : net.Typed new)
    (hcone : ¬ net.InCone old new.node) : net.Redirectable old new :=
  ⟨lt_size_of_isLive h.live, typed, h.liveTarget, hcone⟩

/-- The first step of a cascade is the redirection that was asked for. -/
theorem HashConsed.first_step (consed : net.HashConsed) (h : net.Substitutable old new)
    (typed : net.Typed new) (hcone : ¬ net.InCone old new.node) : ∃ net₁ queue,
      cascadeStep ⟨net, []⟩ (old, new) = .ok (⟨net₁, [(old, new)]⟩, queue) ∧
      Redirected net old new net₁ queue ∧ Cascading net₁ ⟨net₁, [(old, new)]⟩ queue := by
  obtain ⟨net₁, queue, ok, redirected⟩ :=
    consed.redirect_eq_ok (h.redirectable typed hcone)
  refine ⟨net₁, queue, ?_, redirected, consed.cascading h.ne h.nonconstant redirected⟩
  apply (cascadeStep_of_ready (c := ⟨net, []⟩) .nil h.live rfl h.ne h.liveTarget).trans
  change (net.redirect old new >>= _) = _
  rw [ok]
  rfl

/-- Any state that a substitution comes through is the first one, or one of the cascade after it. -/
theorem HashConsed.visits_cases (consed : net.HashConsed) (h : net.Substitutable old new)
    (typed : net.Typed new) (hcone : ¬ net.InCone old new.node)
    (visits : Worklist.Visits cascadeStep (⟨net, []⟩, [(old, new)]) (c, items)) :
    (c = ⟨net, []⟩ ∧ items = [(old, new)]) ∨ ∃ net₁, Cascading net₁ c items := by
  obtain ⟨net₁, queue, first, -, start⟩ := consed.first_step h typed hcone
  rcases Relation.ReflTransGen.cases_head visits with heq | ⟨b, step, later⟩
  · cases heq
    exact .inl ⟨rfl, rfl⟩
  · cases step with
    | work rest ok =>
      rw [first] at ok
      cases ok
      rw [List.append_nil] at later
      exact .inr ⟨net₁, start.of_visits later⟩

theorem HashConsed.coherent_of_visits (consed : net.HashConsed) (h : net.Substitutable old new)
    (typed : net.Typed new) (hcone : ¬ net.InCone old new.node)
    (visits : Worklist.Visits cascadeStep (⟨net, []⟩, [(old, new)]) (c, items)) : c.net.Coherent := by
  rcases consed.visits_cases h typed hcone visits with ⟨rfl, -⟩ | ⟨net₁, cascading⟩
  · exact consed.toCoherent
  · exact cascading.coherent

/-- When the replacement of the node on top is alive, the node can be replaced by it. -/
theorem HashConsed.redirectable_of_visits (consed : net.HashConsed) (h : net.Substitutable old new)
    (typed : net.Typed new) (hcone : ¬ net.InCone old new.node) {p : Nat} {s t : Signal}
    (visits : Worklist.Visits cascadeStep (⟨net, []⟩, [(old, new)]) (c, (p, s) :: items))
    (live : c.net.isLive p = true) (resolve : resolve c.replaced (c.replaced.length + 1) s = .ok t)
    (hne : t.node ≠ p) (liveTarget : c.net.isLive t.node = true) : c.net.Redirectable p t := by
  rcases consed.visits_cases h typed hcone visits with ⟨rfl, top⟩ | ⟨net₁, cascading⟩
  · cases top
    cases resolve
    exact h.redirectable typed hcone
  · rw [cascading.chained.resolve_eq_ok] at resolve
    cases resolve
    exact cascading.redirectable live rfl hne liveTarget

theorem length_liveGates_le (net : Network) : net.liveGates.length ≤ net.size := by
  have bound := List.length_filter_le net.isLiveGate (List.range net.size)
  rwa [List.length_range] at bound

/-- The bound on the steps of a cascade is enough. -/
theorem cascadeMeasure_lt_bound (redirected : Redirected net old new net₁ queue)
    (replaced : List (Nat × Signal)) :
    cascadeMeasure ⟨net₁, replaced⟩ queue + 1 ≤ net.cascadeBound := by
  have hsize : net₁.size = net.size := by rw [redirected.graph.size, size_mapReferences]
  have gates := hsize ▸ length_liveGates_le net₁
  have queued := Nat.le_trans redirected.length (length_liveGates_le net)
  have product : net₁.liveGates.length * (net₁.liveGates.length + 1) ≤ net.size * (net.size + 1) :=
    Nat.mul_le_mul gates (Nat.succ_le_succ gates)
  have square : (net.size + 2) * (net.size + 2) = net.size * (net.size + 1) + 3 * net.size + 4 := by
    simp only [Nat.add_mul, Nat.mul_add]
    omega
  simp only [cascadeMeasure, cascadeBound, square]
  omega

theorem HashConsed.substituted_eq_ok (consed : net.HashConsed) (h : net.Substitutable old new)
    (typed : net.Typed new) (hcone : ¬ net.InCone old new.node) :
    ∃ net', net.substituted old new = .ok net' ∧ Substituted net old new net' := by
  obtain ⟨found, search, hfound⟩ := consed.dependsOn_eq_ok typed.inRange old
  have notFound : found = false := Bool.eq_false_iff.2 fun h => hcone (hfound.1 h)
  obtain ⟨net₁, queue, first, redirected, start⟩ := consed.first_step h typed hcone
  have bound := cascadeMeasure_lt_bound redirected [(old, new)]
  obtain ⟨c, run, done⟩ := Worklist.drain_of_decreasing cascadeMeasure
    (fun _ _ _ => Cascading.step) (net.cascadeBound - 1) _ queue start (by omega)
  have whole : Worklist.drain cascadeStep net.cascadeBound ⟨net, []⟩ [(old, new)] = .ok c := by
    have hpos : net.cascadeBound = (net.cascadeBound - 1) + 1 := by omega
    rw [hpos, Worklist.drain, first, ok_bind]
    simpa using run
  have drained : ∀ p, ¬ ∃ s, (p, s) ∈ ([] : List (Nat × Signal)) := by
    rintro p ⟨s, hs⟩
    exact List.not_mem_nil hs
  refine ⟨c.net, ?_, ⟨done.coherent, fun p live gate => ?_⟩, net₁, queue, redirected, done.advance⟩
  · simp only [substituted, search, ok_bind, notFound, whole,
      done.coherent.checkFanoutCounts_eq_ok]
    rfl
  · exact (done.hashed p live gate).resolve_right (drained p)

/-- A substitution that would make a cycle faults. -/
theorem HashConsed.substituted_of_inCone (consed : net.HashConsed) (inRange : new.node < net.size)
    (cycle : net.InCone old new.node) :
    net.substituted old new = .error (.createsCycle old new) := by
  obtain ⟨found, search, hfound⟩ := consed.dependsOn_eq_ok inRange old
  simp [substituted, search, hfound.2 cycle]

/-- How a substitution ends. -/
inductive SubstituteOutcome (net : Network) (old : Nat) (new : Signal) : Prop where
  | refused {cause : NetworkError} (checked : net.checkSubstitution old new = .error cause)
    (run : (substitute old new).run net = .error (.refused cause) net)
  | cycle (checked : net.Substitutable old new) (cycle : net.InCone old new.node)
    (run : (substitute old new).run net = .error (.fault (.createsCycle old new)) net)
  | done {net' : Network} (checked : net.Substitutable old new)
    (acyclic : ¬ net.InCone old new.node) (run : (substitute old new).run net = .ok () net')
    (substituted : Substituted net old new net')

/-- A substitution is refused by its checks, or it is carried out; the one fault is that of a cycle. -/
theorem HashConsed.substitute_outcome (consed : net.HashConsed) (old : Nat)
    (polarity : new.complemented = true → net.family.hasComplementedEdges = true) :
    SubstituteOutcome net old new := by
  cases hcheck : net.checkSubstitution old new with
  | error cause =>
    apply SubstituteOutcome.refused hcheck
    rw [substitute, Edit.run_get_bind, hcheck]
    rfl
  | ok =>
    have h := checkSubstitution_eq_ok.1 hcheck
    have typed : net.Typed new := ⟨lt_size_of_isLive h.liveTarget, polarity⟩
    by_cases cycle : net.InCone old new.node
    · apply SubstituteOutcome.cycle h cycle
      rw [substitute, Edit.run_get_bind, hcheck,
        consed.substituted_of_inCone typed.inRange cycle]
      rfl
    · obtain ⟨net', ok, substituted⟩ := consed.substituted_eq_ok h typed cycle
      refine .done h cycle ?_ substituted
      rw [substitute, Edit.run_get_bind, hcheck, ok]
      rfl

end LogicNet.Network
