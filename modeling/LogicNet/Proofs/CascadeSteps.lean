import LogicNet.Proofs.Endurance

/-! # The steps of a cascade

All that one step of a cascade can do: it drops a gate that is dead, enters a gate into the table, or
replaces a redundant gate and queues gates that were over it.  What the first redirection establishes and
every such step keeps holds wherever a substitution comes, and in the end.
-/

namespace LogicNet.Network

variable {net net' net₁ : Network} {p old : Nat} {s t new : Signal} {c c' : Cascade}
  {queue pushed items : List (Nat × Signal)}

theorem mem_of_rekeyParent {state state' : Network × List (Nat × Signal)}
    (ok : rekeyParent state p = .ok state') {item : Nat × Signal} (mem : item ∈ state'.2) :
    item.1 = p ∨ item ∈ state.2 := by
  obtain ⟨net, queue⟩ := state
  obtain ⟨nd, -, ok⟩ := bind_eq_ok.1 ok
  split at ok
  · cases ok
    exact .inr mem
  · obtain ⟨⟨_, found⟩, -, ok⟩ := bind_eq_ok.1 ok
    cases ok
    rcases List.mem_append.1 mem with mem | mem
    · obtain ⟨u, -, rfl⟩ := by simpa using mem
      exact .inl rfl
    · exact .inr mem

theorem mem_of_foldlM_rekeyParent {parents : List Nat} {state state' : Network × List (Nat × Signal)}
    (ok : parents.foldlM rekeyParent state = .ok state') {item : Nat × Signal} (mem : item ∈ state'.2) :
    item.1 ∈ parents ∨ item ∈ state.2 := by
  induction parents generalizing state with
  | nil =>
    cases ok
    exact .inr mem
  | cons p rest ih =>
    rw [List.foldlM_cons] at ok
    obtain ⟨state₁, first, ok⟩ := bind_eq_ok.1 ok
    rcases ih ok with later | before
    · exact .inl (List.mem_cons_of_mem p later)
    · rcases mem_of_rekeyParent first before with rfl | before
      · exact .inl List.mem_cons_self
      · exact .inr before

/-- A redirection queues gates that were over the redirected node. -/
theorem mem_parents_of_redirect (ok : net.redirect old new = .ok (net', queue)) {item : Nat × Signal}
    (mem : item ∈ queue) : item.1 ∈ net.parents old := by
  obtain ⟨_, -, ok⟩ := bind_eq_ok.1 ok
  obtain ⟨_, -, ok⟩ := bind_eq_ok.1 ok
  exact (mem_of_foldlM_rekeyParent ok mem).resolve_right List.not_mem_nil

/-- What one step of a cascade comes to. -/
inductive Handled (c : Cascade) (p : Nat) : Cascade → List (Nat × Signal) → Prop where
  /-- The gate was released meanwhile. -/
  | dropped (dead : c.net.isLive p = false) : Handled c p c []
  /-- The replacement was released meanwhile, so the gate is entered, or queued with another one. -/
  | entered {net' : Network} {found : Option Signal} (enters : Enters c.net net') :
    Handled c p { c with net := net' } (found.map fun s => (p, s)).toList
  /-- The gate is replaced. -/
  | replaced {t : Signal} {net' : Network} {pushed : List (Nat × Signal)} (gate : c.net.IsGate p)
    (live : c.net.isLive p = true) (redundant : c.net.Redundant p t)
    (redirectable : c.net.Redirectable p t) (redirected : Redirected c.net p t net' pushed)
    (parents : ∀ item ∈ pushed, item.1 ∈ c.net.parents p) :
    Handled c p ⟨net', (p, t) :: c.replaced⟩ pushed

theorem Cascading.handled (h : Cascading net₁ c ((p, s) :: queue))
    (ok : cascadeStep c (p, s) = .ok (c', pushed)) : Handled c p c' pushed := by
  obtain ⟨gate, pending⟩ := h.queued p s List.mem_cons_self
  cases live : c.net.isLive p with
  | false =>
    cases (cascadeStep_of_dead gate live).symm.trans ok
    exact .dropped live
  | true =>
    by_cases lost : c.net.Lost p (resolved c.replaced s)
    · obtain ⟨⟨net', found⟩, rekey, outcome⟩ := h.coherent.rekey_eq_ok live gate
      rw [cascadeStep_of_lost h.chained live lost, rekey] at ok
      cases ok
      cases outcome with
      | entered enters => exact .entered enters
      | found => exact .entered h.coherent.enters_refl
    · obtain ⟨ne, hlive⟩ := not_or.1 lost
      have redundant := (pending live).resolve_left lost
      have inRange := (h.coherent.typed_of_redundant redundant).inRange
      have liveTarget : c.net.isLive (resolved c.replaced s).node = true := by
        by_contra dead
        exact hlive ⟨inRange, Bool.eq_false_iff.2 dead⟩
      have redirectable := h.redirectable live rfl ne liveTarget
      obtain ⟨net', pushed', redirect, redirected⟩ := h.coherent.redirect_eq_ok redirectable
      rw [cascadeStep_of_ready h.chained live rfl ne liveTarget, redirect] at ok
      cases ok
      exact .replaced gate live redundant redirectable redirected fun _ => mem_parents_of_redirect redirect

theorem Handled.reworked (h : Handled c p c' pushed) : Reworked c.net c'.net := by
  cases h with
  | dropped => exact .refl c.net
  | entered enters => exact enters.graph.reworked fun n hn => enters.live ▸ hn
  | replaced _ _ _ _ redirected => exact redirected.reworked

/-- What holds after the first redirection, and is kept by every step of the cascade after it, holds
wherever the substitution comes past its start. -/
theorem HashConsed.visits_induction (consed : net.HashConsed) (h : net.Substitutable old new)
    (typed : net.Typed new) (hcone : ¬ net.InCone old new.node)
    (Inv : Cascade → List (Nat × Signal) → Prop)
    (first : ∀ net₁ queue, Redirected net old new net₁ queue → net₁.Gone old →
      (∀ item ∈ queue, item.1 ∈ net.parents old) → Inv ⟨net₁, [(old, new)]⟩ queue)
    (next : ∀ net₁ c p s items c' pushed, Cascading net₁ c ((p, s) :: items) →
      Inv c ((p, s) :: items) → Handled c p c' pushed → Inv c' (pushed ++ items))
    (visits : Worklist.Visits cascadeStep (⟨net, []⟩, [(old, new)]) (c, items)) :
    (c = ⟨net, []⟩ ∧ items = [(old, new)]) ∨ Inv c items := by
  obtain ⟨net₁, queue, step, redirected, start⟩ := consed.first_step h typed hcone
  have parents : ∀ item ∈ queue, item.1 ∈ net.parents old := by
    obtain ⟨net₂, queue', redirect, -⟩ := consed.redirect_eq_ok (h.redirectable typed hcone)
    rw [cascadeStep_of_ready (c := ⟨net, []⟩) .nil h.live rfl h.ne h.liveTarget] at step
    change net.redirect old new >>= _ = _ at step
    rw [redirect] at step
    cases step
    exact fun _ => mem_parents_of_redirect redirect
  rcases Relation.ReflTransGen.cases_head visits with heq | ⟨b, step', later⟩
  · cases heq
    exact .inl ⟨rfl, rfl⟩
  · cases step' with
    | work rest ok =>
      rw [step] at ok
      cases ok
      rw [List.append_nil] at later
      have begun := first net₁ queue redirected (redirected.gone h.ne h.nonconstant) parents
      refine .inr (@Worklist.Visits.invariant _ _ cascadeStep
        (fun c items => Cascading net₁ c items ∧ Inv c items) _ _ later ?_ ⟨start, begun⟩).2
      rintro c ⟨p, s⟩ items c' pushed ⟨cascading, inv⟩ ok
      obtain ⟨c'', pushed', ok', cascading', -⟩ := cascading.step
      cases ok.symm.trans ok'
      exact ⟨cascading', next net₁ c p s items c' pushed cascading inv (cascading.handled ok)⟩

/-- A substitution that is carried out has gone through a cascade to its end. -/
theorem drain_of_substitute (run : (substitute old new).run net = .ok () net') :
    net.Substitutable old new ∧ ∃ c, c.net = net' ∧
      Worklist.drain cascadeStep net.cascadeBound ⟨net, []⟩ [(old, new)] = .ok c := by
  rw [substitute, Edit.run_get_bind] at run
  cases checked : net.checkSubstitution old new with
  | error cause =>
    rw [checked] at run
    cases run
  | ok =>
    refine ⟨checkSubstitution_eq_ok.1 checked, ?_⟩
    rw [checked] at run
    cases substituted : net.substituted old new with
    | error cause =>
      rw [substituted] at run
      cases run
    | ok net₁ =>
      rw [substituted] at run
      cases run
      obtain ⟨found, -, after⟩ := bind_eq_ok.1 substituted
      split at after
      · cases after
      · obtain ⟨c, drained, after⟩ := bind_eq_ok.1 after
        obtain ⟨_, -, after⟩ := bind_eq_ok.1 after
        cases after
        exact ⟨c, rfl, drained⟩

end LogicNet.Network
