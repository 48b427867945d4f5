import LogicNet.Proofs.Redirection

/-! # Replacements

A cascade remembers which signal replaced which node.  A signal that was found earlier is read through
all replacements made since, in their order.  Following the replacements from node to node comes to the
same, because no replacement leads back to a node that was replaced before.
-/

namespace LogicNet.Network

variable {net net' : Network} {p q old : Nat} {s t u new : Signal} {replaced : List (Nat × Signal)}

/-- A signal read through replacements, the earliest of which comes last. -/
def resolved (replaced : List (Nat × Signal)) (s : Signal) : Signal :=
  replaced.foldr (fun r s => redirected r.1 r.2 s) s

/-- Each node is replaced once, and only by nodes that have not been replaced. -/
inductive Chained : List (Nat × Signal) → Prop where
  | nil : Chained []
  | cons {old : Nat} {new : Signal} {rest : List (Nat × Signal)} (chained : Chained rest)
    (fresh : ∀ s, (old, s) ∉ rest) (target : ∀ s, (new.node, s) ∉ rest) (ne : new.node ≠ old) :
    Chained ((old, new) :: rest)

theorem lookup_eq_none (h : ∀ s, (old, s) ∉ replaced) : replaced.lookup old = none := by
  rw [List.lookup_eq_none_iff]
  intro r hr
  exact bne_iff_ne.2 fun heq => h r.2 (heq ▸ hr)

theorem mem_of_lookup (h : replaced.lookup old = some new) : (old, new) ∈ replaced := by
  obtain ⟨before, after, rfl, -⟩ := List.lookup_eq_some_iff.1 h
  exact List.mem_append_right _ List.mem_cons_self

/-- One more replacement comes after all earlier ones. -/
theorem resolve_cons {rest : List (Nat × Signal)} (chained : Chained ((old, new) :: rest)) :
    ∀ {fuel : Nat} {s t : Signal}, resolve rest fuel s = .ok t →
      resolve ((old, new) :: rest) (fuel + 1) s = .ok (redirected old new t) := by
  obtain ⟨fresh, target, ne⟩ : (∀ s, (old, s) ∉ rest) ∧ (∀ s, (new.node, s) ∉ rest) ∧
      new.node ≠ old := by
    cases chained with
    | cons _ fresh target ne => exact ⟨fresh, target, ne⟩
  intro fuel
  induction fuel with
  | zero =>
    intro s t ok
    cases ok
  | succ fuel ih =>
    intro s t ok
    rw [resolve] at ok
    rw [resolve, List.lookup_cons]
    cases hlookup : rest.lookup s.node with
    | none =>
      simp only [hlookup, Except.ok.injEq] at ok
      subst ok
      by_cases heq : s.node = old
      · have hnew : (new.node == old) = false := beq_false_of_ne ne
        rw [beq_iff_eq.2 heq, redirected_of_eq heq]
        simp only [resolve, List.lookup_cons, Signal.complementIf_node, hnew,
          lookup_eq_none target]
      · rw [beq_false_of_ne heq, redirected_of_ne heq]
    | some next =>
      simp only [hlookup] at ok
      have hne : s.node ≠ old := fun heq => fresh next (heq ▸ mem_of_lookup hlookup)
      rw [beq_false_of_ne hne]
      exact ih ok

theorem Chained.resolve_eq_ok (chained : Chained replaced) (s : Signal) :
    resolve replaced (replaced.length + 1) s = .ok (resolved replaced s) := by
  induction replaced with
  | nil => rfl
  | cons r rest ih =>
    obtain ⟨old, new⟩ := r
    have before : Chained rest := by
      cases chained with
      | cons before _ _ _ => exact before
    exact resolve_cons chained (ih before)

/-- Nothing is resolved to a node that was replaced. -/
theorem Chained.resolved_not_mem (chained : Chained replaced) (s t : Signal) :
    ((resolved replaced s).node, t) ∉ replaced := by
  induction chained generalizing t with
  | nil => exact List.not_mem_nil
  | @cons old new rest before fresh target ne ih =>
    intro hmem
    change ((redirected old new (resolved rest s)).node, t) ∈ (old, new) :: rest at hmem
    rw [redirected_node] at hmem
    split at hmem
    · rcases List.mem_cons.1 hmem with heq | hmem
      · exact ne (Prod.ext_iff.1 heq).1
      · exact target t hmem
    · rcases List.mem_cons.1 hmem with heq | hmem
      · exact absurd (Prod.ext_iff.1 heq).1 ‹_›
      · exact ih t hmem

theorem resolved_of_not_mem (h : ∀ t, (s.node, t) ∉ replaced) : resolved replaced s = s := by
  induction replaced with
  | nil => rfl
  | cons r rest ih =>
    obtain ⟨old, new⟩ := r
    have before : resolved rest s = s := ih fun t ht => h t (List.mem_cons_of_mem _ ht)
    change redirected old new (resolved rest s) = s
    rw [before]
    refine redirected_of_ne fun heq => h new ?_
    rw [heq]
    exact List.mem_cons_self

/-- The signal that was to replace a gate was released, or comes from the gate itself. -/
def Lost (net : Network) (p : Nat) (s : Signal) : Prop :=
  s.node = p ∨ s.node < net.size ∧ net.isLive s.node = false

/-- A gate is to be replaced by a signal, unless the signal has been lost meanwhile. -/
def Pending (net : Network) (p : Nat) (s : Signal) : Prop := net.Lost p s ∨ net.Redundant p s

theorem kind?_redirected_of_live {g : GateFunction} {fanins : List Signal}
    (graph : SameGraph (net.mapReferences (redirected old new)) net') (live : net.isLive p = true)
    (h : net.kind? p = some (.gate g fanins)) :
    net'.kind? p = some (.gate g (fanins.map (redirected old new))) := by
  rw [graph.kind?, kind?_mapReferences, if_pos live, h]
  rfl

/-- Replacing one redundant gate keeps the redundancy of another, which is then read through the
replacement. -/
theorem Redundant.redirect (wf : net.WellFormed) (hp : net.IsGate p) (hpt : net.Redundant p t)
    (hne : t.node ≠ p) (graph : SameGraph (net.mapReferences (redirected p t)) net')
    (hq : net.Redundant q u) (liveq : net.isLive q = true) (liveu : net.isLive u.node = true)
    (livet : net.isLive t.node = true) : net'.Redundant q (redirected p t u) := by
  have keeps := renaming_redirected p t
  have functions : net'.functions = net.functions := graph.functions
  have ofTrivial : ∀ {s : Signal}, net.canonical q = .ok (.trivial s) →
      net'.canonical q = .ok (.trivial (redirected p t s)) := by
    intro s h
    obtain ⟨g, fanins, hkind, hc⟩ := canonical_eq_ok.1 h
    refine canonical_eq_ok.2 ⟨g, _, kind?_redirected_of_live graph liveq hkind, ?_⟩
    rw [functions]
    refine Canonical.ofGate_map_of_trivial keeps (fun hg => redirected_of_ne ?_) hc
    subst hg
    rintro rfl
    exact wf.not_isGate_of_constant (wf.constant_of_and hkind) hp
  rcases hq with hq | ⟨g, fanins, fanins', hkind, hkind', alike⟩
  · exact .inl (ofTrivial hq)
  · by_cases hup : u.node = p
    · rw [redirected_of_eq hup]
      rw [hup] at hkind'
      rcases hpt with hpt | ⟨g', fanins₁, fanins₂, hkind₁, hkind₂, alike'⟩
      · -- the other gate is equal to the trivial signal too
        rw [canonical_of_kind? hkind'] at hpt
        have hc := Canonical.ofGate_of_alike alike hpt
        rw [← canonical_of_kind? hkind] at hc
        have hc' := ofTrivial hc
        rw [redirected_of_ne (by simpa using hne)] at hc'
        exact .inl hc'
      · obtain ⟨rfl, rfl⟩ : g = g' ∧ fanins' = fanins₁ := by
          rw [hkind'] at hkind₁
          cases hkind₁
          exact ⟨rfl, rfl⟩
        refine .inr ⟨g, _, _, kind?_redirected_of_live graph liveq hkind,
          kind?_redirected_of_live graph livet hkind₂, ?_⟩
        rw [functions, Signal.complementIf_complemented, Bool.xor_comm]
        exact (alike.trans alike').map keeps
    · rw [redirected_of_ne hup]
      refine .inr ⟨g, _, _, kind?_redirected_of_live graph liveq hkind,
        kind?_redirected_of_live graph liveu hkind', ?_⟩
      rw [functions]
      exact alike.map keeps

theorem Pending.redirect (wf : net.WellFormed) (hp : net.IsGate p) (livep : net.isLive p = true)
    (hpt : net.Redundant p t) (hne : t.node ≠ p) (livet : net.isLive t.node = true)
    {queue : List (Nat × Signal)} (h : Redirected net p t net' queue) (hq : net.Pending q u)
    (hqp : q ≠ p) (liveq : net.isLive q = true) : net'.Pending q (redirected p t u) := by
  rcases hq with (rfl | ⟨inRange, dead⟩) | hq
  · rw [redirected_of_ne hqp]
    exact .inl (.inl rfl)
  · have hup : u.node ≠ p := by
      rintro rfl
      rw [livep] at dead
      cases dead
    rw [redirected_of_ne hup]
    refine .inl (.inr ⟨?_, Bool.eq_false_iff.2 fun hlive => ?_⟩)
    · rw [h.graph.size, size_mapReferences]
      exact inRange
    · exact Bool.eq_false_iff.1 dead (h.live _ hlive)
  · cases liveu : net.isLive u.node with
    | true => exact .inr (.redirect wf hp hpt hne h.graph hq liveq liveu livet)
    | false =>
      have hup : u.node ≠ p := by
        rintro rfl
        rw [livep] at liveu
        cases liveu
      rw [redirected_of_ne hup]
      refine .inl (.inr ⟨?_, Bool.eq_false_iff.2 fun hlive => ?_⟩)
      · rw [h.graph.size, size_mapReferences]
        exact (wf.typed_of_redundant hq).inRange
      · exact Bool.eq_false_iff.1 liveu (h.live _ hlive)

end LogicNet.Network
