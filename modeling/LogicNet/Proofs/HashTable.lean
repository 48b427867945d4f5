import LogicNet.Proofs.Invariants

/-! # Evicting and entering gates

Eviction takes the entry of one gate out of the table of a coherent network.  Entering a live gate
either adds its entry, or finds a live signal that makes the gate redundant.  Neither touches anything
but the table.
-/

namespace LogicNet.Network

variable {net : Network} {n : Nat}

/-- Eviction leaves the entries of all other gates. -/
theorem Coherent.evict_eq_ok (coherent : net.Coherent) (gate : net.IsGate n) :
    ∃ t : GateTable, net.evict n = .ok { net with gateTable := t } ∧
      ∀ key s, t.get? key = some s ↔ net.gateTable.get? key = some s ∧ s.node ≠ n := by
  obtain ⟨c, hc⟩ := coherent.exists_canonical gate
  have ofKey : ∀ key s, net.gateTable.get? key = some s → s.node = n →
      c = .gate key s.complemented := by
    intro key s hget heq
    have hentry := (coherent.entered key s hget).2
    rw [heq, hc] at hentry
    exact Except.ok.inj hentry
  unfold evict
  rw [hc, ok_bind]
  cases c with
  | trivial u =>
    refine ⟨net.gateTable, rfl, fun key s => (and_iff_left_of_imp fun hget heq => ?_).symm⟩
    cases ofKey key s hget heq
  | gate key flip =>
    dsimp only
    split
    · next held =>
      refine ⟨net.gateTable.erase key, rfl, fun k s => ?_⟩
      rw [GateTable.get?_erase]
      obtain ⟨hit, hhit, hnode⟩ := Option.any_eq_true .. |>.1 held
      by_cases hk : k = key
      · subst hk
        simp only [if_true, hhit, reduceCtorEq, false_iff]
        rintro ⟨heq, hne⟩
        cases heq
        exact hne (eq_of_beq hnode)
      · rw [if_neg hk]
        refine (and_iff_left_of_imp fun hget heq => ?_).symm
        cases ofKey k s hget heq
        exact hk rfl
    · next absent =>
      refine ⟨net.gateTable, rfl, fun k s => (and_iff_left_of_imp fun hget heq => ?_).symm⟩
      cases ofKey k s hget heq
      exact absent (by simp [hget, heq])

/-- Evicting a number of gates leaves the entries of all others. -/
theorem Coherent.evictAll_eq_ok {gates : List Nat} (gatesOnly : ∀ p ∈ gates, net.IsGate p)
    (coherent : net.Coherent) :
    ∃ t : GateTable, gates.foldlM evict net = .ok { net with gateTable := t } ∧
      ∀ key s, t.get? key = some s ↔ net.gateTable.get? key = some s ∧ s.node ∉ gates := by
  induction gates generalizing net with
  | nil => exact ⟨net.gateTable, rfl, by simp⟩
  | cons p rest ih =>
    obtain ⟨hp, hrest⟩ := List.forall_mem_cons.1 gatesOnly
    obtain ⟨t, evicted, ht⟩ := coherent.evict_eq_ok hp
    obtain ⟨t', evicted', ht'⟩ := @ih { net with gateTable := t } hrest <|
      coherent.withTable fun key s hget => coherent.entered key s ((ht key s).1 hget).1
    refine ⟨t', by rw [List.foldlM_cons, evicted, ok_bind, evicted'], fun key s => ?_⟩
    rw [ht', ht, List.mem_cons, not_or, and_assoc]

/-- The second network is the first one with more entries in the table. -/
structure Enters (net net' : Network) : Prop where
  graph : SameGraph net net'
  live : net'.isLive = net.isLive
  fanout : net'.fanout = net.fanout
  get? : ∀ key s, net.gateTable.get? key = some s → net'.gateTable.get? key = some s
  coherent : net'.Coherent

theorem Coherent.enters_refl (coherent : net.Coherent) : Enters net net :=
  ⟨.refl net, rfl, rfl, fun _ _ => id, coherent⟩

theorem Enters.trans {net' net'' : Network} (h : Enters net net') (h' : Enters net' net'') :
    Enters net net'' where
  graph := h.graph.trans h'.graph
  live := h'.live.trans h.live
  fanout := h'.fanout.trans h.fanout
  get? key s hget := h'.get? key s (h.get? key s hget)
  coherent := h'.coherent

theorem Enters.hashed {net' : Network} (h : Enters net net') (hashed : net.Hashed n) :
    net'.Hashed n := by
  obtain ⟨key, flip, hc, hget⟩ := hashed
  exact ⟨key, flip, (h.graph.canonical n).trans hc, h.get? key _ hget⟩

/-- A key that is not in use can be given to a live gate that has it. -/
theorem Coherent.enters_insert (coherent : net.Coherent) (live : net.isLive n = true)
    {key : GateKey} {flip : Bool} (hc : net.canonical n = .ok (.gate key flip))
    (free : ∀ s, net.gateTable.get? key = some s → s = ⟨n, flip⟩) :
    Enters net { net with gateTable := net.gateTable.insert key ⟨n, flip⟩ } where
  graph := sameGraph_withTable net _
  live := rfl
  fanout := rfl
  get? k s hget := by
    rw [GateTable.get?_insert]
    split
    · next hk =>
      subst hk
      rw [free s hget]
    · exact hget
  coherent := by
    apply coherent.withTable
    intro k s hget
    rw [GateTable.get?_insert] at hget
    split at hget
    · next hk =>
      cases hget
      exact ⟨live, hk ▸ hc⟩
    · exact coherent.entered k s hget

theorem hashed_insert {key : GateKey} {flip : Bool} (hc : net.canonical n = .ok (.gate key flip)) :
    Hashed { net with gateTable := net.gateTable.insert key ⟨n, flip⟩ } n :=
  ⟨key, flip, ((sameGraph_withTable net _).canonical n).trans hc, by simp⟩

/-- What entering a gate may come to. -/
inductive Rekeyed (net : Network) (n : Nat) : Network × Option Signal → Prop where
  /-- The table holds the gate from now on. -/
  | entered {net' : Network} (enters : Enters net net') (hashed : net'.Hashed n) :
    Rekeyed net n (net', none)
  /-- A live signal makes the gate redundant. -/
  | found {s : Signal} (redundant : net.Redundant n s) (ne : s.node ≠ n)
    (live : net.isLive s.node = true) : Rekeyed net n (net, some s)

theorem Coherent.rekey_eq_ok (coherent : net.Coherent) (live : net.isLive n = true)
    (gate : net.IsGate n) : ∃ result, net.rekey n = .ok result ∧ Rekeyed net n result := by
  obtain ⟨c, hc⟩ := coherent.exists_canonical gate
  unfold rekey
  rw [hc, ok_bind]
  cases c with
  | trivial s =>
    refine ⟨_, rfl, ?_⟩
    rcases coherent.of_trivial hc with hs | ⟨rfl, hconstant⟩
    · refine .found (.inl hc) ?_ (coherent.live_fanins n live s hs)
      rintro rfl
      exact coherent.acyclic _ (.single ⟨s, hs, rfl⟩)
    · refine .found (.inl hc) ?_ (coherent.isLive_of_constant hconstant)
      rintro rfl
      exact coherent.not_isGate_of_constant hconstant gate
  | gate key flip =>
    dsimp only
    split
    · next hget =>
      refine ⟨_, rfl, .entered (coherent.enters_insert live hc fun s hs => ?_) (hashed_insert hc)⟩
      rw [hget] at hs
      cases hs
    · next hit hget =>
      obtain ⟨hlive, hentry⟩ := coherent.entered key hit hget
      by_cases heq : hit.node = n
      · have hhit : hit = ⟨n, flip⟩ := by
          rw [heq, hc] at hentry
          obtain ⟨m, b⟩ := hit
          obtain rfl : m = n := heq
          cases hentry
          rfl
        rw [if_pos heq]
        refine ⟨_, rfl, .entered (coherent.enters_insert live hc fun s hs => ?_) (hashed_insert hc)⟩
        rw [hget] at hs
        exact (Option.some.inj hs).symm.trans hhit
      · rw [if_neg heq]
        obtain ⟨nd, hnd, hdead⟩ := isLive_iff.1 hlive
        rw [node_eq_ok.2 hnd, ok_bind, hdead]
        refine ⟨_, rfl, .found (.inr ?_) heq hlive⟩
        obtain ⟨g, fanins, hkind, hform⟩ := canonical_eq_ok.1 hc
        obtain ⟨g', fanins', hkind', hform'⟩ := canonical_eq_ok.1 hentry
        obtain ⟨rfl, alike⟩ := Canonical.alike_key hform
        obtain ⟨rfl, alike'⟩ := Canonical.alike_key hform'
        refine ⟨_, fanins, fanins', hkind, hkind', ?_⟩
        rw [Signal.complementIf_complemented, Bool.xor_comm]
        exact alike.trans alike'.symm

end LogicNet.Network
