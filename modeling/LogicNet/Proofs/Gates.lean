import LogicNet.Proofs.Creation

/-! # Creating gates

Every call that makes gates, over signals that represent functions, gives a signal that represents their
combination.  What a call of one family makes of several gates is taken together from these.
-/

namespace LogicNet

/-- At least two of three. -/
def majority (a b c : Bool) : Bool := a && b || a && c || b && c

/-- The value of a majority gate. -/
theorem two_le_count_eq_majority (a b c : Bool) : decide (2 ≤ [a, b, c].count true) = majority a b c := by
  cases a <;> cases b <;> cases c <;> rfl

theorem majority_of_perm {a b c a' b' c' : Bool} (h : [a, b, c].Perm [a', b', c']) :
    majority a b c = majority a' b' c' := by
  rw [← two_le_count_eq_majority, ← two_le_count_eq_majority, h.count_eq]

namespace Network

variable {net : Network} {a b c : Signal} {f g h : (Nat → Bool) → Bool} {nodes : List Nat}
  {t : TruthTable}

namespace HashConsed

/-- A conjunction or a majority over signals that may be used. -/
theorem computes_gate (consed : net.HashConsed) {fn : GateFunction} {fanins : List Signal}
    (hasGate : net.family.hasGate fn = true) (arity : net.functions.arity? fn = some fanins.length)
    (nonempty : fanins ≠ []) (bounded : fanins.length ≤ maxFanins)
    (operands : ∀ s ∈ fanins, net.Operand s) : Computes net (hashCons fn fanins)
      fun x => fn.value net.functions (fanins.map (Signal.value (net.eval x))) :=
  consed.computes_hashCons ⟨hasGate, arity, nonempty, bounded, fun s hs => (operands s hs).typed⟩
    fun s hs => (operands s hs).live

theorem computes_conjunction (consed : net.HashConsed) (family : net.family = .aig)
    (ha : net.Represents f a) (hb : net.Represents g b) :
    Computes net (hashCons .and [a, b]) fun x => f x && g x := by
  refine (consed.computes_gate (by rw [family]; rfl) rfl (List.cons_ne_nil _ _) (by simp [maxFanins])
    (by simp [ha.operand, hb.operand])).congr fun x => ?_
  simp [GateFunction.value, ha.value, hb.value]

theorem computes_majority (consed : net.HashConsed) (family : net.family = .mig)
    (ha : net.Represents f a) (hb : net.Represents g b) (hc : net.Represents h c) :
    Computes net (hashCons .maj [a, b, c]) fun x => majority (f x) (g x) (h x) := by
  refine (consed.computes_gate (by rw [family]; rfl) rfl (List.cons_ne_nil _ _) (by simp [maxFanins])
    (by simp [ha.operand, hb.operand, hc.operand])).congr fun x => ?_
  rw [← two_le_count_eq_majority]
  simp only [GateFunction.value, List.map_cons, List.map_nil, ha.value, hb.value, hc.value]

/-- A table gate over live nodes. -/
theorem computes_tableGate (consed : net.HashConsed) (family : net.family = .klut)
    {l : FunctionLiteral} (hl : net.functions.get l = .ok t) (hvars : t.numVars = nodes.length)
    (nonempty : nodes ≠ []) (bounded : nodes.length ≤ maxFanins)
    (live : ∀ n ∈ nodes, net.isLive n = true) : Computes net (tableGate l nodes)
      fun x => t.bit (TruthTable.rowOf (nodes.map (net.eval x))) := by
  refine (consed.computes_gate (by rw [family]; rfl) ?_ (by simpa using nonempty)
    (by simpa using bounded) fun s hs => ?_).congr fun x => ?_
  · rw [FunctionCache.arity?_table]
    exact ⟨t, hl, by rw [hvars, List.length_map]⟩
  · obtain ⟨n, hn, rfl⟩ := List.mem_map.1 hs
    exact ⟨live n hn, fun h => by cases h⟩
  · have values : (nodes.map Signal.ofNode).map (Signal.value (net.eval x)) = nodes.map (net.eval x) := by
      rw [List.map_map]
      exact List.map_congr_left fun n _ => Bool.xor_false _
    rw [GateFunction.value, hl, values]

/-- A table gate whose function is interned first. -/
theorem computes_intern_tableGate (consed : net.HashConsed) (family : net.family = .klut)
    (hvars : t.numVars = nodes.length) (nonempty : nodes ≠ []) (bounded : nodes.length ≤ maxFanins)
    (live : ∀ n ∈ nodes, net.isLive n = true) :
    Computes net (internFunction t >>= fun l => tableGate l nodes)
      fun x => t.bit (TruthTable.rowOf (nodes.map (net.eval x))) := by
  refine Adds.bind (consed.adds_internFunction t) fun net' l consed' grows hl => ?_
  refine (consed'.computes_tableGate (grows.family.trans family) hl hvars nonempty bounded
    fun n hn => ?_).congr fun x => ?_
  · exact (grows.live n (lt_size_of_isLive (live n hn))).trans (live n hn)
  · congr 2
    refine List.map_congr_left fun n hn => ?_
    exact grows.eval_eq consed.toWellFormed consed'.toWellFormed x (lt_size_of_isLive (live n hn))

/-- A gate with the table of a word, read off the word. -/
theorem computes_wordGate (consed : net.HashConsed) (family : net.family = .klut) {word : BitVec 64}
    {operands : List Signal} (nonempty : operands ≠ []) (bounded : operands.length ≤ maxFanins)
    (live : ∀ s ∈ operands, net.isLive s.node = true) : Computes net (wordGate word operands)
      fun x => word.getLsbD (TruthTable.rowOf (operands.map fun s => net.eval x s.node)) := by
  refine (consed.computes_intern_tableGate family (by rw [List.length_map]; rfl)
    (by simpa using nonempty) (by simpa using bounded) fun n hn => ?_).congr fun x => ?_
  · obtain ⟨s, hs, rfl⟩ := List.mem_map.1 hn
    exact live s hs
  · have row := TruthTable.rowOf_lt (operands.map fun s => net.eval x s.node)
    rw [List.length_map] at row
    rw [List.map_map]
    exact TruthTable.bit_ofFn row

/-- The constants may always be used. -/
theorem represents_constant (consed : net.HashConsed) (value : Bool) :
    net.Represents (fun _ => value) (net.constant value) := by
  have wf := consed.toWellFormed
  unfold constant
  split
  · next edges =>
    have hconstant : net.family.constants[0]? = some false := by
      revert edges
      cases net.family <;> simp [Family.hasComplementedEdges, Family.constants]
    refine ⟨⟨consed.isLive_of_constant hconstant, fun _ => edges⟩, fun x => ?_⟩
    rw [Signal.value, wf.eval_constant hconstant]
    exact Bool.false_xor value
  · next edges =>
    have hconstant : net.family.constants[value.toNat]? = some value := by
      revert edges
      cases net.family <;> cases value <;> simp [Family.hasComplementedEdges, Family.constants]
    refine ⟨⟨consed.isLive_of_constant hconstant, fun h => by cases h⟩, fun x => ?_⟩
    rw [Signal.value, Signal.ofNode, wf.eval_constant hconstant]
    exact Bool.xor_false value

theorem computes_createNot (consed : net.HashConsed) (ha : net.Represents f a) :
    Computes net (createNot a) fun x => !f x := by
  refine .get_bind ?_
  cases family : net.family with
  | aig => exact .pure consed (ha.complement (by rw [family]; rfl))
  | mig => exact .pure consed (ha.complement (by rw [family]; rfl))
  | klut =>
    have inverter := (consed.seeded family).get FunctionCache.get_seeded.2.1
    refine (consed.computes_tableGate family inverter rfl (List.cons_ne_nil _ _) (by simp [maxFanins])
      (by simp [ha.operand.live])).congr fun x => ?_
    simp only [List.map_cons, List.map_nil, ha.eval_eq family]
    cases f x <;> rfl

theorem computes_createAnd (consed : net.HashConsed) (ha : net.Represents f a)
    (hb : net.Represents g b) : Computes net (createAnd a b) fun x => f x && g x := by
  refine .get_bind ?_
  cases family : net.family with
  | aig => exact consed.computes_conjunction family ha hb
  | mig =>
    refine (consed.computes_majority family (consed.represents_constant false) ha hb).congr fun x => ?_
    simp [majority]
  | klut =>
    have conjunction := (consed.seeded family).get FunctionCache.get_seeded.2.2
    refine (consed.computes_tableGate family conjunction rfl (List.cons_ne_nil _ _)
      (by simp [maxFanins]) (by simp [ha.operand.live, hb.operand.live])).congr fun x => ?_
    simp only [List.map_cons, List.map_nil, ha.eval_eq family, hb.eval_eq family]
    cases f x <;> cases g x <;> rfl

theorem computes_createOr (consed : net.HashConsed) (ha : net.Represents f a)
    (hb : net.Represents g b) : Computes net (createOr a b) fun x => f x || g x := by
  refine .get_bind ?_
  cases family : net.family with
  | aig =>
    have edges : net.family.hasComplementedEdges = true := by rw [family]; rfl
    refine (consed.computes_conjunction family (ha.complement edges) (hb.complement edges)).bind
      fun net' s consed' grows hs => .pure consed' ((hs.complement ?_).congr fun x => ?_)
    · rw [grows.family, edges]
    · cases f x <;> cases g x <;> rfl
  | mig =>
    refine (consed.computes_majority family (consed.represents_constant true) ha hb).congr fun x => ?_
    cases f x <;> cases g x <;> rfl
  | klut =>
    refine (consed.computes_wordGate family (List.cons_ne_nil _ _) (by simp [maxFanins])
      (by simp [ha.operand.live, hb.operand.live])).congr fun x => ?_
    simp only [List.map_cons, List.map_nil, ha.eval_eq family, hb.eval_eq family]
    cases f x <;> cases g x <;> rfl

theorem computes_createNand (consed : net.HashConsed) (ha : net.Represents f a)
    (hb : net.Represents g b) : Computes net (createNand a b) fun x => !(f x && g x) :=
  (consed.computes_createAnd ha hb).bind fun _ _ consed' _ hs => consed'.computes_createNot hs

theorem computes_createXor (consed : net.HashConsed) (ha : net.Represents f a)
    (hb : net.Represents g b) : Computes net (createXor a b) fun x => f x ^^ g x := by
  have withEdges (edges : net.family.hasComplementedEdges = true) : Computes net (do
      let left ← createAnd a b.complement
      let right ← createAnd a.complement b
      createOr left right) fun x => f x ^^ g x := by
    refine (consed.computes_createAnd ha (hb.complement edges)).bind
      fun net₁ left consed₁ grows₁ hleft => ?_
    have wf := consed.toWellFormed
    have wf₁ := consed₁.toWellFormed
    refine (consed₁.computes_createAnd ((ha.complement edges).grows grows₁ wf wf₁)
      (hb.grows grows₁ wf wf₁)).bind fun net₂ right consed₂ grows₂ hright => ?_
    refine (consed₂.computes_createOr (hleft.grows grows₂ wf₁ consed₂.toWellFormed) hright).congr
      fun x => ?_
    cases f x <;> cases g x <;> rfl
  refine .get_bind ?_
  cases family : net.family with
  | aig => exact withEdges (by rw [family]; rfl)
  | mig => exact withEdges (by rw [family]; rfl)
  | klut =>
    refine (consed.computes_wordGate family (List.cons_ne_nil _ _) (by simp [maxFanins])
      (by simp [ha.operand.live, hb.operand.live])).congr fun x => ?_
    simp only [List.map_cons, List.map_nil, ha.eval_eq family, hb.eval_eq family]
    cases f x <;> cases g x <;> rfl

/-- Majority as two conjunctions and two disjunctions, where it is no gate of its own. -/
theorem computes_composedMajority (consed : net.HashConsed) (ha : net.Represents f a)
    (hb : net.Represents g b) (hc : net.Represents h c) : Computes net (do
      let both ← createAnd a b
      let either ← createOr a b
      let withLast ← createAnd c either
      createOr both withLast) fun x => majority (f x) (g x) (h x) := by
  refine (consed.computes_createAnd ha hb).bind fun net₁ both consed₁ grows₁ hboth => ?_
  have wf := consed.toWellFormed
  have wf₁ := consed₁.toWellFormed
  refine (consed₁.computes_createOr (ha.grows grows₁ wf wf₁) (hb.grows grows₁ wf wf₁)).bind
    fun net₂ either consed₂ grows₂ heither => ?_
  have wf₂ := consed₂.toWellFormed
  refine (consed₂.computes_createAnd ((hc.grows grows₁ wf wf₁).grows grows₂ wf₁ wf₂) heither).bind
    fun net₃ withLast consed₃ grows₃ hwithLast => ?_
  refine (consed₃.computes_createOr ((hboth.grows grows₂ wf₁ wf₂).grows grows₃ wf₂ consed₃.toWellFormed)
    hwithLast).congr fun x => ?_
  cases f x <;> cases g x <;> cases h x <;> rfl

theorem computes_createMaj (consed : net.HashConsed) (ha : net.Represents f a)
    (hb : net.Represents g b) (hc : net.Represents h c) :
    Computes net (createMaj a b c) fun x => majority (f x) (g x) (h x) := by
  refine .get_bind ?_
  cases family : net.family with
  | aig =>
    have perm : [a, b, c].Perm [(Signal.sort3 a b c).1, (Signal.sort3 a b c).2.1,
        (Signal.sort3 a b c).2.2] := by
      rw [Signal.sort3_eq_sort]
      exact (Signal.sort_perm [a, b, c]).symm
    dsimp only
    generalize Signal.sort3 a b c = triple at perm ⊢
    obtain ⟨p, q, r⟩ := triple
    have operands : ∀ s ∈ [p, q, r], net.Operand s := by
      intro s hs
      have operand : ∀ t ∈ [a, b, c], net.Operand t := by simp [ha.operand, hb.operand, hc.operand]
      exact operand s (perm.mem_iff.2 hs)
    simp only [List.mem_cons, List.not_mem_nil, or_false, forall_eq_or_imp, forall_eq] at operands
    obtain ⟨hp, hq, hr⟩ := operands
    refine (consed.computes_composedMajority hp.represents hq.represents hr.represents).congr fun x => ?_
    rw [← ha.value, ← hb.value, ← hc.value]
    exact (majority_of_perm (perm.map (Signal.value (net.eval x)))).symm
  | mig => exact consed.computes_majority family ha hb hc
  | klut =>
    refine (consed.computes_wordGate family (List.cons_ne_nil _ _) (by simp [maxFanins])
      (by simp [ha.operand.live, hb.operand.live, hc.operand.live])).congr fun x => ?_
    simp only [List.map_cons, List.map_nil, ha.eval_eq family, hb.eval_eq family, hc.eval_eq family]
    cases f x <;> cases g x <;> cases h x <;> rfl

theorem computes_createXor3 (consed : net.HashConsed) (family : net.family = .klut) {n m k : Nat}
    (live : ∀ i ∈ [n, m, k], net.isLive i = true) : Computes net (createXor3 n m k)
      fun x => net.eval x n ^^ net.eval x m ^^ net.eval x k := by
  have check : Adds net (requireFamily .klut) fun net' _ => net' = net :=
    ⟨(), net, Edit.run_requireFamily family, consed, .refl net, rfl, rfl, rfl⟩
  refine Adds.bind check fun net' _ _ _ same => ?_
  subst same
  refine (consed.computes_wordGate family (List.cons_ne_nil _ _) (by simp [maxFanins])
    (by simpa [Signal.ofNode] using live)).congr fun x => ?_
  simp only [List.map_cons, List.map_nil, Signal.ofNode]
  cases net'.eval x n <;> cases net'.eval x m <;> cases net'.eval x k <;> rfl

end HashConsed

/-- What the checks of a table gate accept. -/
theorem checkTable_eq_ok : net.checkTable nodes t = .ok () ↔ t.numVars = nodes.length ∧
    nodes.length ≤ maxFanins ∧ ∀ n ∈ nodes, net.isLive n = true := by
  have each : ∀ n, (do
      net.checkNode n
      net.checkLive n) = Except.ok () ↔ net.isLive n = true := by
    intro n
    unfold checkNode checkLive
    by_cases live : net.isLive n = true
    · simp [live, lt_size_of_isLive live]
    · by_cases inRange : n < net.size <;> simp [live, inRange]
  unfold checkTable
  by_cases hvars : t.numVars = nodes.length
  · by_cases bounded : maxFanins < nodes.length
    · simp [hvars, bounded]
    · simp only [hvars, ne_eq, not_true_eq_false, if_false, bounded, forM_eq_ok, each,
        Nat.not_lt.1 bounded, true_and]
  · simp [hvars]

/-- A table gate that passes the checks.  Without children it is a constant. -/
theorem HashConsed.computes_createTable (consed : net.HashConsed) (family : net.family = .klut)
    (hvars : t.numVars = nodes.length) (bounded : nodes.length ≤ maxFanins)
    (live : ∀ n ∈ nodes, net.isLive n = true) : Computes net (createTable nodes t)
      fun x => t.bit (TruthTable.rowOf (nodes.map (net.eval x))) := by
  have checked : net.checkTable nodes t = .ok () := checkTable_eq_ok.2 ⟨hvars, bounded, live⟩
  have accepted : (createTable nodes t).run net
      = (if nodes.isEmpty then pure (net.constant (!t.isConstFalse)) else
          internFunction t >>= fun l => tableGate l nodes : Edit Signal).run net := by
    rw [createTable, Edit.run_bind_ok (Edit.run_requireFamily family), Edit.run_get_bind, checked]
    rfl
  refine .of_run_eq accepted ?_
  by_cases empty : nodes = []
  · subst empty
    refine .pure consed ((consed.represents_constant _).congr fun x => ?_)
    rw [TruthTable.isConstFalse_of_numVars_eq_zero hvars, Bool.not_not]
    rfl
  · rw [if_neg (by simpa using empty)]
    exact consed.computes_intern_tableGate family hvars empty bounded live

end Network

end LogicNet
