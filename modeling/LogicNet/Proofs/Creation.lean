import LogicNet.Proofs.Representation

/-! # Creating nodes

Each primitive call that makes an input, an output, a cached function or a gate keeps a network
hash-consed while it grows.  The signal of a gate has the value of its function, whether the gate is
new, was found in the table, or is not needed.
-/

namespace LogicNet.Network

variable {net net' : Network} {n : Nat} {s : Signal} {nd : Node}

/-- One more node after all others. -/
def append (net : Network) (nd : Node) : Network := { net with nodes := net.nodes.push nd }

section append

theorem getElem?_append (net : Network) (nd : Node) (n : Nat) :
    (net.append nd).nodes[n]? = if n = net.size then some nd else net.nodes[n]? := by
  exact Array.getElem?_push

theorem size_append (net : Network) (nd : Node) : (net.append nd).size = net.size + 1 := by
  simp [append, size]

theorem kind?_append (net : Network) (nd : Node) (n : Nat) :
    (net.append nd).kind? n = if n = net.size then some nd.kind else net.kind? n := by
  unfold kind?
  rw [getElem?_append]
  split <;> rfl

theorem isLive_append (net : Network) (nd : Node) (n : Nat) :
    (net.append nd).isLive n = if n = net.size then !nd.dead else net.isLive n := by
  unfold isLive
  rw [getElem?_append]
  split <;> rfl

theorem fanout_append (net : Network) (nd : Node) (n : Nat) :
    (net.append nd).fanout n = if n = net.size then nd.fanout else net.fanout n := by
  unfold fanout
  rw [getElem?_append]
  split <;> rfl

theorem references_append (net : Network) (nd : Node) (n : Nat) :
    (net.append nd).references n = net.references n + nd.references n := by
  simp only [references, append, Array.toList_push, List.map_append, List.sum_append,
    List.map_cons, List.map_nil, List.sum_cons, List.sum_nil]
  omega

theorem grows_append (net : Network) (nd : Node) : Grows net (net.append nd) where
  family := rfl
  size := by
    rw [size_append]
    exact Nat.le_succ _
  kind? n hn := by rw [kind?_append, if_neg (Nat.ne_of_lt hn)]
  live n hn := by rw [isLive_append, if_neg (Nat.ne_of_lt hn)]
  functions := .refl _
  inputs := List.prefix_refl _
  outputs := List.prefix_refl _

end append

/-- Nothing refers to a node that there is not yet. -/
theorem Coherent.references_size (coherent : net.Coherent) : net.references net.size = 0 := by
  refine references_eq_zero_iff.2 ⟨fun p _ s hs => ?_, fun s hs => ?_⟩
  · exact Nat.ne_of_lt (coherent.typed_slots hs).inRange
  · exact Nat.ne_of_lt (coherent.outputs s hs).inRange

/-- Counting references to live nodes changes their counts only. -/
theorem foldlM_addReference : ∀ {signals : List Signal} {net : Network},
    (∀ s ∈ signals, net.isLive s.node = true) → ∃ net', signals.foldlM addReference net = .ok net' ∧
      SameGraph net net' ∧ net'.isLive = net.isLive ∧ net'.gateTable = net.gateTable ∧
      ∀ m, net'.fanout m = net.fanout m + signals.countP (·.node == m) := by
  intro signals
  induction signals with
  | nil =>
    intro net _
    exact ⟨net, rfl, .refl net, rfl, rfl, fun _ => rfl⟩
  | cons s rest ih =>
    intro net live
    obtain ⟨first, others⟩ := List.forall_mem_cons.1 live
    obtain ⟨nd, hnd, hdead⟩ := isLive_iff.1 first
    let counted := net.modifyNode s.node fun nd => { nd with fanout := nd.fanout + 1 }
    have graph : SameGraph net counted := sameGraph_modifyNode (by intro nd; rfl) _ _
    have sameLive : counted.isLive = net.isLive := isLive_modifyNode (by intro nd; rfl) _ _
    obtain ⟨net', ok, graph', sameLive', table', counts'⟩ :=
      @ih counted fun t ht => (congrFun sameLive t.node).trans (others t ht)
    refine ⟨net', ?_, graph.trans graph', sameLive'.trans sameLive, table', fun m => ?_⟩
    · have step : net.addReference s = .ok counted := by
        simp [addReference, node_eq_ok.2 hnd, hdead, counted]
      rw [List.foldlM_cons, step, ok_bind, ok]
    · rw [counts', List.countP_cons]
      by_cases hm : m = s.node
      · subst hm
        have hcount : counted.fanout s.node = nd.fanout + 1 := net.fanout_modifyNode_self hnd
        rw [hcount, fanout_of_getElem? hnd, beq_self_eq_true]
        simp only [if_true]
        omega
      · have hcount : counted.fanout m = net.fanout m := net.fanout_modifyNode_of_ne hm
        rw [hcount, beq_false_of_ne (Ne.symm hm)]
        simp

/-- The fanins of a key fit where the fanins that it is the key of do. -/
theorem Fits.key {g : GateFunction} {fanins : List Signal} {key : GateKey} {flip : Bool}
    (fits : net.Fits g fanins)
    (hform : Canonical.ofGate net.functions g fanins = .ok (.gate key flip)) :
    net.Fits key.function key.fanins ∧ ∀ s ∈ key.fanins, ∃ t ∈ fanins, t.node = s.node := by
  obtain ⟨rfl, alike⟩ := Canonical.alike_key hform
  have mem : ∀ s ∈ key.fanins, s.complementIf flip ∈ fanins := fun s hs =>
    alike.complementIf_perm.mem_iff.2 (List.mem_map_of_mem hs)
  refine ⟨⟨fits.hasGate, alike.length_eq ▸ fits.arity, ?_, alike.length_eq ▸ fits.bounded, ?_⟩, ?_⟩
  · intro hnil
    have hlength := alike.length_eq
    rw [hnil] at hlength
    exact fits.nonempty (List.eq_nil_of_length_eq_zero hlength)
  · intro s hs
    refine ⟨(fits.typed _ (mem s hs)).inRange, fun hpolarity => ?_⟩
    cases flip with
    | false => exact (fits.typed _ (mem s hs)).polarity (by simpa using hpolarity)
    | true => exact fits.edges_of_maj alike.eq_maj
  · exact fun s hs => ⟨_, mem s hs, rfl⟩

/-- What adding the gate of a key comes to. -/
structure Added (net : Network) (key : GateKey) (net' : Network) : Prop where
  grows : Grows net net'
  size : net'.size = net.size + 1
  kind? : net'.kind? net.size = some (.gate key.function key.fanins)
  live : net'.isLive net.size = true
  inputs : net'.inputs = net.inputs
  outputs : net'.outputs = net.outputs
  functions : net'.functions = net.functions
  fanout : ∀ m, net'.fanout m = net.fanout m + key.fanins.countP (·.node == m)
  references : ∀ m, net'.references m = net.references m + key.fanins.countP (·.node == m)
  get? : ∀ k, net'.gateTable.get? k
    = if k = key then some (.ofNode net.size) else net.gateTable.get? k

theorem addGate_eq_ok {key : GateKey} (live : ∀ s ∈ key.fanins, net.isLive s.node = true) :
    ∃ net', net.addGate key = .ok (.ofNode net.size, net') ∧ Added net key net' := by
  obtain ⟨counted, count, graph, sameLive, table, counts⟩ := foldlM_addReference live
  have hsize : counted.size = net.size := graph.size
  let nd : Node := { kind := .gate key.function key.fanins }
  let appended := counted.append nd
  let net' : Network := { appended with gateTable := counted.gateTable.insert key (.ofNode net.size) }
  have kind? : ∀ n, net'.kind? n = if n = net.size then some nd.kind else net.kind? n := by
    intro n
    rw [← hsize, ← graph.kind?]
    exact kind?_append counted nd n
  have isLive : ∀ n, net'.isLive n = if n = net.size then true else net.isLive n := by
    intro n
    rw [← hsize, ← sameLive]
    exact isLive_append counted nd n
  have grown := grows_append counted nd
  refine ⟨net', by rw [addGate, count, ok_bind, hsize]; rfl, ⟨graph.family, ?_, ?_, ?_, ?_, ?_, ?_⟩,
    ?_, ?_, ?_, graph.inputs, graph.outputs, graph.functions, fun m => ?_, fun m => ?_, fun k => ?_⟩
  · exact hsize ▸ grown.size
  · intro n hn
    rw [kind?, if_neg (Nat.ne_of_lt hn)]
  · intro n hn
    rw [isLive, if_neg (Nat.ne_of_lt hn)]
  · exact graph.functions ▸ grown.functions
  · exact graph.inputs ▸ grown.inputs
  · exact graph.outputs ▸ grown.outputs
  · exact hsize ▸ size_append counted nd
  · rw [kind?, if_pos rfl]
  · rw [isLive, if_pos rfl]
  · have hfanout : net'.fanout m = if m = counted.size then 0 else counted.fanout m :=
      fanout_append counted nd m
    rw [hfanout, ← counts m]
    split
    · next hm =>
      have outside : counted.nodes[m]? = none := by
        rw [hm]
        exact Array.getElem?_size
      simp [fanout, outside]
    · rfl
  · rw [← congrFun (graph.references sameLive) m]
    exact references_append counted nd m
  · rw [← table]
    exact GateTable.get?_insert _ _ _ _

namespace Added

variable {key : GateKey}

/-- The only new node is the gate. -/
theorem new_kind (added : Added net key net') {kind : NodeKind} (hn : net.size ≤ n)
    (hkind : net'.kind? n = some kind) : n = net.size ∧ kind = .gate key.function key.fanins := by
  have hlt := lt_size_of_kind? hkind
  rw [added.size] at hlt
  obtain rfl : n = net.size := Nat.le_antisymm (Nat.le_of_lt_succ hlt) hn
  rw [added.kind?] at hkind
  exact ⟨rfl, (Option.some.inj hkind).symm⟩

theorem wellFormed (added : Added net key net') (wf : net.WellFormed)
    (fits : net.Fits key.function key.fanins) : net'.WellFormed := by
  refine added.grows.wellFormed wf ?_ ?_ (added.inputs.symm ▸ wf.nodup_inputs) ?_ ?_
    (added.functions.symm ▸ wf.functions)
  · intro n hn value hkind
    cases (added.new_kind hn hkind).2
  · intro n
    rw [added.inputs]
    refine (or_iff_left fun ⟨hn, hkind⟩ => ?_).symm
    cases (added.new_kind hn hkind).2
  · intro n hn g fanins hkind
    cases (added.new_kind hn hkind).2
    exact ⟨added.grows.fits fits, fun s hs => (fits.typed s hs).inRange⟩
  · rw [added.outputs]
    exact fun s hs => added.grows.typed (wf.outputs s hs)

/-- Adding a gate whose key was not in use keeps a network hash-consed. -/
theorem hashConsed (added : Added net key net') (consed : net.HashConsed)
    (hform : Canonical.ofGate net.functions key.function key.fanins = .ok (.gate key false))
    (fits : net.Fits key.function key.fanins) (live : ∀ s ∈ key.fanins, net.isLive s.node = true)
    (free : net.gateTable.get? key = none) : net'.HashConsed := by
  have grows := added.grows
  have liveOf : ∀ {m : Nat}, net.isLive m = true → net'.isLive m = true := fun hm =>
    (grows.live _ (lt_size_of_isLive hm)).trans hm
  have old : ∀ {m : Nat}, m < net'.size → m ≠ net.size → m < net.size := by
    intro m hm hne
    rw [added.size] at hm
    omega
  have canonical : net'.canonical net.size = .ok (.gate key false) :=
    canonical_eq_ok.2 ⟨_, _, added.kind?, added.functions.symm ▸ hform⟩
  refine ⟨⟨added.wellFormed consed.toWellFormed fits, ?_, ?_, ?_, ?_, ?_⟩, ?_⟩
  · intro n hn dead
    have hne : n ≠ net.size := by
      rintro rfl
      rw [added.live] at dead
      cases dead
    have hlt := old hn hne
    obtain ⟨g, fanins, hkind⟩ := consed.dead_isGate n hlt ((grows.live n hlt).symm.trans dead)
    exact ⟨g, fanins, (grows.kind? n hlt).trans hkind⟩
  · intro n hlive s hs
    by_cases hn : n = net.size
    · rw [hn, slots_of_kind? added.kind?] at hs
      exact liveOf (live s hs)
    · have hlt := old (lt_size_of_isLive hlive) hn
      rw [grows.slots hlt] at hs
      exact liveOf (consed.live_fanins n ((grows.live n hlt).symm.trans hlive) s hs)
  · rw [added.outputs]
    exact fun s hs => liveOf (consed.live_outputs s hs)
  · intro m
    rw [added.fanout, added.references, consed.counted]
  · intro k s hget
    rw [added.get?] at hget
    split at hget
    · next hk =>
      cases hget
      exact ⟨added.live, hk ▸ canonical⟩
    · obtain ⟨hlive, hc⟩ := consed.entered k s hget
      exact ⟨liveOf hlive, grows.canonical hc⟩
  · intro n hlive gate
    by_cases hn : n = net.size
    · refine ⟨key, false, hn ▸ canonical, ?_⟩
      rw [added.get?, if_pos rfl, hn]
      rfl
    · have hlt := old (lt_size_of_isLive hlive) hn
      obtain ⟨g, fanins, hkind⟩ := gate
      obtain ⟨k, flip, hc, hget⟩ := consed.hashed n ((grows.live n hlt).symm.trans hlive)
        ⟨g, fanins, (grows.kind? n hlt).symm.trans hkind⟩
      refine ⟨k, flip, grows.canonical hc, ?_⟩
      rw [added.get?, if_neg]
      · exact hget
      · rintro rfl
        rw [free] at hget
        cases hget

end Added

/-- The second network has the gate of a key, whose signal may be used, and nothing else is new in it. -/
structure Keyed (net : Network) (key : GateKey) (s : Signal) (net' : Network) : Prop where
  consed : net'.HashConsed
  grows : Grows net net'
  inputs : net'.inputs = net.inputs
  outputs : net'.outputs = net.outputs
  operand : net'.Operand s
  canonical : net'.canonical s.node = .ok (.gate key s.complemented)

/-- The signal of a key: of the gate that has it, or of a new one. -/
theorem HashConsed.findOrAdd_eq_ok (consed : net.HashConsed) {key : GateKey}
    (hform : Canonical.ofGate net.functions key.function key.fanins = .ok (.gate key false))
    (fits : net.Fits key.function key.fanins) (live : ∀ s ∈ key.fanins, net.isLive s.node = true) :
    ∃ s net', net.findOrAdd key = .ok (s, net') ∧ Keyed net key s net' := by
  unfold findOrAdd
  cases hget : net.gateTable.get? key with
  | none =>
    obtain ⟨net', ok, added⟩ := addGate_eq_ok live
    exact ⟨_, net', ok, added.hashConsed consed hform fits live hget, added.grows, added.inputs,
      added.outputs, ⟨added.live, fun h => by cases h⟩,
      canonical_eq_ok.2 ⟨_, _, added.kind?, added.functions.symm ▸ hform⟩⟩
  | some hit =>
    obtain ⟨hlive, hc⟩ := consed.entered key hit hget
    obtain ⟨nd, hnd, hdead⟩ := isLive_iff.1 hlive
    simp only [node_eq_ok.2 hnd, ok_bind, hdead]
    refine ⟨hit, net, rfl, consed, .refl net, rfl, rfl, ⟨hlive, fun hpolarity => ?_⟩, hc⟩
    obtain ⟨g, fanins, hkind, hform'⟩ := canonical_eq_ok.1 hc
    rw [hpolarity] at hform'
    obtain ⟨-, alike⟩ := Canonical.alike_key hform'
    exact (consed.fits _ g fanins hkind).edges_of_maj alike.eq_maj

/-- A gate with the key of some fanins has the value of its function on them, whatever became of its
own fanins since it was entered. -/
theorem Keyed.value_eq {g : GateFunction} {fanins : List Signal} {key : GateKey} {flip : Bool}
    (keyed : Keyed net key s net') (wf : net.WellFormed) (fits : net.Fits g fanins)
    (hform : Canonical.ofGate net.functions g fanins = .ok (.gate key flip)) (x : Nat → Bool) :
    (s.complementIf flip).value (net'.eval x)
      = g.value net.functions (fanins.map (Signal.value (net.eval x))) := by
  have wf' := keyed.consed.toWellFormed
  obtain ⟨g', fanins', hkind, hform'⟩ := canonical_eq_ok.1 keyed.canonical
  obtain ⟨rfl, alike⟩ := Canonical.alike_key (Canonical.ofGate_of_extends keyed.grows.functions hform)
  obtain ⟨rfl, alike'⟩ := Canonical.alike_key hform'
  have same := Canonical.value_of_alike wf'.functions (wf'.fits _ _ _ hkind).arity
    (alike'.trans alike.symm) (net'.eval x)
  rw [keyed.grows.map_value_eq wf wf' x fits.typed,
    GateFunction.value_of_extends keyed.grows.functions fits.arity] at same
  rw [Signal.value_complementIf, Signal.value, eval_eq_equation wf'.acyclic wf'.closed, equation, hkind]
  dsimp only
  rw [GateFunction.value_of_extends keyed.grows.functions fits.arity, same]
  cases s.complemented <;> cases flip <;> simp

theorem HashConsed.computes_hashCons (consed : net.HashConsed) {g : GateFunction}
    {fanins : List Signal} (fits : net.Fits g fanins) (live : ∀ s ∈ fanins, net.isLive s.node = true) :
    Computes net (hashCons g fanins)
      fun x => g.value net.functions (fanins.map (Signal.value (net.eval x))) := by
  obtain ⟨c, hc⟩ := Canonical.exists_ofGate fits.arity
  refine .get_bind ?_
  rw [hc]
  -- Where there are conjunctions, node 0 is the false constant.
  have hconstant (hg : g = .and) : net.family.constants[0]? = some false := by
    subst hg
    rw [Family.eq_of_hasGate fits.hasGate]
    rfl
  cases c with
  | trivial s =>
    refine .pure consed ⟨?_, fun x => ?_⟩
    · rcases Canonical.mem_of_trivial hc with hs | ⟨hg, rfl⟩
      · exact ⟨live s hs, (fits.typed s hs).polarity⟩
      · exact ⟨consed.isLive_of_constant (hconstant hg), fun h => by cases h⟩
    · exact (Canonical.value_of_trivial hc fun hg =>
        consed.toWellFormed.eval_constant (hconstant hg) x).symm
  | gate key flip =>
    obtain ⟨fitsKey, fromFanins⟩ := fits.key hc
    have liveKey : ∀ s ∈ key.fanins, net.isLive s.node = true := by
      intro s hs
      obtain ⟨t, ht, hnode⟩ := fromFanins s hs
      exact hnode ▸ live t ht
    obtain ⟨s, net', found, keyed⟩ := consed.findOrAdd_eq_ok (Canonical.ofGate_key hc) fitsKey liveKey
    refine ⟨s.complementIf flip, net', ?_, keyed.consed, keyed.grows, keyed.inputs, keyed.outputs,
      keyed.operand.complementIf fun hflip => ?_, keyed.value_eq consed.toWellFormed fits hc⟩
    · simp only [Edit.lift_ok_fault, pure_bind, found]
      rfl
    · subst hflip
      rw [keyed.grows.family]
      exact fits.edges_of_maj (Canonical.alike_key hc).2.eq_maj

/-- One more input. -/
def withInput (net : Network) : Network :=
  { net.append { kind := .input } with inputs := net.inputs ++ [net.size] }

section withInput

theorem createInput_run (net : Network) :
    createInput.run net = .ok (.ofNode net.size) net.withInput := rfl

theorem size_withInput (net : Network) : net.withInput.size = net.size + 1 := size_append net _

theorem kind?_withInput (net : Network) (n : Nat) :
    net.withInput.kind? n = if n = net.size then some .input else net.kind? n := kind?_append net _ n

theorem isLive_withInput (net : Network) : net.withInput.isLive net.size = true :=
  (isLive_append net _ net.size).trans (if_pos rfl)

theorem grows_withInput (net : Network) : Grows net net.withInput where
  __ := grows_append net { kind := .input }
  inputs := List.prefix_append _ _

theorem new_kind_withInput {kind : NodeKind} (hn : net.size ≤ n)
    (hkind : net.withInput.kind? n = some kind) : n = net.size ∧ kind = .input := by
  have hlt := lt_size_of_kind? hkind
  rw [size_withInput] at hlt
  obtain rfl : n = net.size := by omega
  rw [kind?_withInput, if_pos rfl] at hkind
  exact ⟨rfl, (Option.some.inj hkind).symm⟩

theorem WellFormed.size_not_mem_inputs (wf : net.WellFormed) : net.size ∉ net.inputs := fun hmem =>
  Nat.lt_irrefl _ (lt_size_of_kind? ((wf.input_iff net.size).2 hmem))

theorem WellFormed.withInput (wf : net.WellFormed) : net.withInput.WellFormed := by
  refine (grows_withInput net).wellFormed wf ?_ ?_ ?_ ?_ ?_ wf.functions
  · intro n hn value hkind
    cases (new_kind_withInput hn hkind).2
  · intro n
    change n ∈ net.inputs ++ [net.size] ↔ _
    rw [List.mem_append, List.mem_singleton]
    refine or_congr_right ⟨?_, fun new => (new_kind_withInput new.1 new.2).1⟩
    rintro rfl
    exact ⟨Nat.le_refl _, by rw [kind?_withInput, if_pos rfl]⟩
  · exact wf.nodup_inputs.append (List.nodup_singleton _) (by simpa using wf.size_not_mem_inputs)
  · intro n hn g fanins hkind
    cases (new_kind_withInput hn hkind).2
  · exact fun s hs => (grows_withInput net).typed (wf.outputs s hs)

theorem HashConsed.withInput (consed : net.HashConsed) : net.withInput.HashConsed := by
  have grows := grows_withInput net
  refine grows.hashConsed consed consed.toWellFormed.withInput ?_ ?_ ?_ rfl
  · intro n hn hlt
    rw [size_withInput] at hlt
    obtain rfl : n = net.size := by omega
    refine ⟨isLive_withInput net, ?_⟩
    rintro ⟨g, fanins, hkind⟩
    cases (new_kind_withInput hn hkind).2
  · intro s hs
    have hlive := consed.live_outputs s hs
    exact (grows.live s.node (lt_size_of_isLive hlive)).trans hlive
  · intro m
    have hfanout : net.withInput.fanout m = if m = net.size then 0 else net.fanout m :=
      fanout_append net _ m
    have hreferences : net.withInput.references m = net.references m := references_append net _ m
    rw [hfanout, hreferences]
    split
    · next hm => rw [hm, consed.references_size]
    · exact consed.counted m

theorem WellFormed.eval_withInput (wf : net.WellFormed) (x : Nat → Bool) :
    net.withInput.eval x net.size = x net.numInputs := by
  have position : net.withInput.inputs.idxOf net.size = net.numInputs := by
    change (net.inputs ++ [net.size]).idxOf net.size = _
    rw [List.idxOf_append_of_notMem wf.size_not_mem_inputs, List.idxOf_cons_self]
    rfl
  rw [eval_eq_equation wf.withInput.acyclic wf.withInput.closed, equation, kind?_withInput, if_pos rfl,
    position]

/-- A new input has the next value of an assignment. -/
theorem HashConsed.makes_createInput (consed : net.HashConsed) :
    Makes net createInput fun net' s => net'.inputs = net.inputs ++ [s.node] ∧
      net'.outputs = net.outputs ∧ net'.Represents (fun x => x net.numInputs) s := by
  refine ⟨.ofNode net.size, net.withInput, createInput_run net, consed.withInput, grows_withInput net,
    rfl, rfl, ⟨isLive_withInput net, fun h => by cases h⟩, fun x => ?_⟩
  have node : (Signal.ofNode net.size).value (net.withInput.eval x) = net.withInput.eval x net.size :=
    Bool.xor_false _
  rw [node, consed.toWellFormed.eval_withInput]

end withInput

/-- One more output, which counts as a reference. -/
def withOutput (net : Network) (s : Signal) : Network :=
  { net.modifyNode s.node fun nd => { nd with fanout := nd.fanout + 1 } with
    outputs := net.outputs ++ [s] }

section withOutput

theorem Operand.createOutput_run (operand : net.Operand s) :
    (createOutput s).run net = .ok net.numOutputs (net.withOutput s) := by
  obtain ⟨nd, hnd, -⟩ := isLive_iff.1 operand.live
  simp only [createOutput, Edit.run_get_bind, node_eq_ok.2 hnd, Edit.lift_ok_fault, pure_bind]
  rfl

variable (net s)

theorem kind?_withOutput : (net.withOutput s).kind? = net.kind? :=
  kind?_modifyNode (by intro nd; rfl) net s.node

theorem isLive_withOutput : (net.withOutput s).isLive = net.isLive :=
  isLive_modifyNode (by intro nd; rfl) net s.node

theorem size_withOutput : (net.withOutput s).size = net.size := size_modifyNode ..

theorem grows_withOutput : Grows net (net.withOutput s) where
  family := rfl
  size := Nat.le_of_eq (size_withOutput net s).symm
  kind? n _ := congrFun (kind?_withOutput net s) n
  live n _ := congrFun (isLive_withOutput net s) n
  functions := .refl _
  inputs := List.prefix_refl _
  outputs := List.prefix_append _ _

theorem references_withOutput (m : Nat) :
    (net.withOutput s).references m = net.references m + [s].countP (·.node == m) := by
  have slots : (net.withOutput s).slots = net.slots := by
    funext n
    simp only [slots, kind?_withOutput]
  have houtputs : (net.withOutput s).outputs.countP (·.node == m)
      = net.outputs.countP (·.node == m) + [s].countP (·.node == m) := List.countP_append
  rw [references_eq, references_eq, houtputs]
  simp only [slotSum, size_withOutput, isLive_withOutput, slots]
  omega

variable {net s}

theorem Operand.fanout_withOutput (operand : net.Operand s) (m : Nat) :
    (net.withOutput s).fanout m = net.fanout m + [s].countP (·.node == m) := by
  obtain ⟨nd, hnd, -⟩ := isLive_iff.1 operand.live
  by_cases hm : m = s.node
  · have hcount : (net.withOutput s).fanout s.node = nd.fanout + 1 := net.fanout_modifyNode_self hnd
    rw [hm, hcount, fanout_of_getElem? hnd]
    simp
  · have hcount : (net.withOutput s).fanout m = net.fanout m := net.fanout_modifyNode_of_ne hm
    rw [hcount]
    simp [Ne.symm hm]

theorem HashConsed.withOutput (consed : net.HashConsed) (operand : net.Operand s) :
    (net.withOutput s).HashConsed := by
  have grows := grows_withOutput net s
  have hsize := size_withOutput net s
  have operands : ∀ t ∈ net.outputs ++ [s], net.Operand t := by
    intro t ht
    rcases List.mem_append.1 ht with ht | ht
    · exact ⟨consed.live_outputs t ht, (consed.outputs t ht).polarity⟩
    · exact List.mem_singleton.1 ht ▸ operand
  have wf : (net.withOutput s).WellFormed := grows.wellFormed_of_size_eq consed.toWellFormed hsize rfl
    (fun t ht => grows.typed (operands t ht).typed) consed.functions
  refine grows.hashConsed consed wf (fun n hn hlt => ?_) (fun t ht => ?_) (fun m => ?_) rfl
  · omega
  · exact (congrFun (isLive_withOutput net s) t.node).trans (operands t ht).live
  · rw [operand.fanout_withOutput, references_withOutput, consed.counted]

theorem HashConsed.makes_createOutput (consed : net.HashConsed) (operand : net.Operand s) :
    Makes net (createOutput s) fun net' _ => net'.inputs = net.inputs ∧
      net'.outputs = net.outputs ++ [s] :=
  ⟨net.numOutputs, net.withOutput s, operand.createOutput_run, consed.withOutput operand,
    grows_withOutput net s, rfl, rfl⟩

end withOutput

theorem HashConsed.adds_internFunction (consed : net.HashConsed) (t : TruthTable) :
    Adds net (internFunction t) fun net' f => net'.functions.get f = .ok t := by
  let net' : Network := { net with functions := (net.functions.insert t).2 }
  have grows : Grows net net' := ⟨rfl, Nat.le_refl _, fun _ _ => rfl, fun _ _ => rfl,
    FunctionCache.extends_insert _ _, List.prefix_refl _, List.prefix_refl _⟩
  have wf : net'.WellFormed := grows.wellFormed_of_size_eq consed.toWellFormed rfl rfl
    (fun s hs => grows.typed (consed.outputs s hs)) (consed.functions.insert t)
  refine ⟨_, net', rfl, grows.hashConsed consed wf (fun n hn hlt => ?_) consed.live_outputs
    consed.counted rfl, grows, rfl, rfl, FunctionCache.get_insert _ _⟩
  exact absurd hlt (Nat.not_lt.2 hn)

end LogicNet.Network
