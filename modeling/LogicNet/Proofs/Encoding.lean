import LogicNet.Proofs.Simulation
import LogicNet.Proofs.Sinks
import LogicNet.Proofs.Workspaces

/-! # Encodings of networks

The nodes in the cones of the outputs get their literals in topological order.  The clauses added so far
hold exactly if every literal has the value of its node, and they leave one value for each fresh variable.
-/

namespace LogicNet.Sat

open Network (ofPattern getD_setIfInBounds)
open LawfulSink (Allocated)

variable {σ : Type} [ClauseSink σ] [LawfulSink σ] {s s' s'' : σ} {net : Network} {constantFalse : Literal}
  {inputs : List Literal} {literals : Array (Option Literal)} {n : Nat} {done fresh : List Nat}
  {emitted : List Clause} {a b : Nat → Bool}

/-- The literals that an encoding is given are over variables in use. -/
structure Given (s : σ) (constantFalse : Literal) (inputs : List Literal) : Prop where
  constantFalse : Allocated s constantFalse.var
  inputs : ∀ l ∈ inputs, Allocated s l.var

theorem Given.mono (given : Given s constantFalse inputs) (emits : Emits s s' fresh emitted) :
    Given s' constantFalse inputs :=
  ⟨emits.mono given.constantFalse, fun l hl => emits.mono (given.inputs l hl)⟩

/-- The literal of a signal whose node has one. -/
def literalAt (literals : Array (Option Literal)) (s : Signal) : Literal :=
  ((literals.getD s.node none).getD default).negateIf s.complemented

/-- Every literal has the value of its node. -/
def Correct (net : Network) (inputs : List Literal) (literals : Array (Option Literal))
    (a : Nat → Bool) : Prop :=
  ∀ n l, literals.getD n none = some l → l.eval a = net.eval (ofPattern (values a inputs)) n

theorem correct_setIfInBounds (hn : n < literals.size) (unset : literals.getD n none = none)
    (l : Literal) : Correct net inputs (literals.setIfInBounds n (some l)) a
      ↔ Correct net inputs literals a ∧ l.eval a = net.eval (ofPattern (values a inputs)) n := by
  constructor
  · intro h
    refine ⟨fun m k hk => h m k ?_, h n l (by rw [getD_setIfInBounds hn, if_pos rfl])⟩
    have hmn : m ≠ n := by
      rintro rfl
      cases hk.symm.trans unset
    rw [getD_setIfInBounds hn, if_neg hmn, hk]
  · rintro ⟨h, hl⟩ m k hk
    rw [getD_setIfInBounds hn] at hk
    split at hk
    · next heq =>
      cases hk
      exact heq ▸ hl
    · exact h m k hk

section run

omit [LawfulSink σ]

theorem encodeNode_run_of_constant {value : Bool} (hkind : net.kind? n = some (.constant value)) :
    (encodeNode net constantFalse inputs literals n).run s
      = .ok (literals.setIfInBounds n (some (constantFalse.negateIf value))) s := by
  unfold encodeNode
  rw [Network.isConstant_eq, hkind, Network.constantValue_of_kind? hkind]
  rfl

theorem encodeNode_run_of_input {l : Literal} (wf : net.WellFormed) (hkind : net.kind? n = some .input)
    (found : inputs[net.inputs.idxOf n]? = some l) :
    (encodeNode net constantFalse inputs literals n).run s
      = .ok (literals.setIfInBounds n (some l)) s := by
  unfold encodeNode
  rw [Network.isConstant_eq, hkind, wf.inputIndex?_of_input hkind]
  simp only [Option.any_some, Bool.false_eq_true, if_false, Edit.lift_ok_fault, pure_bind, found]
  rfl

theorem encodeNode_run_of_gate {g : GateFunction} {fanins : List Signal}
    (hkind : net.kind? n = some (.gate g fanins)) {t : TruthTable} (ht : net.functions.tableOf g = .ok t)
    (read : ∀ u ∈ fanins, literalOf literals u = .ok (literalAt literals u)) {clauses : List Clause}
    (hclauses : gateClauses (.ofTable t) t (.positive (ClauseSink.newVariable s).1)
      (fanins.map (literalAt literals)) = .ok clauses) :
    (encodeNode net constantFalse inputs literals n).run s
      = .ok (literals.setIfInBounds n (some (.positive (ClauseSink.newVariable s).1)))
        (clauses.foldl ClauseSink.addClause (ClauseSink.newVariable s).2) := by
  obtain ⟨nd, hnd, hnode⟩ := Network.kind?_eq_some.1 hkind
  have function : net.nodeFunction n = .ok t := (Network.nodeFunction_of_kind? hkind).trans ht
  have kind : net.gateKind n = .ok (.ofTable t) := by
    simp only [Network.gateKind, Network.node_eq_ok.2 hnd, ok_bind, hnode, ht]
    rfl
  have readAll : fanins.mapM (fun u => (liftM (literalOf literals u) : Encode σ Literal))
      = pure (fanins.map (literalAt literals)) :=
    mapM_eq_pure fun u hu => by rw [read u hu, Edit.lift_ok_failure]
  have allocate : (newVariable : Encode σ Nat).run s
      = .ok (ClauseSink.newVariable s).1 (ClauseSink.newVariable s).2 := rfl
  unfold encodeNode
  rw [Network.isConstant_eq, hkind, Network.inputIndex?_of_gate hkind,
    Network.fanins_of_lt (Network.lt_size_of_kind? hkind), Network.slots_of_kind? hkind, function, kind]
  simp only [Option.any_some, Bool.false_eq_true, if_false, Edit.lift_ok_fault, pure_bind, readAll]
  rw [Edit.run_bind_ok allocate]
  simp only [hclauses, Edit.lift_ok_fault, pure_bind]
  rfl

end run

/-- What has been added to a sink when some nodes have their literals. -/
structure Encoded (net : Network) (constantFalse : Literal) (inputs : List Literal) (s s' : σ)
    (done : List Nat) (literals : Array (Option Literal)) (fresh : List Nat) (emitted : List Clause) :
    Prop where
  emits : Emits s s' fresh emitted
  size : literals.size = net.size
  known : ∀ n, (∃ l, literals.getD n none = some l) ↔ n ∈ done
  allocated : ∀ n l, literals.getD n none = some l → Allocated s' l.var
  satisfies_iff : ∀ a, constantFalse.eval a = false →
    (satisfies a emitted = true ↔ Correct net inputs literals a)
  outputs : ∀ v ∈ fresh, ∃ n, literals.getD n none = some (.positive v)
  extendable : Extendable s emitted
  numFresh : fresh.length = {n | n ∈ done ∧ net.IsGate n}.ncard

namespace Encoded

theorem start (net : Network) (constantFalse : Literal) (inputs : List Literal) (s : σ) :
    Encoded net constantFalse inputs s s [] (Array.replicate net.size none) [] [] := by
  have unset (n : Nat) (l : Literal) :
      (Array.replicate net.size (none : Option Literal)).getD n none ≠ some l := by
    rw [Array.getD_eq_getD_getElem?, Array.getElem?_replicate]
    split <;> simp
  refine ⟨.refl s, Array.size_replicate, ?_, fun n l h => absurd h (unset n l), ?_, by simp,
    extendable_nil s, by simp⟩
  · intro n
    exact iff_of_false (fun ⟨l, h⟩ => unset n l h) List.not_mem_nil
  · intro a _
    exact iff_of_true rfl fun n l h => absurd h (unset n l)

variable (encoded : Encoded net constantFalse inputs s s' done literals fresh emitted)

include encoded

theorem literalOf_eq_ok {t : Signal} (h : t.node ∈ done) :
    literalOf literals t = .ok (literalAt literals t) := by
  obtain ⟨l, hl⟩ := (encoded.known t.node).2 h
  rw [literalOf, literalAt, hl]
  rfl

theorem allocated_literalAt {t : Signal} (h : t.node ∈ done) :
    Allocated s' (literalAt literals t).var := by
  obtain ⟨l, hl⟩ := (encoded.known t.node).2 h
  rw [literalAt, hl]
  exact encoded.allocated _ l hl

theorem eval_literalAt {t : Signal} (h : t.node ∈ done) (correct : Correct net inputs literals a) :
    (literalAt literals t).eval a = t.value (net.eval (ofPattern (values a inputs))) := by
  obtain ⟨l, hl⟩ := (encoded.known t.node).2 h
  rw [literalAt, hl, Option.getD_some, Literal.eval_negateIf, correct _ l hl]
  rfl

theorem values_literalAt {signals : List Signal} (h : ∀ t ∈ signals, t.node ∈ done)
    (correct : Correct net inputs literals a) : values a (signals.map (literalAt literals))
      = signals.map (Signal.value (net.eval (ofPattern (values a inputs)))) := by
  rw [values, List.map_map]
  exact List.map_congr_left fun t ht => encoded.eval_literalAt (h t ht) correct

/-- The next node gets a literal, and clauses that hold exactly if the literal has its value. -/
theorem push {l : Literal} {vars : List Nat} {clauses : List Clause} (hn : n < net.size)
    (unseen : n ∉ done) (emits : Emits s' s'' vars clauses) (extendable : Extendable s' clauses)
    (allocated : Allocated s'' l.var) (outputs : ∀ v ∈ vars, l = .positive v)
    (satisfies_iff : ∀ a, constantFalse.eval a = false → Correct net inputs literals a →
      (satisfies a clauses = true ↔ l.eval a = net.eval (ofPattern (values a inputs)) n))
    (numFresh : vars.length = {m | m = n ∧ net.IsGate m}.ncard) :
    Encoded net constantFalse inputs s s'' (n :: done) (literals.setIfInBounds n (some l))
      (fresh ++ vars) (emitted ++ clauses) := by
  have hsize : n < literals.size := encoded.size.symm ▸ hn
  have unset : literals.getD n none = none :=
    Option.eq_none_iff_forall_not_mem.2 fun k hk => unseen ((encoded.known n).1 ⟨k, hk⟩)
  refine ⟨encoded.emits.trans emits, by rw [Array.size_setIfInBounds, encoded.size], ?_, ?_, ?_, ?_,
    encoded.emits.extendable_append encoded.extendable extendable, ?_⟩
  · intro m
    rw [getD_setIfInBounds hsize, List.mem_cons, ← encoded.known m]
    by_cases hmn : m = n <;> simp [hmn]
  · intro m k hk
    rw [getD_setIfInBounds hsize] at hk
    split at hk
    · cases hk
      exact allocated
    · exact emits.mono (encoded.allocated m k hk)
  · intro a hfalse
    rw [satisfies_append, Bool.and_eq_true, encoded.satisfies_iff a hfalse,
      correct_setIfInBounds hsize unset]
    exact and_congr_right fun correct => satisfies_iff a hfalse correct
  · intro v hv
    rcases List.mem_append.1 hv with hv | hv
    · obtain ⟨m, hm⟩ := encoded.outputs v hv
      have hmn : m ≠ n := by
        rintro rfl
        cases hm.symm.trans unset
      exact ⟨m, by rw [getD_setIfInBounds hsize, if_neg hmn, hm]⟩
    · exact ⟨n, by rw [getD_setIfInBounds hsize, if_pos rfl, outputs v hv]⟩
  · rw [Network.ncard_gates_cons unseen, List.length_append, encoded.numFresh, numFresh]

/-- A node that is no gate gets a literal that has its value in any case. -/
theorem leaf {l : Literal} (hn : n < net.size)
    (unseen : n ∉ done) (noGate : ¬ net.IsGate n) (allocated : Allocated s l.var)
    (value : ∀ a, constantFalse.eval a = false →
      l.eval a = net.eval (ofPattern (values a inputs)) n) :
    Encoded net constantFalse inputs s s' (n :: done) (literals.setIfInBounds n (some l)) fresh
      emitted := by
  have none : {m | m = n ∧ net.IsGate m} = ∅ := by
    refine Set.eq_empty_of_forall_notMem ?_
    rintro m ⟨rfl, gate⟩
    exact noGate gate
  have pushed := encoded.push hn unseen (.refl s') (extendable_nil s') (encoded.emits.mono allocated)
    (fun v hv => absurd hv List.not_mem_nil) (fun a hfalse _ => iff_of_true rfl (value a hfalse))
    (by rw [none]; simp)
  rwa [List.append_nil, List.append_nil] at pushed

/-- A gate gets a fresh variable, and clauses that define it. -/
theorem gate (wf : net.WellFormed) {g : GateFunction}
    {fanins : List Signal} (hkind : net.kind? n = some (.gate g fanins)) (unseen : n ∉ done)
    (known : ∀ t ∈ fanins, t.node ∈ done) {t : TruthTable} (ht : net.functions.tableOf g = .ok t)
    (hvars : t.numVars = fanins.length) {clauses : List Clause} (defines : Defines clauses
      (.positive (ClauseSink.newVariable s').1) (fanins.map (literalAt literals)) t) :
    Encoded net constantFalse inputs s (clauses.foldl ClauseSink.addClause (ClauseSink.newVariable s').2)
      (n :: done) (literals.setIfInBounds n (some (.positive (ClauseSink.newVariable s').1)))
      (fresh ++ [(ClauseSink.newVariable s').1]) (emitted ++ clauses) := by
  have inUse : ∀ l ∈ fanins.map (literalAt literals), Allocated s' l.var := by
    intro l hl
    obtain ⟨u, hu, rfl⟩ := List.mem_map.1 hl
    exact encoded.allocated_literalAt (known u hu)
  have emits := defines.emits inUse
  have satisfies_iff : ∀ a, Correct net inputs literals a → (satisfies a clauses = true
      ↔ a (ClauseSink.newVariable s').1 = net.eval (ofPattern (values a inputs)) n) := by
    intro a correct
    rw [defines.satisfies_iff, encoded.values_literalAt known correct, eval_positive,
      Network.eval_eq_equation wf.acyclic wf.closed, Network.equation, hkind]
    simp only
    rw [GateFunction.value_eq_bit ht (by rw [List.length_map, hvars])]
  have one : {m | m = n ∧ net.IsGate m} = {n} := by
    ext m
    refine and_iff_left_of_imp ?_
    rintro rfl
    exact ⟨g, fanins, hkind⟩
  refine encoded.push (Network.lt_size_of_kind? hkind) unseen emits (defines.extendable inUse)
    ((emits.allocated _).2 (.inr (List.mem_singleton_self _)))
    (fun v hv => by rw [List.mem_singleton.1 hv]) (fun a _ correct => ?_) (by rw [one]; simp)
  rw [eval_positive]
  exact satisfies_iff a correct

end Encoded

/-- One node at a time. -/
theorem encodeNode_eq_ok (wf : net.WellFormed) (given : Given s constantFalse inputs)
    (length : inputs.length = net.numInputs)
    (encoded : Encoded net constantFalse inputs s s' done literals fresh emitted) (hn : n < net.size)
    (unseen : n ∉ done) (fanins : ∀ m, net.IsFanin m n → m ∈ done) :
    ∃ literals' s'' fresh' emitted', (encodeNode net constantFalse inputs literals n).run s'
        = .ok literals' s'' ∧
      Encoded net constantFalse inputs s s'' (n :: done) literals' fresh' emitted' := by
  have equation (a : Nat → Bool) :=
    Network.eval_eq_equation wf.acyclic wf.closed (ofPattern (values a inputs)) n
  rcases hkind : net.kind? n with _ | (value | _ | ⟨g, l⟩)
  · exact absurd hn (Nat.not_lt.2 (Network.kind?_eq_none.1 hkind))
  · have noGate : ¬ net.IsGate n := by simp [Network.IsGate, hkind]
    refine ⟨_, s', fresh, emitted, encodeNode_run_of_constant hkind,
      encoded.leaf hn unseen noGate given.constantFalse fun a hfalse => ?_⟩
    rw [equation, Network.equation, hkind, Literal.eval_negateIf, hfalse, Bool.false_xor]
  · have noGate : ¬ net.IsGate n := by simp [Network.IsGate, hkind]
    have hlt : net.inputs.idxOf n < inputs.length := length ▸ wf.idxOf_lt hkind
    have found : inputs[net.inputs.idxOf n]? = some inputs[net.inputs.idxOf n] :=
      List.getElem?_eq_getElem hlt
    refine ⟨_, s', fresh, emitted, encodeNode_run_of_input wf hkind found,
      encoded.leaf hn unseen noGate (given.inputs _ (List.getElem_mem hlt)) fun a _ => ?_⟩
    rw [equation, Network.equation, hkind]
    simp [ofPattern, values, hlt]
  · have known : ∀ t ∈ l, t.node ∈ done := fun t ht =>
      fanins _ ⟨t, (Network.slots_of_kind? hkind).symm ▸ ht, rfl⟩
    have fits := wf.fits n g l hkind
    obtain ⟨t, ht, hvars⟩ := FunctionCache.exists_tableOf fits.arity
    have hlength : (l.map (literalAt literals)).length = t.numVars := by rw [List.length_map, hvars]
    obtain ⟨clauses, hclauses, defines⟩ :=
      gateClauses_eq_ok hlength (.positive (ClauseSink.newVariable s').1)
    refine ⟨_, _, _, _, encodeNode_run_of_gate hkind ht (fun u hu => ?_) hclauses,
      encoded.gate wf hkind unseen known ht hvars defines⟩
    exact encoded.literalOf_eq_ok (known u hu)

/-- The encoding of a network: what it adds to a sink, and what its clauses say of the outputs. -/
structure Encodes (net : Network) (constantFalse : Literal) (inputs : List Literal) (s s' : σ)
    (outputs : List Literal) (fresh : List Nat) (emitted : List Clause) : Prop where
  emits : Emits s s' fresh emitted
  length : outputs.length = net.numOutputs
  allocated : ∀ l ∈ outputs, Allocated s' l.var
  numFresh : fresh.length = {n | net.InOutputCone n ∧ net.IsGate n}.ncard
  sound : ∀ a, constantFalse.eval a = false → satisfies a emitted = true →
    values a outputs = net.outputValues (ofPattern (values a inputs))
  unique : ∀ a b, constantFalse.eval a = false → Agree s a b → satisfies a emitted = true →
    satisfies b emitted = true → ∀ v ∈ fresh, a v = b v
  extendable : Extendable s emitted

/-- When all nodes in the cones of the outputs have literals, the network is encoded. -/
theorem Encoded.encodes (encoded : Encoded net constantFalse inputs s s' done literals fresh emitted)
    (given : Given s constantFalse inputs) (hdone : ∀ n, n ∈ done ↔ net.InOutputCone n) :
    Encodes net constantFalse inputs s s' (net.outputs.map (literalAt literals)) fresh emitted := by
  have known : ∀ t ∈ net.outputs, t.node ∈ done := fun t ht => (hdone t.node).2 ⟨t, ht, .refl⟩
  refine ⟨encoded.emits, List.length_map _, ?_, ?_, ?_, ?_, encoded.extendable⟩
  · intro l hl
    obtain ⟨t, ht, rfl⟩ := List.mem_map.1 hl
    exact encoded.allocated_literalAt (known t ht)
  · simp only [encoded.numFresh, hdone]
  · intro a hfalse holds
    exact encoded.values_literalAt known ((encoded.satisfies_iff a hfalse).1 holds)
  · intro a b hfalse agree holds holds' v hv
    have hfalse' : constantFalse.eval b = false := agree.eval given.constantFalse ▸ hfalse
    obtain ⟨n, hn⟩ := encoded.outputs v hv
    have value := (encoded.satisfies_iff a hfalse).1 holds n _ hn
    have value' := (encoded.satisfies_iff b hfalse').1 holds' n _ hn
    rw [eval_positive] at value value'
    rw [value, value', agree.values given.inputs]

theorem encodeWith_eq_ok (wf : net.WellFormed) (given : Given s constantFalse inputs)
    (length : inputs.length = net.numInputs) : ∃ outputs s' fresh emitted,
      (encodeWith net constantFalse inputs).run s = .ok outputs s' ∧
      Encodes net constantFalse inputs s s' outputs fresh emitted := by
  obtain ⟨seen, order, ordered, hseen⟩ := wf.exists_topologicalOrder
  have inRange : ∀ n ∈ seen, n < net.size := fun n hn => wf.lt_size_of_inOutputCone ((hseen n).1 hn)
  have folded : ∃ literals s' fresh emitted, (seen.reverse.foldlM (encodeNode net constantFalse inputs)
      (Array.replicate net.size none)).run s = .ok literals s' ∧
      Encoded net constantFalse inputs s s' seen literals fresh emitted := by
    clear hseen order
    induction ordered with
    | nil => exact ⟨_, s, [], [], rfl, .start net constantFalse inputs s⟩
    | @cons n done fanins unseen _ ih =>
      obtain ⟨hn, others⟩ := List.forall_mem_cons.1 inRange
      obtain ⟨literals, s', fresh, emitted, run, encoded⟩ := ih others
      obtain ⟨literals', s'', fresh', emitted', run', encoded'⟩ :=
        encodeNode_eq_ok wf given length encoded hn unseen fanins
      refine ⟨literals', s'', fresh', emitted', ?_, encoded'⟩
      rw [List.reverse_cons, List.foldlM_append, Edit.run_bind_ok run, List.foldlM_cons,
        Edit.run_bind_ok run']
      rfl
  obtain ⟨literals, s', fresh, emitted, run, encoded⟩ := folded
  refine ⟨_, s', fresh, emitted, ?_, encoded.encodes given hseen⟩
  have read : net.outputs.mapM (fun t => (liftM (literalOf literals t) : Encode σ Literal))
      = pure (net.outputs.map (literalAt literals)) := by
    refine mapM_eq_pure fun t ht => ?_
    rw [encoded.literalOf_eq_ok ((hseen t.node).2 ⟨t, ht, .refl⟩), Edit.lift_ok_failure]
  unfold encodeWith
  simp only [length, ne_eq, not_true_eq_false, if_false, order, Edit.lift_ok_fault, pure_bind]
  rw [Edit.run_bind_ok run, read]
  rfl

theorem satisfies_negate_iff {l : Literal} : satisfies a [[l.negate]] = true ↔ l.eval a = false := by
  simp

/-- The new variable is false in every model. -/
theorem exists_newFalse (s : σ) : ∃ v s', newFalse.run s = .ok (.positive v) s' ∧
    Emits s s' [v] [[(Literal.positive v).negate]] := by
  have first := Emits.newVariable s
  have second := Emits.addClause (s := (ClauseSink.newVariable s).2)
    (c := [(Literal.positive (ClauseSink.newVariable s).1).negate]) fun l hl => by
      rw [List.mem_singleton.1 hl]
      exact (first.allocated _).2 (.inr (List.mem_singleton_self _))
  exact ⟨_, _, rfl, first.trans second⟩

/-- The clauses added to a sink extend every assignment of the variables there were before, if it meets a
condition, in exactly one way to the new ones, and then the outputs have the values of a simulation. -/
def ExactlyEncoded (net : Network) (inputs : List Literal) (condition : (Nat → Bool) → Prop)
    (numFresh : Nat) (s s' : σ) (outputs : List Literal) : Prop :=
  ∃ fresh emitted, Emits s s' fresh emitted ∧ fresh.length = numFresh ∧
    (∀ l ∈ outputs, Allocated s' l.var) ∧
    ∀ a, condition a → ∃ b, Agree s a b ∧ satisfies b emitted = true ∧
      net.simulate (.ofPattern (values a inputs)) = .ok (values b outputs) ∧
      ∀ c, Agree s a c → satisfies c emitted = true → ∀ v ∈ fresh, c v = b v

namespace Encodes

variable {outputs : List Literal}

theorem exactly (encodes : Encodes net constantFalse inputs s s' outputs fresh emitted)
    (wf : net.WellFormed) (given : Given s constantFalse inputs)
    (length : inputs.length = net.numInputs) :
    ExactlyEncoded net inputs (fun a => constantFalse.eval a = false)
      {n | net.InOutputCone n ∧ net.IsGate n}.ncard s s' outputs := by
  refine ⟨fresh, emitted, encodes.emits, encodes.numFresh, encodes.allocated, fun a hfalse => ?_⟩
  obtain ⟨b, agree, holds⟩ := encodes.extendable a
  have hfalse' : constantFalse.eval b = false := agree.eval given.constantFalse ▸ hfalse
  refine ⟨b, agree, holds, ?_, fun c agree' holds' v hv => ?_⟩
  · rw [encodes.sound b hfalse' holds, ← agree.values given.inputs]
    exact wf.simulate_eq_ok (by rw [values, List.length_map, length])
  · exact (encodes.unique b c hfalse' (agree.symm.trans agree') holds holds' v hv).symm

/-- A constant of its own costs the encoding one variable and no condition. -/
theorem exactly_of_newFalse {v : Nat} (first : Emits s s' [v] [[(Literal.positive v).negate]])
    (encodes : Encodes net (.positive v) inputs s' s'' outputs fresh emitted) (wf : net.WellFormed)
    (allocated : ∀ l ∈ inputs, Allocated s l.var) (length : inputs.length = net.numInputs) :
    ExactlyEncoded net inputs (fun _ => True)
      ({n | net.InOutputCone n ∧ net.IsGate n}.ncard + 1) s s'' outputs := by
  have given : Given s' (.positive v) inputs :=
    ⟨(first.allocated v).2 (.inr (List.mem_singleton_self v)), fun l hl => first.mono (allocated l hl)⟩
  obtain ⟨fresh', emitted', emits', numFresh', allocated', extend'⟩ := encodes.exactly wf given length
  refine ⟨_, _, first.trans emits', by rw [List.length_append, numFresh', Nat.add_comm]; rfl,
    allocated', fun a _ => ?_⟩
  have agree : Agree s a (Function.update a v false) :=
    (agree_update (first.unused v (List.mem_singleton_self v)) a false).symm
  obtain ⟨b, agree', holds, simulated, unique⟩ := extend' (Function.update a v false) (by simp)
  have hb : b v = false := by
    rw [← agree' v given.constantFalse, Function.update_self]
  refine ⟨b, agree.trans (first.agree_mono agree'), ?_, ?_, fun c agreeC holdsC => ?_⟩
  · rw [satisfies_append, satisfies_negate_iff.2 (by rwa [eval_positive]), holds, Bool.and_self]
  · rwa [agree.values allocated]
  · rw [satisfies_append, Bool.and_eq_true, satisfies_negate_iff, eval_positive] at holdsC
    obtain ⟨hc, holdsC⟩ := holdsC
    have agreeC' : Agree s' (Function.update a v false) c := by
      refine first.agree_of_fresh (agree.symm.trans agreeC) fun u hu => ?_
      rw [List.mem_singleton.1 hu, Function.update_self, hc]
    intro u hu
    rcases List.mem_append.1 hu with hu | hu
    · rw [List.mem_singleton.1 hu, hc, hb]
    · exact unique c agreeC' holdsC u hu

end Encodes

end LogicNet.Sat

namespace LogicNet

open LogicNet.Sat Workspace
open LawfulSink (Allocated)

variable {σ : Type} [ClauseSink σ] [LawfulSink σ] {w : Workspace} {v : View} {net : Network} {s : σ}
  {inputs : List Literal}

/-- A network is encoded exactly over any literals of its inputs, with one fresh variable for each gate
in the cones of the outputs, and one more if the constant is to be made too. -/
theorem Workspace.Reachable.encoding_exact (hw : w.Reachable)
    (hnet : w.networks[v.networkId]? = some net) (length : inputs.length = net.numInputs)
    (allocated : ∀ l ∈ inputs, Allocated s l.var) :
    (∀ constantFalse : Literal, Allocated s constantFalse.var →
      ∃ outputs s', (encodeWith net constantFalse inputs).run s = .ok outputs s' ∧
        ExactlyEncoded net inputs (fun a => constantFalse.eval a = false)
          {n | net.InOutputCone n ∧ net.IsGate n}.ncard s s' outputs) ∧
    ∃ outputs s', (encode net inputs).run s = .ok outputs s' ∧
      ExactlyEncoded net inputs (fun _ => True)
        ({n | net.InOutputCone n ∧ net.IsGate n}.ncard + 1) s s' outputs := by
  have wf := (hw.sound _ net hnet).hashConsed.toWellFormed
  refine ⟨fun constantFalse hfalse => ?_, ?_⟩
  · have given : Given s constantFalse inputs := ⟨hfalse, allocated⟩
    obtain ⟨outputs, s', fresh, emitted, run, encodes⟩ := encodeWith_eq_ok wf given length
    exact ⟨outputs, s', run, encodes.exactly wf given length⟩
  · obtain ⟨v, s', run, first⟩ := exists_newFalse s
    have given : Given s' (.positive v) inputs :=
      ⟨(first.allocated v).2 (.inr (List.mem_singleton_self v)), fun l hl => first.mono (allocated l hl)⟩
    obtain ⟨outputs, s'', fresh, emitted, run', encodes⟩ := encodeWith_eq_ok wf given length
    exact ⟨outputs, s'', (Edit.run_bind_ok run _).trans run',
      encodes.exactly_of_newFalse first wf allocated length⟩

/-- The sample is encoded over one variable and its negation, and a constant. -/
theorem sample_encoded : sample.Reachable ∧ sample.networks[0]? = some sampleNetwork ∧
    ∃ outputs r', (encodeWith sampleNetwork (.positive 1) [.positive 0, ⟨0, true⟩, .positive 0]).run
        (⟨2, #[]⟩ : Recorder) = .ok outputs r' ∧
      ExactlyEncoded sampleNetwork [.positive 0, ⟨0, true⟩, .positive 0]
        (fun a => (Literal.positive 1).eval a = false)
        {n | sampleNetwork.InOutputCone n ∧ sampleNetwork.IsGate n}.ncard (⟨2, #[]⟩ : Recorder) r'
        outputs := by
  have inUse : ∀ l ∈ [Literal.positive 0, ⟨0, true⟩, .positive 0],
      Allocated (⟨2, #[]⟩ : Recorder) l.var := by
    change ∀ l ∈ [Literal.positive 0, ⟨0, true⟩, .positive 0], l.var < 2
    decide
  have length : [Literal.positive 0, ⟨0, true⟩, .positive 0].length = sampleNetwork.numInputs := by
    decide +kernel
  obtain ⟨encoded, -⟩ := reachable_sample.encoding_exact (v := .network 0) getElem?_sample length inUse
  exact ⟨reachable_sample, getElem?_sample, encoded (.positive 1) (show 1 < 2 by decide)⟩

end LogicNet
