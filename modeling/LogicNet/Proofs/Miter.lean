import LogicNet.Equivalence
import LogicNet.Proofs.Encoding

/-! # Miters

The clauses of a miter and its difference literal have a model exactly if some assignment of the inputs
tells the two networks apart and is not excluded.  A model makes such an assignment, and such an
assignment extends to a model.
-/

namespace LogicNet

open LogicNet.Sat
open Network (ofPattern)
open LawfulSink (Allocated)

namespace Sat

variable {σ : Type} [ClauseSink σ] [LawfulSink σ] {s s' : σ} {a : Nat → Bool}

theorem satisfies_xorClauses {out x y : Literal} :
    satisfies a (xorClauses out x y) = true ↔ out.eval a = (x.eval a ^^ y.eval a) := by
  rw [(defines_xorClauses out x y).satisfies_iff]
  simp only [values, List.map_cons, List.map_nil]
  cases x.eval a <;> cases y.eval a <;> cases out.eval a <;> decide

/-- A solver that finds a model whenever there is one, and answers with a model only. -/
structure Solver.Exact (solver : Solver) : Prop where
  model : ∀ {clauses assumed m}, solver clauses assumed = some m →
    satisfies m clauses = true ∧ ∀ l ∈ assumed, l.eval m = true
  found : ∀ {clauses assumed m}, satisfies m clauses = true → (∀ l ∈ assumed, l.eval m = true) →
    (solver clauses assumed).isSome

theorem satisfies_units {literals : List Literal} :
    satisfies a (literals.map ([·])) = true ↔ ∀ l ∈ literals, l.eval a = true := by
  simp [satisfies]

theorem exact_searchSolver : searchSolver.Exact where
  model {clauses assumed m} h := by
    have holds := satisfies_of_solve h
    rwa [satisfies_append, Bool.and_eq_true, satisfies_units] at holds
  found {clauses assumed m} holds hassumed := by
    have both : satisfies m (clauses ++ assumed.map ([·])) = true := by
      rw [satisfies_append, holds, satisfies_units.2 hassumed, Bool.and_self]
    exact solve_isSome both

/-- The values of the literals of a pair are not the same. -/
def PairDiffers (a : Nat → Bool) (pair : Literal × Literal) : Prop := pair.1.eval a ≠ pair.2.eval a

/-- The literals of the pairs are over variables in use. -/
def PairsAllocated (s : σ) (pairs : List (Literal × Literal)) : Prop :=
  ∀ pair ∈ pairs, Allocated s pair.1.var ∧ Allocated s pair.2.var

theorem Agree.pairDiffers_iff {b : Nat → Bool} (agree : Agree s a b) {pairs : List (Literal × Literal)}
    (allocated : PairsAllocated s pairs) :
    (∃ pair ∈ pairs, PairDiffers a pair) ↔ ∃ pair ∈ pairs, PairDiffers b pair := by
  refine exists_congr fun pair => and_congr_right fun hpair => ?_
  obtain ⟨first, second⟩ := allocated pair hpair
  rw [PairDiffers, PairDiffers, agree.eval first, agree.eval second]

theorem values_ne_iff {literals literals' : List Literal} (length : literals.length = literals'.length) :
    values a literals ≠ values a literals' ↔ ∃ pair ∈ literals.zip literals', PairDiffers a pair := by
  induction literals generalizing literals' with
  | nil =>
    obtain rfl := List.length_eq_zero_iff.1 length.symm
    simp [values]
  | cons l rest ih =>
    cases literals' with
    | nil => simp at length
    | cons l' rest' =>
      have others := ih (Nat.succ.inj length)
      simp only [values, List.map_cons, ne_eq, List.cons.injEq, not_and_or, List.zip_cons_cons,
        List.mem_cons, exists_eq_or_imp] at others ⊢
      rw [← others]
      rfl

end Sat

namespace Network

variable {σ : Type} [ClauseSink σ] [LawfulSink σ] {s s' : σ} {a b d : Network}
  {dontCares : Option Network} {constantFalse : Literal} {inputs : List Literal} {pattern : List Bool}

/-- Some miter is true exactly if some pair differs. -/
theorem encodePairs_eq_ok {pairs : List (Literal × Literal)} :
    ∀ {s : σ}, PairsAllocated s pairs → ∃ vars s' emitted,
      (pairs.mapM encodePair).run s = .ok (vars.map Literal.positive) s' ∧ Emits s s' vars emitted ∧
      (∀ m, satisfies m emitted = true →
        ((∃ v ∈ vars, m v = true) ↔ ∃ pair ∈ pairs, PairDiffers m pair)) ∧
      Extendable s emitted := by
  induction pairs with
  | nil =>
    intro s _
    exact ⟨[], s, [], rfl, .refl s, fun m _ => by simp, extendable_nil s⟩
  | cons pair rest ih =>
    intro s allocated
    obtain ⟨⟨hx, hy⟩, others⟩ := List.forall_mem_cons.1 allocated
    have defines := defines_xorClauses (.positive (ClauseSink.newVariable s).1) pair.1 pair.2
    have inUse : ∀ l ∈ [pair.1, pair.2], Allocated s l.var := by simp [hx, hy]
    have first := defines.emits inUse
    have run₁ : (encodePair pair).run s = .ok (.positive (ClauseSink.newVariable s).1) _ := rfl
    obtain ⟨vars, s', emitted, run, emits, meaning, extendable⟩ :=
      ih fun p hp => ⟨first.mono (others p hp).1, first.mono (others p hp).2⟩
    refine ⟨_ :: vars, s', _, ?_, first.trans emits, fun m holds => ?_,
      first.extendable_append (defines.extendable inUse) extendable⟩
    · rw [List.mapM_cons]
      exact (Edit.run_bind_ok run₁ _).trans ((Edit.run_bind_ok run _).trans rfl)
    · rw [satisfies_append, Bool.and_eq_true, satisfies_xorClauses, eval_positive] at holds
      have differs : m (ClauseSink.newVariable s).1 = true ↔ PairDiffers m pair := by
        rw [holds.1, PairDiffers]
        cases pair.1.eval m <;> cases pair.2.eval m <;> simp
      simp only [List.mem_cons, exists_eq_or_imp, differs, meaning m holds.2]

/-- The difference is true only if some pair differs, and it can be true where one does. -/
theorem encodeDifference_eq_ok {pairs : List (Literal × Literal)} (allocated : PairsAllocated s pairs) :
    ∃ diff s' fresh emitted, (encodeDifference pairs).run s = .ok diff s' ∧
      Emits s s' fresh emitted ∧
      (∀ m, satisfies m emitted = true → diff.eval m = true → ∃ pair ∈ pairs, PairDiffers m pair) ∧
      ∀ m, (∃ pair ∈ pairs, PairDiffers m pair) →
        ∃ m', Agree s m m' ∧ satisfies m' emitted = true ∧ diff.eval m' = true := by
  let v := (ClauseSink.newVariable s).1
  have first := Emits.newVariable s
  have isNew : Allocated (ClauseSink.newVariable s).2 v :=
    (first.allocated v).2 (.inr (List.mem_singleton_self v))
  have run₁ : (newVariable : Encode σ Nat).run s = .ok v (ClauseSink.newVariable s).2 := rfl
  obtain ⟨vars, s₂, emitted, run₂, emits, meaning, extendable⟩ := encodePairs_eq_ok
    fun p hp => ⟨first.mono (allocated p hp).1, first.mono (allocated p hp).2⟩
  let clause := (Literal.positive v).negate :: vars.map Literal.positive
  have inUse : ∀ l ∈ clause, Allocated s₂ l.var := by
    intro l hl
    rcases List.mem_cons.1 hl with rfl | hl
    · exact emits.mono isNew
    · obtain ⟨u, hu, rfl⟩ := List.mem_map.1 hl
      exact (emits.allocated u).2 (.inr hu)
  have clauseHolds (m : Nat → Bool) :
      satisfies m [clause] = true ↔ (m v = true → ∃ u ∈ vars, m u = true) := by
    simp [clause, imp_iff_not_or, Function.comp_def]
  refine ⟨.positive v, _, _, _, ?_, first.trans (emits.trans (.addClause inUse)), ?_, ?_⟩
  · unfold encodeDifference
    rw [Edit.run_bind_ok run₁, Edit.run_bind_ok run₂]
    rfl
  · intro m holds hdiff
    rw [List.nil_append, satisfies_append, Bool.and_eq_true, clauseHolds] at holds
    exact (meaning m holds.1).1 (holds.2 (by rwa [eval_positive] at hdiff))
  · intro m differs
    have agree := (agree_update (LawfulSink.fresh_newVariable s) m true).symm
    obtain ⟨m', agree', holds⟩ := extendable (Function.update m v true)
    have value : m' v = true := by rw [← agree' v isNew, Function.update_self]
    have agreed := agree.trans (first.agree_mono agree')
    refine ⟨m', agreed, ?_, by rw [eval_positive, value]⟩
    rw [List.nil_append, satisfies_append, holds, Bool.true_and, clauseHolds]
    exact fun _ => (meaning m' holds).2 ((agreed.pairDiffers_iff allocated).1 differs)

/-- An assignment of the inputs on which the one output of a don't-care function is false, if there is
such a function. -/
def Allows (dontCares : Option Network) (pattern : List Bool) : Prop :=
  ∀ d ∈ dontCares, (d.outputValues (ofPattern pattern)).head? = some false

/-- A network that can be the don't-care function of another one. -/
structure Serves (d net : Network) : Prop where
  wellFormed : d.WellFormed
  inputs : d.numInputs = net.numInputs
  outputs : d.numOutputs ≠ 0

/-- The clauses hold on the allowed assignments, and can hold on all of them, in one way on each. -/
theorem encodeExclusion_eq_ok (wf : d.WellFormed) (outputs : d.numOutputs ≠ 0)
    (given : Given s constantFalse inputs) (length : inputs.length = d.numInputs) :
    ∃ s' fresh emitted, (encodeExclusion d constantFalse inputs).run s = .ok () s' ∧
      Emits s s' fresh emitted ∧
      (∀ m, constantFalse.eval m = false → satisfies m emitted = true →
        Allows (some d) (values m inputs)) ∧
      (∀ m, constantFalse.eval m = false → Allows (some d) (values m inputs) →
        ∃ m', Agree s m m' ∧ satisfies m' emitted = true) ∧
      ∀ m m', constantFalse.eval m = false → Agree s m m' → satisfies m emitted = true →
        satisfies m' emitted = true → Agree s' m m' := by
  obtain ⟨literals, s₁, fresh, emitted, run, encodes⟩ := encodeWith_eq_ok wf given length
  obtain ⟨out, rest, rfl⟩ := List.exists_cons_of_length_pos
    (encodes.length.symm ▸ Nat.pos_of_ne_zero outputs)
  have inUse : ∀ l ∈ [out.negate], Allocated s₁ l.var := by
    intro l hl
    rw [List.mem_singleton.1 hl]
    exact encodes.allocated out List.mem_cons_self
  have allows (m : Nat → Bool) (hfalse : constantFalse.eval m = false)
      (holds : satisfies m emitted = true) :
      satisfies m [[out.negate]] = true ↔ Allows (some d) (values m inputs) := by
    simp only [satisfies_negate_iff, Allows, Option.mem_some, forall_eq', ← encodes.sound m hfalse holds]
    simp [values]
  have emits := encodes.emits.trans (.addClause inUse)
  refine ⟨_, _, _, ?_, emits, ?_, ?_, ?_⟩
  · unfold encodeExclusion
    rw [Edit.run_bind_ok run]
    rfl
  · intro m hfalse holds
    rw [satisfies_append, Bool.and_eq_true] at holds
    exact (allows m hfalse holds.1).1 holds.2
  · intro m hfalse hm
    obtain ⟨m', agree, holds⟩ := encodes.extendable m
    have hfalse' : constantFalse.eval m' = false := agree.eval given.constantFalse ▸ hfalse
    rw [agree.values given.inputs] at hm
    exact ⟨m', agree, by rw [satisfies_append, holds, Bool.true_and]; exact (allows m' hfalse' holds).2 hm⟩
  · intro m m' hfalse agree holds holds'
    rw [satisfies_append, Bool.and_eq_true] at holds holds'
    have same := encodes.unique m m' hfalse agree holds.1 holds'.1
    exact emits.agree_of_fresh agree (by rwa [List.append_nil])

theorem encodeExclusions_eq_ok (serves : ∀ d ∈ dontCares, d.Serves a)
    (given : Given s constantFalse inputs) (length : inputs.length = a.numInputs) :
    ∃ s' fresh emitted, (dontCares.forM fun d => encodeExclusion d constantFalse inputs).run s
        = .ok () s' ∧
      Emits s s' fresh emitted ∧
      (∀ m, constantFalse.eval m = false → satisfies m emitted = true →
        Allows dontCares (values m inputs)) ∧
      ∀ m, constantFalse.eval m = false → Allows dontCares (values m inputs) →
        ∃ m', Agree s m m' ∧ satisfies m' emitted = true := by
  cases dontCares with
  | none =>
    have all (pattern : List Bool) : Allows none pattern := fun d hd => by cases hd
    exact ⟨s, [], [], rfl, .refl s, fun m _ _ => all _, fun m _ _ => extendable_nil s m⟩
  | some d =>
    obtain ⟨wf, hinputs, houtputs⟩ := serves d rfl
    obtain ⟨s', fresh, emitted, run, emits, sound, complete, -⟩ :=
      encodeExclusion_eq_ok wf houtputs given (length.trans hinputs.symm)
    exact ⟨s', fresh, emitted, run, emits, sound, complete⟩

/-- An allowed assignment on which the outputs of two networks differ. -/
def Distinguishes (a b : Network) (dontCares : Option Network) (pattern : List Bool) : Prop :=
  a.outputValues (ofPattern pattern) ≠ b.outputValues (ofPattern pattern) ∧ Allows dontCares pattern

/-- Variables can be given any values, and another variable the value false. -/
theorem exists_values {vars : List Nat} {v : Nat} (nodup : vars.Nodup) (hv : v ∉ vars)
    (length : pattern.length = vars.length) :
    ∃ m : Nat → Bool, m v = false ∧ values m (vars.map Literal.positive) = pattern := by
  refine ⟨fun u => pattern.getD (vars.idxOf u) false, ?_, ?_⟩
  · simp [List.idxOf_eq_length hv, length]
  · refine List.ext_getElem (by simp [values, length]) fun i hi hi' => ?_
    have hlt : i < vars.length := length ▸ hi'
    simp [values, nodup.idxOf_getElem i hlt, hi']

/-- The outputs of two networks of one interface, paired. -/
theorem encodeOutputs_eq_ok (wfA : a.WellFormed) (wfB : b.WellFormed)
    (hinputs : a.numInputs = b.numInputs) (houtputs : a.numOutputs = b.numOutputs)
    (serves : ∀ d ∈ dontCares, d.Serves a) (given : Given s constantFalse inputs)
    (length : inputs.length = a.numInputs) : ∃ pairs s' fresh emitted,
      (encodeOutputs a b dontCares constantFalse inputs).run s = .ok pairs s' ∧
      Emits s s' fresh emitted ∧ PairsAllocated s' pairs ∧
      (∀ m, constantFalse.eval m = false → satisfies m emitted = true →
        ((∃ pair ∈ pairs, PairDiffers m pair) ↔ a.outputValues (ofPattern (values m inputs))
          ≠ b.outputValues (ofPattern (values m inputs))) ∧ Allows dontCares (values m inputs)) ∧
      ∀ m, constantFalse.eval m = false → Allows dontCares (values m inputs) →
        ∃ m', Agree s m m' ∧ satisfies m' emitted = true := by
  obtain ⟨outputsA, s₁, freshA, emittedA, runA, encodesA⟩ := encodeWith_eq_ok wfA given length
  obtain ⟨outputsB, s₂, freshB, emittedB, runB, encodesB⟩ :=
    encodeWith_eq_ok wfB (given.mono encodesA.emits) (length.trans hinputs)
  have both := encodesA.emits.trans encodesB.emits
  obtain ⟨s₃, freshX, emittedX, runX, emitsX, soundX, extendX⟩ :=
    encodeExclusions_eq_ok serves (given.mono both) length
  have lengths : outputsA.length = outputsB.length := by
    rw [encodesA.length, encodesB.length, houtputs]
  refine ⟨outputsA.zip outputsB, s₃, _, _, ?_, both.trans emitsX, fun pair hpair => ?_,
    fun m hfalse holds => ?_, fun m hfalse allowed => ?_⟩
  · unfold encodeOutputs
    rw [Edit.run_bind_ok runA, Edit.run_bind_ok runB, Edit.run_bind_ok runX]
    rfl
  · obtain ⟨hx, hy⟩ := List.of_mem_zip hpair
    exact ⟨emitsX.mono (encodesB.emits.mono (encodesA.allocated _ hx)),
      emitsX.mono (encodesB.allocated _ hy)⟩
  · simp only [satisfies_append, Bool.and_eq_true] at holds
    obtain ⟨⟨holdsA, holdsB⟩, holdsX⟩ := holds
    rw [← values_ne_iff lengths, encodesA.sound m hfalse holdsA, encodesB.sound m hfalse holdsB]
    exact ⟨.rfl, soundX m hfalse holdsX⟩
  · obtain ⟨m₂, agree₂, holds₂⟩ :=
      encodesA.emits.extendable_append encodesA.extendable encodesB.extendable m
    have hfalse₂ : constantFalse.eval m₂ = false := agree₂.eval given.constantFalse ▸ hfalse
    obtain ⟨m₃, agree₃, holds₃⟩ := extendX m₂ hfalse₂ (agree₂.values given.inputs ▸ allowed)
    refine ⟨m₃, agree₂.trans (both.agree_mono agree₃), ?_⟩
    rw [satisfies_append, ← both.satisfies_congr agree₃, holds₂, holds₃, Bool.and_self]

/-- The models of a miter in which the difference is true are the assignments that it looks for. -/
theorem encodeMiter_eq_ok (wfA : a.WellFormed) (wfB : b.WellFormed)
    (hinputs : a.numInputs = b.numInputs) (houtputs : a.numOutputs = b.numOutputs)
    (serves : ∀ d ∈ dontCares, d.Serves a) (s : σ) : ∃ inputs diff s' fresh emitted,
      (encodeMiter a b dontCares).run s = .ok (inputs, diff) s' ∧ Emits s s' fresh emitted ∧
      inputs.length = a.numInputs ∧
      (∀ m, satisfies m emitted = true → diff.eval m = true →
        Distinguishes a b dontCares (values m inputs)) ∧
      ∀ pattern, pattern.length = a.numInputs → Distinguishes a b dontCares pattern →
        ∃ m, satisfies m emitted = true ∧ diff.eval m = true := by
  obtain ⟨v, s₁, run₁, emits₁⟩ := exists_newFalse s
  obtain ⟨vars, s₂, run₂, emits₂, length⟩ := exists_newLiterals a.numInputs s₁
  have hv : Allocated s₁ v := (emits₁.allocated v).2 (.inr (List.mem_singleton_self v))
  have given : Given s₂ (.positive v) (vars.map .positive) := by
    refine ⟨emits₂.mono hv, fun l hl => ?_⟩
    obtain ⟨u, hu, rfl⟩ := List.mem_map.1 hl
    exact (emits₂.allocated u).2 (.inr hu)
  have lengthA : (vars.map Literal.positive).length = a.numInputs := by rw [List.length_map, length]
  obtain ⟨pairs, s₃, freshP, emittedP, runP, emitsP, allocatedP, soundP, extendP⟩ :=
    encodeOutputs_eq_ok wfA wfB hinputs houtputs serves given lengthA
  obtain ⟨diff, s₄, freshD, emittedD, runD, emitsD, soundD, extendD⟩ :=
    encodeDifference_eq_ok allocatedP
  refine ⟨vars.map .positive, diff, s₄, _, _, ?_, emits₁.trans (emits₂.trans (emitsP.trans emitsD)),
    lengthA, fun m holds hdiff => ?_, ?_⟩
  · unfold encodeMiter
    rw [Edit.run_bind_ok run₁, Edit.run_bind_ok run₂, Edit.run_bind_ok runP, Edit.run_bind_ok runD]
    rfl
  · simp only [satisfies_append, satisfies_nil, Bool.and_eq_true, satisfies_negate_iff] at holds
    obtain ⟨hfalse, -, holdsP, holdsD⟩ := holds
    obtain ⟨differ, allowed⟩ := soundP m hfalse holdsP
    exact ⟨differ.1 (soundD m holdsD hdiff), allowed⟩
  · rintro pattern hlength ⟨differ, allowed⟩
    have hvars : v ∉ vars := fun hmem => emits₂.unused v hmem hv
    obtain ⟨m₂, hfalse₂, values₂⟩ := exists_values emits₂.nodup hvars (hlength.trans length.symm)
    rw [← eval_positive v m₂] at hfalse₂
    obtain ⟨m₃, agree₃, holds₃⟩ := extendP m₂ hfalse₂ (values₂.symm ▸ allowed)
    have hfalse₃ : (Literal.positive v).eval m₃ = false := agree₃.eval given.constantFalse ▸ hfalse₂
    rw [agree₃.values given.inputs] at values₂
    have pairDiffers := (soundP m₃ hfalse₃ holds₃).1.2 (values₂.symm ▸ differ)
    obtain ⟨m₄, agree₄, holds₄, hdiff⟩ := extendD m₃ pairDiffers
    have hfalse₄ : (Literal.positive v).eval m₄ = false :=
      agree₄.eval (emitsP.mono given.constantFalse) ▸ hfalse₃
    refine ⟨m₄, ?_, hdiff⟩
    simp only [satisfies_append, satisfies_nil, Bool.and_eq_true, satisfies_negate_iff]
    exact ⟨hfalse₄, trivial, emitsP.satisfies_congr agree₄ ▸ holds₃, holds₄⟩

/-- With an exact solver, the verdict says whether an assignment distinguishes the networks. -/
theorem solveMiter_eq_ok {solver : Solver} (exact : solver.Exact) (wfA : a.WellFormed)
    (wfB : b.WellFormed) (hinputs : a.numInputs = b.numInputs) (houtputs : a.numOutputs = b.numOutputs)
    (serves : ∀ d ∈ dontCares, d.Serves a) : ∃ verdict,
      solveMiter solver a b dontCares = .ok verdict ∧
      (verdict = .proved
        ↔ ∀ pattern, pattern.length = a.numInputs → ¬ Distinguishes a b dontCares pattern) ∧
      ∀ pattern, verdict = .disproved pattern →
        pattern.length = a.numInputs ∧ Distinguishes a b dontCares pattern := by
  obtain ⟨inputs, diff, r, fresh, emitted, run, emits, length, sound, complete⟩ :=
    encodeMiter_eq_ok wfA wfB hinputs houtputs serves ({} : Recorder)
  have clauses : r.clauses.toList = emitted := emits.clauses
  unfold solveMiter
  simp only [run, clauses]
  cases answer : solver emitted [diff] with
  | none =>
    refine ⟨.proved, rfl, iff_of_true rfl fun pattern hlength distinguishes => ?_, fun _ h => by cases h⟩
    obtain ⟨m, holds, hdiff⟩ := complete pattern hlength distinguishes
    have isSome := exact.found holds fun l hl => (List.mem_singleton.1 hl).symm ▸ hdiff
    rw [answer] at isSome
    cases isSome
  | some m =>
    obtain ⟨holds, hdiff⟩ := exact.model answer
    have distinguishes := sound m holds (hdiff diff (List.mem_singleton_self diff))
    have hlength : (values m inputs).length = a.numInputs := by rw [values, List.length_map, length]
    refine ⟨_, rfl, iff_of_false (fun h => by cases h) fun none => none _ hlength distinguishes, ?_⟩
    rintro pattern ⟨⟩
    exact ⟨hlength, distinguishes⟩

end Network

end LogicNet
