import LogicNet.Proofs.Edit
import LogicNet.Proofs.GateClauses
import Mathlib.Logic.ExistsUnique

/-! # Clauses of tables at every width

An assignment takes one row over a list of literals, also where literals are repeated or complementary
or have the variable of the output.  The clauses of a table hold exactly if the output has the value of
that row, as the clauses of all other rows hold anyway.  The clauses that some gates have of their own
accept what the clauses of their tables accept.
-/

namespace LogicNet.Sat

variable {σ : Type} [ClauseSink σ] {a : Nat → Bool} {out : Literal} {own clauses : List Clause}
  {inputs : List Literal} {t : TruthTable} {value : List Bool → Bool} {row : Nat}
  {condition condition' : (Nat → Bool) → Prop}

/-- Bit `j` of the row is the value of literal `j`, and there are no further bits. -/
structure TakesRow (a : Nat → Bool) (inputs : List Literal) (row : Nat) : Prop where
  inRange : row < 2 ^ inputs.length
  bits : ∀ j (hj : j < inputs.length), row.testBit j = inputs[j].eval a

theorem takesRow_iff : TakesRow a inputs row ↔ row = TruthTable.rowOf (values a inputs) := by
  constructor
  · intro takes
    have same : (List.range inputs.length).map row.testBit = values a inputs := by
      refine List.ext_getElem (by simp [values]) fun j hj _ => ?_
      have inList : j < inputs.length := by simpa using hj
      simpa [values] using takes.bits j inList
    rw [← same, TruthTable.rowOf_testBits takes.inRange]
  · rintro rfl
    refine ⟨?_, fun j hj => ?_⟩
    · have lt := TruthTable.rowOf_lt (values a inputs)
      rwa [values, List.length_map] at lt
    · rw [TruthTable.testBit_rowOf]
      simp [values, hj]

theorem existsUnique_takesRow (a : Nat → Bool) (inputs : List Literal) :
    ∃! row, TakesRow a inputs row :=
  ⟨_, takesRow_iff.2 rfl, fun _ takes => takesRow_iff.1 takes⟩

/-- An encoding gives every sink the same clauses and does nothing else, and the clauses hold exactly
under a condition. -/
def Asserts (e : Encode σ Unit) (condition : (Nat → Bool) → Prop) : Prop :=
  ∃ clauses : List Clause, (∀ s, e.run s = .ok () (clauses.foldl ClauseSink.addClause s)) ∧
    ∀ a, satisfies a clauses = true ↔ condition a

theorem asserts_addClauses (holds : ∀ a, satisfies a clauses = true ↔ condition a) :
    Asserts (addClauses clauses : Encode σ Unit) condition :=
  ⟨clauses, fun _ => rfl, holds⟩

theorem Asserts.congr {e : Encode σ Unit} (h : Asserts e condition)
    (same : ∀ a, condition a ↔ condition' a) : Asserts e condition' := by
  obtain ⟨clauses, run, holds⟩ := h
  exact ⟨clauses, run, fun a => (holds a).trans (same a)⟩

theorem asserts_tableClauses (length : inputs.length = t.numVars) :
    Asserts (do addClauses (← tableClauses out inputs t) : Encode σ Unit)
      fun a => out.eval a = t.bit (TruthTable.rowOf (values a inputs)) := by
  rw [tableClauses, if_pos length]
  exact asserts_addClauses (defines_tableClauses length).satisfies_iff

/-- The gates that have clauses of their own, with the tables and the functions that they have. -/
inductive HasOwnClauses (out : Literal) :
    List Clause → List Literal → TruthTable → (List Bool → Bool) → Prop
  | and (x y : Literal) :
    HasOwnClauses out (andClauses out x y) [x, y] (.word 2 0x8) fun bits => bits.all id
  | xor (x y : Literal) :
    HasOwnClauses out (xorClauses out x y) [x, y] (.word 2 0x6) fun bits => bits.count true % 2 = 1
  | xor3 (x y z : Literal) :
    HasOwnClauses out (xor3Clauses out x y z) [x, y, z] (.word 3 0x96) fun bits => bits.count true % 2 = 1
  | maj (x y z : Literal) :
    HasOwnClauses out (majClauses out x y z) [x, y, z] (.word 3 0xe8) fun bits => 2 ≤ bits.count true

namespace HasOwnClauses

theorem length_eq (h : HasOwnClauses out own inputs t value) : inputs.length = t.numVars := by
  cases h <;> rfl

theorem defines (h : HasOwnClauses out own inputs t value) : Defines own out inputs t := by
  cases h with
  | and x y => exact defines_andClauses out x y
  | xor x y => exact defines_xorClauses out x y
  | xor3 x y z => exact defines_xor3Clauses out x y z
  | maj x y z => exact defines_majClauses out x y z

/-- The table has the values of the function. -/
theorem bit_eq (h : HasOwnClauses out own inputs t value) (a : Nat → Bool) :
    t.bit (TruthTable.rowOf (values a inputs)) = value (values a inputs) := by
  cases h with
  | and x y | xor x y =>
    rw [values, List.map_cons, List.map_cons, List.map_nil]
    cases x.eval a <;> cases y.eval a <;> rfl
  | xor3 x y z | maj x y z =>
    rw [values, List.map_cons, List.map_cons, List.map_cons, List.map_nil]
    cases x.eval a <;> cases y.eval a <;> cases z.eval a <;> rfl

end HasOwnClauses

/-- The clauses of a table are exact, over any number of variables and over any literals: they hold
exactly if the output has the value that the table has on the one row that the assignment takes.  For the
gates with clauses of their own, these clauses and those of the table hold under the same assignments,
which are the ones that give the output the value of the function of the gate. -/
theorem tableClauses_exact :
    (∀ (a : Nat → Bool) (inputs : List Literal), ∃! row, TakesRow a inputs row) ∧
    (∀ (out : Literal) (inputs : List Literal) (t : TruthTable), inputs.length = t.numVars →
      Asserts (do addClauses (← tableClauses out inputs t) : Encode σ Unit)
        fun a => ∃ row, TakesRow a inputs row ∧ out.eval a = t.bit row) ∧
    ∀ out own inputs t value, HasOwnClauses out own inputs t value →
      Asserts (addClauses own : Encode σ Unit) (fun a => out.eval a = value (values a inputs)) ∧
      Asserts (do addClauses (← tableClauses out inputs t) : Encode σ Unit)
        fun a => out.eval a = value (values a inputs) := by
  refine ⟨existsUnique_takesRow, fun out inputs t length => ?_,
    fun out own inputs t value gate => ⟨?_, ?_⟩⟩
  · refine (asserts_tableClauses length).congr fun a => ?_
    simp only [takesRow_iff, exists_eq_left]
  · refine asserts_addClauses fun a => ?_
    rw [gate.defines.satisfies_iff, gate.bit_eq]
  · refine (asserts_tableClauses gate.length_eq).congr fun a => ?_
    rw [gate.bit_eq]

/-- A table over a literal, its complement and the complement of the output, and a majority over a
repeated literal and the output itself. -/
theorem sample_table_exact :
    let x := Literal.positive 0
    let out := Literal.positive 1
    [x, x.negate, out.negate].length = (TruthTable.word 3 0x1b).numVars ∧
    Asserts (do addClauses (← tableClauses out [x, x.negate, out.negate] (.word 3 0x1b)) :
      Encode Recorder Unit) (fun a => a 1 = true → a 0 = true) ∧
    ∃ value, HasOwnClauses out (majClauses out x x out) [x, x, out] (.word 3 0xe8) value ∧
      Asserts (addClauses (majClauses out x x out) : Encode Recorder Unit) (fun a => a 1 = a 0) ∧
      Asserts (do addClauses (← tableClauses out [x, x, out] (.word 3 0xe8)) : Encode Recorder Unit)
        fun a => a 1 = a 0 := by
  intro x out
  have own : HasOwnClauses out (majClauses out x x out) [x, x, out] (.word 3 0xe8) _ := .maj x x out
  obtain ⟨-, exact, same⟩ := tableClauses_exact (σ := Recorder)
  obtain ⟨byClauses, byTable⟩ := same _ _ _ _ _ own
  have majority (a : Nat → Bool) :
      out.eval a = decide (2 ≤ (values a [x, x, out]).count true) ↔ a 1 = a 0 := by
    simp only [values, List.map_cons, List.map_nil, x, out, Literal.eval, Literal.positive]
    cases a 0 <;> cases a 1 <;> decide
  refine ⟨rfl, (exact out _ _ rfl).congr fun a => ?_, _, own, byClauses.congr majority,
    byTable.congr majority⟩
  -- the rows that an assignment can take here are 2, 6, 5 and 1
  simp only [takesRow_iff, exists_eq_left, values, List.map_cons, List.map_nil, x, out, Literal.eval,
    Literal.positive, Literal.negate]
  cases a 0 <;> cases a 1 <;> decide

end LogicNet.Sat
