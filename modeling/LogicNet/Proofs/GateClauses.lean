import LogicNet.Proofs.GateFunction
import LogicNet.Sat.Encoding

/-! # The clauses of gates

The clauses of a gate hold exactly if its output literal has the value of the gate on the values of its
input literals.  That is so for the clauses of tables and for those of the kinds that have clauses of
their own.
-/

namespace LogicNet

namespace Sat

variable {a : Nat → Bool}

/-- Values of literals. -/
def values (a : Nat → Bool) (literals : List Literal) : List Bool := literals.map (·.eval a)

/-- Clauses over the literals of a gate that hold exactly if the output has the value that the table has
on the row of the inputs. -/
structure Defines (clauses : List Clause) (out : Literal) (inputs : List Literal) (t : TruthTable) :
    Prop where
  satisfies_iff : ∀ a, satisfies a clauses = true
    ↔ out.eval a = t.bit (TruthTable.rowOf (values a inputs))
  vars : ∀ c ∈ clauses, ∀ l ∈ c, l.var = out.var ∨ ∃ i ∈ inputs, l.var = i.var

theorem defines_andClauses (out x y : Literal) :
    Defines (andClauses out x y) out [x, y] (.word 2 0x8) where
  satisfies_iff a := by
    simp only [andClauses, satisfies_cons, satisfies_nil, List.any_cons, List.any_nil,
      Literal.eval_negate, values, List.map_cons, List.map_nil]
    cases x.eval a <;> cases y.eval a <;> cases out.eval a <;> decide
  vars := by simp [andClauses, Literal.negate]

theorem defines_xorClauses (out x y : Literal) :
    Defines (xorClauses out x y) out [x, y] (.word 2 0x6) where
  satisfies_iff a := by
    simp only [xorClauses, satisfies_cons, satisfies_nil, List.any_cons, List.any_nil,
      Literal.eval_negate, values, List.map_cons, List.map_nil]
    cases x.eval a <;> cases y.eval a <;> cases out.eval a <;> decide
  vars := by simp [xorClauses, Literal.negate]

theorem defines_majClauses (out x y z : Literal) :
    Defines (majClauses out x y z) out [x, y, z] (.word 3 0xe8) where
  satisfies_iff a := by
    simp only [majClauses, List.flatMap_cons, List.flatMap_nil, List.cons_append, List.nil_append,
      satisfies_cons, satisfies_nil, List.any_cons, List.any_nil, Literal.eval_negate, values,
      List.map_cons, List.map_nil]
    cases x.eval a <;> cases y.eval a <;> cases z.eval a <;> cases out.eval a <;> decide
  vars := by simp [majClauses, Literal.negate]

theorem defines_xor3Clauses (out x y z : Literal) :
    Defines (xor3Clauses out x y z) out [x, y, z] (.word 3 0x96) where
  satisfies_iff a := by
    have hrange : List.range 8 = [0, 1, 2, 3, 4, 5, 6, 7] := rfl
    simp only [xor3Clauses, hrange, List.map_cons, List.map_nil, satisfies_cons, satisfies_nil,
      List.any_cons, List.any_nil, Literal.eval_negateIf, values]
    cases x.eval a <;> cases y.eval a <;> cases z.eval a <;> cases out.eval a <;> decide
  vars := by simp [xor3Clauses, Literal.negateIf]

/-- Inputs that take another row satisfy the clause of a row. -/
theorem any_eval_row (a : Nat → Bool) : ∀ {inputs : List Literal} {row : Nat},
    row < 2 ^ inputs.length →
      ((inputs.mapIdx fun j l => l.negateIf (row.testBit j)).any (·.eval a) = true
        ↔ row ≠ TruthTable.rowOf (values a inputs)) := by
  intro inputs
  induction inputs with
  | nil =>
    intro row hrow
    obtain rfl : row = 0 := by simpa using hrow
    simp [values, TruthTable.rowOf]
  | cons l rest ih =>
    intro row hrow
    rw [List.length_cons, Nat.pow_succ] at hrow
    have half : row / 2 < 2 ^ rest.length := by omega
    have shifted := ih half
    simp only [← Nat.testBit_succ] at shifted
    have low : row.testBit 0 = decide (row % 2 = 1) := Nat.testBit_zero row
    simp only [List.mapIdx_cons, List.any_cons, Bool.or_eq_true, shifted, Literal.eval_negateIf, low]
    change _ ↔ row ≠ (l.eval a).toNat + 2 * TruthTable.rowOf (values a rest)
    cases l.eval a <;> simp <;> omega

theorem defines_tableClauses {out : Literal} {inputs : List Literal} {t : TruthTable}
    (length : inputs.length = t.numVars) :
    Defines ((List.range t.numRows).map (rowClause out inputs t)) out inputs t where
  satisfies_iff a := by
    have clause : ∀ row < t.numRows, (rowClause out inputs t row).any (·.eval a) = true
        ↔ (row = TruthTable.rowOf (values a inputs) → out.eval a = t.bit row) := by
      intro row hrow
      have output : ([out.negateIf !t.bit row].any (·.eval a)) = true ↔ out.eval a = t.bit row := by
        simp
      rw [rowClause, List.any_append, Bool.or_eq_true, any_eval_row a (length ▸ hrow), output,
        ne_eq, imp_iff_not_or]
    have inRange : TruthTable.rowOf (values a inputs) < t.numRows := by
      have hlt := TruthTable.rowOf_lt (values a inputs)
      rwa [values, List.length_map, length] at hlt
    rw [satisfies, List.all_eq_true]
    simp only [List.mem_map, List.mem_range, forall_exists_index, and_imp,
      forall_apply_eq_imp_iff₂]
    constructor
    · intro h
      exact (clause _ inRange).1 (h _ inRange) rfl
    · intro h row hrow
      exact (clause row hrow).2 fun heq => heq ▸ h
  vars := by
    intro c hc l hl
    obtain ⟨row, -, rfl⟩ := List.mem_map.1 hc
    rcases List.mem_append.1 hl with hl | hl
    · obtain ⟨j, hj, rfl⟩ := List.mem_mapIdx.1 hl
      exact .inr ⟨inputs[j], List.getElem_mem hj, rfl⟩
    · obtain rfl := List.mem_singleton.1 hl
      exact .inl rfl

/-- The clauses of a gate, whether its kind has clauses of its own or not. -/
theorem gateClauses_eq_ok {inputs : List Literal} {t : TruthTable} (length : inputs.length = t.numVars)
    (out : Literal) : ∃ clauses, gateClauses (.ofTable t) t out inputs = .ok clauses ∧
      Defines clauses out inputs t := by
  have two : t.numVars = 2 → ∃ x y, inputs = [x, y] := fun h =>
    List.length_eq_two.1 (length.trans h)
  have three : t.numVars = 3 → ∃ x y z, inputs = [x, y, z] := fun h =>
    List.length_eq_three.1 (length.trans h)
  unfold GateKind.ofTable
  split
  · obtain rfl := ‹t = _›
    obtain ⟨x, y, rfl⟩ := two rfl
    exact ⟨_, rfl, defines_andClauses out x y⟩
  split
  · obtain rfl := ‹t = _›
    obtain ⟨x, y, rfl⟩ := two rfl
    exact ⟨_, rfl, defines_xorClauses out x y⟩
  split
  · obtain rfl := ‹t = _›
    obtain ⟨x, y, z, rfl⟩ := three rfl
    exact ⟨_, rfl, defines_xor3Clauses out x y z⟩
  split
  · obtain rfl := ‹t = _›
    obtain ⟨x, y, z, rfl⟩ := three rfl
    exact ⟨_, rfl, defines_majClauses out x y z⟩
  · refine ⟨_, ?_, defines_tableClauses length⟩
    simp only [gateClauses, tableClauses, if_pos length]

end Sat

end LogicNet
