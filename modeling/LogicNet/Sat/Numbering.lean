import LogicNet.Sat.Consequence

/-! # Numbering variables

Clauses may mention few variables of high number.  A numbering names the mentioned ones by their
places in an ascending array, so tables by variable are as small as the clauses.  What satisfies
the renumbered clauses satisfies the given ones, by `satisfies_renumber`, and the other way round,
by `satisfies_named`.
-/

namespace LogicNet.Sat

/-- The literal of another variable, with the same sign. -/
def Literal.rename (number : Nat → Nat) (l : Literal) : Literal := { l with var := number l.var }

@[simp] theorem Literal.eval_rename (number : Nat → Nat) (l : Literal) (a : Nat → Bool) :
    (l.rename number).eval a = l.eval (fun v => a (number v)) := rfl

/-- Merges neighbouring lists, which leaves half as many. -/
def mergePairs : List (List Nat) → List (List Nat)
  | c :: d :: rest => mergeCodes c d :: mergePairs rest
  | rest => rest

/-- The mentioned variables, ascending and without repetition. -/
def mentioned (clauses : List Clause) : Array Nat :=
  let singles := clauses.flatten.map fun l => [l.var]
  (Nat.repeat mergePairs (singles.length.log2 + 1) singles).flatten.toArray

/-- Adds to `i` how many more members of an ascending array are below `v`, if they are fewer than
`2 ^ k`. -/
def placeFrom (names : Array Nat) (v : Nat) : Nat → Nat → Nat
  | 0, i => i
  | k + 1, i =>
    placeFrom names v k (if names[i + 2 ^ k - 1]?.any (· < v) then i + 2 ^ k else i)

/-- New numbers for the variables of the clauses, and the variables of the new numbers. -/
structure Numbering (clauses : List Clause) where
  number : Nat → Nat
  names : Array Nat
  names_number : ∀ c ∈ clauses, ∀ l ∈ c, names.getD (number l.var) 0 = l.var

/-- The numbering by the places of the mentioned variables. -/
def Numbering.of? (clauses : List Clause) : Option (Numbering clauses) :=
  let names := mentioned clauses
  let bits := names.size.log2 + 1
  let number v := placeFrom names v bits 0
  if h : ∀ c ∈ clauses, ∀ l ∈ c, names.getD (number l.var) 0 = l.var then
    some ⟨number, names, h⟩
  else none

namespace Numbering

variable {clauses : List Clause}

def renumber (n : Numbering clauses) : List Clause :=
  clauses.map fun c => c.map (·.rename n.number)

/-- The assignment of the new numbers under which they have the values of their variables. -/
def named (n : Numbering clauses) (a : Nat → Bool) : Nat → Bool := fun i => a (n.names.getD i 0)

theorem satisfies_renumber (n : Numbering clauses) (a : Nat → Bool) :
    satisfies a n.renumber = satisfies (fun v => a (n.number v)) clauses := by
  simp [satisfies, renumber, List.all_map, List.any_map, Function.comp_def]

theorem satisfies_named (n : Numbering clauses) {a : Nat → Bool}
    (ha : satisfies a clauses = true) : satisfies (n.named a) n.renumber = true := by
  rw [satisfies_renumber, satisfies, List.all_eq_true]
  intro c hc
  obtain ⟨l, hl, hla⟩ := List.any_eq_true.1 (List.all_eq_true.1 ha c hc)
  refine List.any_eq_true.2 ⟨l, hl, ?_⟩
  simpa [Literal.eval, named, n.names_number c hc l hl] using hla

end Numbering

end LogicNet.Sat
