import LogicNet.Sat.Clause

/-! # Resolution

Two clauses that differ in the sign of one literal alone say together what one of them says without
that literal.  The clauses of a large table say the same of many rows, and far fewer are left when
such clauses are put together.  `satisfies_resolveAll` says that nothing else changes.
-/

namespace LogicNet.Sat

/-- What both clauses have, if they differ in the sign of one literal alone. -/
def resolve? : Clause → Clause → Option Clause
  | l :: c, m :: d =>
    if l = m then (resolve? c d).map (l :: ·)
    else if l = m.negate ∧ c = d then some c
    else none
  | _, _ => none

/-- Puts a clause in front of others, or in the place of the first one if they can be resolved. -/
def resolveInto (c : Clause) : List Clause → List Clause
  | [] => [c]
  | d :: rest =>
    match resolve? c d with
    | some e => resolveInto e rest
    | none => c :: d :: rest

/-- Resolves neighbouring clauses until none of them can be. -/
def resolveNeighbours (clauses : List Clause) : List Clause := clauses.foldr resolveInto []

/-- Whether a clause ends with a negated literal.  The clauses of a gate end with its output. -/
def endsNegated (c : Clause) : Bool := c.getLast?.any (·.negated)

/-- Resolves neighbours among the clauses that end with a negated literal, and among the others. -/
def resolveAll (clauses : List Clause) : List Clause :=
  resolveNeighbours (clauses.filter endsNegated)
    ++ resolveNeighbours (clauses.filter (!endsNegated ·))

theorem any_eval_of_resolve? {c d e : Clause} (h : resolve? c d = some e) (a : Nat → Bool) :
    e.any (·.eval a) = (c.any (·.eval a) && d.any (·.eval a)) := by
  fun_induction resolve? c d generalizing e with
  | case1 c l d ih =>
    obtain ⟨e, he, rfl⟩ := Option.map_eq_some_iff.1 h
    simp only [List.any_cons, ih he]
    cases l.eval a <;> rfl
  | case2 l c m d _ hlm =>
    obtain ⟨rfl, rfl⟩ := hlm
    obtain rfl := Option.some.inj h
    simp only [List.any_cons, Literal.eval_negate]
    cases m.eval a <;> simp
  | case3 => simp at h
  | case4 => simp at h

theorem satisfies_resolveInto (a : Nat → Bool) (c : Clause) (clauses : List Clause) :
    satisfies a (resolveInto c clauses) = satisfies a (c :: clauses) := by
  fun_induction resolveInto c clauses with
  | case1 => rfl
  | case2 c d rest e he ih =>
    simp only [ih, satisfies_cons, any_eval_of_resolve? he, Bool.and_assoc]
  | case3 => rfl

theorem satisfies_resolveNeighbours (a : Nat → Bool) (clauses : List Clause) :
    satisfies a (resolveNeighbours clauses) = satisfies a clauses := by
  induction clauses with
  | nil => rfl
  | cons c clauses ih =>
    rw [resolveNeighbours, List.foldr_cons, ← resolveNeighbours, satisfies_resolveInto,
      satisfies_cons, satisfies_cons, ih]

/-- The same assignments satisfy the clauses before and after. -/
theorem satisfies_resolveAll (a : Nat → Bool) (clauses : List Clause) :
    satisfies a (resolveAll clauses) = satisfies a clauses := by
  rw [resolveAll, satisfies, List.all_append, ← satisfies, ← satisfies,
    satisfies_resolveNeighbours, satisfies_resolveNeighbours, satisfies, satisfies, satisfies,
    Bool.eq_iff_iff]
  simp only [Bool.and_eq_true, List.all_eq_true, List.mem_filter]
  grind

end LogicNet.Sat
