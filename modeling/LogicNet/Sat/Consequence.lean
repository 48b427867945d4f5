import LogicNet.Sat.Clause

/-! # Consequences

A consequence of a set of clauses is a clause that every model satisfies.  New ones follow from a
chain of others, by `not_falsifies_of_refutes`, and one without a literal shows that there is no
model.  The literals of a consequence are numbers: an even number is a variable, and the odd number
after it its negation.
-/

namespace LogicNet.Sat

namespace Literal

def code (l : Literal) : Nat := 2 * l.var + l.negated.toNat

def ofCode (k : Nat) : Literal := ⟨k / 2, k % 2 == 1⟩

/-- The code of the negated literal. -/
def negateCode (k : Nat) : Nat := if k % 2 = 0 then k + 1 else k - 1

@[simp] theorem ofCode_code (l : Literal) : ofCode l.code = l := by
  obtain ⟨v, negated⟩ := l
  cases negated with
  | false => simp [ofCode, code]
  | true =>
    simp [ofCode, code]
    omega

@[simp] theorem ofCode_negateCode (k : Nat) : ofCode (negateCode k) = (ofCode k).negate := by
  rcases Nat.mod_two_eq_zero_or_one k with h | h
  · have : (k + 1) % 2 = 1 := by omega
    have : (k + 1) / 2 = k / 2 := by omega
    simp_all [ofCode, negateCode, negate]
  · have : (k - 1) % 2 = 0 := by omega
    have : (k - 1) / 2 = k / 2 := by omega
    simp_all [ofCode, negateCode, negate]

end Literal

/-- A clause that holds in every model of the given clauses. -/
structure Consequence (clauses : List Clause) where
  codes : List Nat
  holds : ∀ a, satisfies a clauses = true → (codes.any fun k => (Literal.ofCode k).eval a) = true

/-- Puts a number in its place, and leaves what comes after it to `merge`. -/
def mergeOne (k : Nat) (merge : List Nat → List Nat) : List Nat → List Nat
  | [] => k :: merge []
  | m :: d =>
    if k = m then k :: merge d
    else if k < m then k :: merge (m :: d)
    else m :: mergeOne k merge d

/-- The members of both lists, ascending and without repetition if those of each list are. -/
def mergeCodes : List Nat → List Nat → List Nat
  | [] => id
  | k :: c => mergeOne k (mergeCodes c)

theorem mem_mergeOne {j k : Nat} {merge : List Nat → List Nat} {c : List Nat}
    (h : ∀ d, j ∈ merge d ↔ j ∈ c ∨ j ∈ d) (d : List Nat) :
    j ∈ mergeOne k merge d ↔ j ∈ k :: c ∨ j ∈ d := by
  induction d with
  | nil => simp [mergeOne, h]
  | cons m d ih => grind [mergeOne]

@[simp] theorem mem_mergeCodes {j : Nat} {c d : List Nat} :
    j ∈ mergeCodes c d ↔ j ∈ c ∨ j ∈ d := by
  induction c generalizing d with
  | nil => simp [mergeCodes]
  | cons k c ih => exact mem_mergeOne (fun _ => ih) d

/-- The codes of the literals of a clause, ascending and without repetition. -/
def codesOf (c : Clause) : List Nat := c.foldr (fun l d => mergeCodes [l.code] d) []

theorem code_mem_codesOf {l : Literal} {c : Clause} (h : l ∈ c) : l.code ∈ codesOf c := by
  induction c with
  | nil => simp at h
  | cons m c ih =>
    rw [codesOf, List.foldr_cons, ← codesOf, mem_mergeCodes]
    rcases List.mem_cons.1 h with rfl | h
    · exact .inl (by simp)
    · exact .inr (ih h)

namespace Consequence

variable {clauses : List Clause}

/-- A clause follows from any set that it belongs to. -/
def ofMem (c : Clause) (h : c ∈ clauses) : Consequence clauses where
  codes := codesOf c
  holds a ha := by
    obtain ⟨l, hl, hla⟩ := List.any_eq_true.1 (List.all_eq_true.1 ha c h)
    exact List.any_eq_true.2 ⟨l.code, code_mem_codesOf hl, by simpa using hla⟩

/-- What is left of a clause by the truth of `unit`, if that is a clause of one literal. -/
def simplify (c unit : Consequence clauses) : Consequence clauses where
  codes :=
    match unit.codes with
    | [k] => c.codes.filter (· ≠ Literal.negateCode k)
    | _ => c.codes
  holds a ha := by
    split
    next k hk =>
      have hunit : (Literal.ofCode k).eval a = true := by simpa [hk] using unit.holds a ha
      obtain ⟨m, hm, hma⟩ := List.any_eq_true.1 (c.holds a ha)
      have hne : m ≠ Literal.negateCode k := by
        rintro rfl
        simp [hunit] at hma
      exact List.any_eq_true.2 ⟨m, by simp [hm, hne], hma⟩
    next => exact c.holds a ha

/-- All marked literals are false. -/
def Falsifies (a : Nat → Bool) (marks : Array Bool) : Prop :=
  ∀ k, marks.getD k false = true → (Literal.ofCode k).eval a = false

theorem Falsifies.mark {a : Nat → Bool} {marks : Array Bool} (h : Falsifies a marks) {k : Nat}
    (hk : (Literal.ofCode k).eval a = false) : Falsifies a (marks.setIfInBounds k true) := by
  intro m hm
  by_cases hkm : k = m
  · exact hkm ▸ hk
  · exact h m (by simpa [Array.getD_eq_getD_getElem?, Array.getElem?_setIfInBounds, hkm] using hm)

/-- Marks the given literals, where no code is as large as `numCodes`. -/
def markAll (numCodes : Nat) (codes : List Nat) : Array Bool :=
  codes.foldr (fun k marks => marks.setIfInBounds k true) (.replicate numCodes false)

theorem falsifies_markAll {a : Nat → Bool} {codes : List Nat}
    (h : ∀ k ∈ codes, (Literal.ofCode k).eval a = false) (numCodes : Nat) :
    Falsifies a (markAll numCodes codes) := by
  induction codes with
  | nil =>
    intro k hk
    simp only [markAll, List.foldr_nil, Array.getD_eq_getD_getElem?] at hk
    grind
  | cons k codes ih =>
    exact Falsifies.mark (ih fun m hm => h m (List.mem_cons_of_mem k hm)) (h k List.mem_cons_self)

/-- Whether the chain shows that the marked literals cannot all be false.  Each clause but the last
has one literal that is not marked, and so the negation of that one is marked for the clauses after
it.  The last one has none. -/
def refutes : List (Consequence clauses) → Array Bool → Bool
  | [], _ => false
  | c :: chain, marks =>
    match c.codes.filter fun k => !marks.getD k false with
    | [] => true
    | [k] => refutes chain (marks.setIfInBounds (Literal.negateCode k) true)
    | _ => false

theorem not_falsifies_of_refutes {chain : List (Consequence clauses)} {marks : Array Bool}
    (h : refutes chain marks = true) {a : Nat → Bool} (ha : satisfies a clauses = true) :
    ¬ Falsifies a marks := by
  intro hmarks
  induction chain generalizing marks with
  | nil => simp [refutes] at h
  | cons c chain ih =>
    obtain ⟨m, hm, hma⟩ := List.any_eq_true.1 (c.holds a ha)
    have hmem : m ∈ c.codes.filter fun k => !marks.getD k false := by
      cases hmark : marks.getD m false with
      | false => simp_all
      | true => simp [hmarks m hmark] at hma
    rw [refutes] at h
    split at h
    next hnil =>
      rw [hnil] at hmem
      contradiction
    next k hk =>
      rw [hk, List.mem_singleton] at hmem
      subst hmem
      exact ih h (hmarks.mark (by simp [hma]))
    next => contradiction

/-- The clause of the given literals, if the chain shows that they cannot all be false. -/
def ofChain? (numCodes : Nat) (codes : List Nat) (chain : List (Consequence clauses)) :
    Option (Consequence clauses) :=
  if h : refutes chain (markAll numCodes codes) = true then
    some ⟨codes, fun a ha => by
      rw [← Bool.not_eq_false, List.any_eq_false]
      exact fun hnone => not_falsifies_of_refutes h ha
        (falsifies_markAll (fun k hk => by simpa using hnone k hk) numCodes)⟩
  else none

/-- A consequence without a literal refutes the clauses. -/
theorem satisfies_eq_false {c : Consequence clauses} (h : c.codes = []) (a : Nat → Bool) :
    satisfies a clauses = false := by
  rw [Bool.eq_false_iff]
  intro ha
  simpa [h] using c.holds a ha

end Consequence

end LogicNet.Sat
