/-! # Blanks and fields

A blank is a character with the Unicode property `White_Space`.  The fields of a line are its
maximal runs of characters that are not blank.
-/

namespace LogicNet.Text

/-- First and last code point of each range of blanks. -/
def blankRanges : List (Nat × Nat) :=
  [(0x0009, 0x000d), (0x0020, 0x0020), (0x0085, 0x0085), (0x00a0, 0x00a0), (0x1680, 0x1680),
    (0x2000, 0x200a), (0x2028, 0x2029), (0x202f, 0x202f), (0x205f, 0x205f), (0x3000, 0x3000)]

def isBlank (c : Char) : Bool := blankRanges.any fun r => r.1 ≤ c.toNat && c.toNat ≤ r.2

/-- Puts a field in front unless it is empty; the field is given in reverse. -/
def consField (current : List Char) (fields : List (List Char)) : List (List Char) :=
  if current.isEmpty then fields else current.reverse :: fields

/-- The fields of a line, `current` being the reversed characters of the field under way. -/
def fieldsFrom (current : List Char) : List Char → List (List Char)
  | [] => consField current []
  | c :: rest =>
    if isBlank c then consField current (fieldsFrom [] rest) else fieldsFrom (c :: current) rest

def fields (line : List Char) : List (List Char) := fieldsFrom [] line

/-- A text without a blank goes on with the field under way. -/
theorem fieldsFrom_append {word : List Char} (h : ∀ c ∈ word, isBlank c = false)
    (current rest : List Char) :
    fieldsFrom current (word ++ rest) = fieldsFrom (word.reverse ++ current) rest := by
  induction word generalizing current with
  | nil => rfl
  | cons c word ih =>
    obtain ⟨hc, hword⟩ := List.forall_mem_cons.1 h
    simp [fieldsFrom, hc, ih hword]

/-- A text without a blank is one field. -/
theorem fields_of_forall {word : List Char} (hne : word ≠ [])
    (h : ∀ c ∈ word, isBlank c = false) : fields word = [word] := by
  simpa [fields, fieldsFrom, consField, hne] using fieldsFrom_append h [] []

/-- Fields end at a blank. -/
theorem fields_append_blank {c : Char} (hc : isBlank c = true) (x y : List Char) :
    fields (x ++ c :: y) = fields x ++ fields y := by
  suffices ∀ current, fieldsFrom current (x ++ c :: y) = fieldsFrom current x ++ fields y from
    this []
  induction x with
  | nil =>
    intro current
    cases current <;> simp [fieldsFrom, consField, fields, hc]
  | cons d x ih =>
    intro current
    by_cases hd : isBlank d = true
    · cases current <;> simp [fieldsFrom, consField, hd, ih]
    · simp [fieldsFrom, hd, ih]

end LogicNet.Text
