import LogicNet.Text.Blank
import LogicNet.Text.Lines
import Mathlib.Data.List.TakeWhile

/-! # Lines and fields

What the lines of a byte stream and the fields of a line are, said by how the pieces make up the whole.  A
stream has one list of lines and a line one list of fields, and these are the ones that are read.
-/

namespace LogicNet.Text

/-- A line without the carriage return that may end it. -/
def withoutReturn (line : List UInt8) : List UInt8 :=
  if line.getLast? = some carriageReturn then line.dropLast else line

/-- A stream is made of lines that end at a newline each, and of bytes after the last newline, if any. -/
inductive HasLines : List UInt8 → List (List UInt8) → Prop
  | empty : HasLines [] []
  | last {line : List UInt8} (nonempty : line ≠ []) (whole : newline ∉ line) : HasLines line [line]
  | line {line rest : List UInt8} {lines : List (List UInt8)} (whole : newline ∉ line)
    (others : HasLines rest lines) : HasLines (line ++ newline :: rest) (withoutReturn line :: lines)

/-- A line is made of fields with blanks around them, of which the ones between fields are needed. -/
inductive HasFields : List Char → List (List Char) → Prop
  | blank {line : List Char} (blank : ∀ c ∈ line, isBlank c = true) : HasFields line []
  | field {before word after : List Char} {fields : List (List Char)}
    (blank : ∀ c ∈ before, isBlank c = true) (nonempty : word ≠ []) (whole : ∀ c ∈ word, isBlank c = false)
    (ends : ∀ c ∈ after.head?, isBlank c = true) (others : HasFields after fields) :
    HasFields (before ++ (word ++ after)) (word :: fields)

section lines

variable {bytes front line : List UInt8} {found : List (List UInt8)}

theorem endLine_reverse (line : List UInt8) : endLine line.reverse = withoutReturn line := by
  rcases List.eq_nil_or_concat line with rfl | ⟨init, b, rfl⟩
  · rfl
  · simp [endLine, withoutReturn]

theorem lines_of_not_mem (nonempty : line ≠ []) (whole : newline ∉ line) : lines line = [line] := by
  simp [lines, linesFrom_of_not_mem whole, linesFrom, nonempty]

theorem HasLines.lines_eq (h : HasLines bytes found) : lines bytes = found := by
  induction h with
  | empty => rfl
  | last nonempty whole => exact lines_of_not_mem nonempty whole
  | line whole _ ih => rw [lines_append_newline whole, endLine_reverse, ih]

theorem hasLines_lines (bytes : List UInt8) : HasLines bytes (lines bytes) := by
  induction h : bytes.length using Nat.strongRecOn generalizing bytes with
  | _ k ih =>
    by_cases hmem : newline ∈ bytes
    · obtain ⟨line, rest, rfl, whole⟩ := List.eq_append_cons_of_mem hmem
      rw [lines_append_newline whole, endLine_reverse]
      refine .line whole (ih rest.length ?_ rest rfl)
      rw [← h, List.length_append, List.length_cons]
      omega
    · by_cases nonempty : bytes = []
      · subst nonempty
        exact .empty
      · rw [lines_of_not_mem nonempty hmem]
        exact .last nonempty hmem

/-- The lines of a stream are read. -/
theorem hasLines_iff : HasLines bytes found ↔ lines bytes = found :=
  ⟨HasLines.lines_eq, fun h => h ▸ hasLines_lines bytes⟩

/-- After a newline the lines start anew; there are as many lines up to it as newlines. -/
theorem lines_append (ends : front.getLast? = some newline) (rest : List UInt8) :
    lines (front ++ rest) = lines front ++ lines rest ∧ (lines front).length = front.count newline := by
  induction h : front.length using Nat.strongRecOn generalizing front with
  | _ k ih =>
    obtain ⟨line, tail, rfl, whole⟩ := List.eq_append_cons_of_mem (List.mem_of_getLast? ends)
    have noNewline : line.count newline = 0 := List.count_eq_zero.2 whole
    rw [List.append_assoc, List.cons_append, lines_append_newline whole, lines_append_newline whole,
      List.count_append, noNewline, List.count_cons_self, List.cons_append, List.length_cons]
    by_cases last : tail = []
    · subst last
      exact ⟨rfl, rfl⟩
    · have ends' : tail.getLast? = some newline := by
        rw [List.getLast?_append, List.getLast?_cons, List.getLast?_eq_some_getLast last] at ends
        rw [List.getLast?_eq_some_getLast last]
        simpa using ends
      have shorter : tail.length < k := by
        rw [← h, List.length_append, List.length_cons]
        omega
      obtain ⟨split, count⟩ := ih tail.length shorter ends' rfl
      exact ⟨by rw [split], by rw [count, Nat.zero_add]⟩

end lines

section fields

variable {line before : List Char} {found : List (List Char)}

theorem fields_append_of_blank (blank : ∀ c ∈ before, isBlank c = true) (rest : List Char) :
    fields (before ++ rest) = fields rest := by
  induction before with
  | nil => rfl
  | cons c before ih =>
    obtain ⟨hc, others⟩ := List.forall_mem_cons.1 blank
    exact (fields_append_blank hc [] (before ++ rest)).trans (ih others)

theorem HasFields.fields_eq (h : HasFields line found) : fields line = found := by
  induction h with
  | @blank line blank => rw [← List.append_nil line, fields_append_of_blank blank]; rfl
  | @field before word after _ blank nonempty whole ends _ ih =>
    rw [fields_append_of_blank blank, ← ih]
    cases after with
    | nil => rw [List.append_nil, fields_of_forall nonempty whole]; rfl
    | cons c rest =>
      have hc : isBlank c = true := ends c rfl
      rw [fields_append_blank hc, fields_of_forall nonempty whole, List.singleton_append]
      exact congrArg (word :: ·) (fields_append_blank hc [] rest).symm

theorem exists_hasFields (line : List Char) : ∃ found, HasFields line found := by
  induction h : line.length using Nat.strongRecOn generalizing line with
  | _ k ih =>
    let before := line.takeWhile isBlank
    let word := (line.dropWhile isBlank).takeWhile (!isBlank ·)
    let after := (line.dropWhile isBlank).dropWhile (!isBlank ·)
    have split : before ++ (word ++ after) = line := by
      simp only [before, word, after, List.takeWhile_append_dropWhile]
    have blank : ∀ c ∈ before, isBlank c = true := fun c => List.mem_takeWhile_imp
    have whole : ∀ c ∈ word, isBlank c = false := fun c hc => by simpa using List.mem_takeWhile_imp hc
    have ends : ∀ c ∈ after.head?, isBlank c = true := fun c (hc : after.head? = some c) => by
      have stop := List.head?_dropWhile_not (!isBlank ·) (line.dropWhile isBlank)
      rw [hc] at stop
      simpa using stop
    by_cases nonempty : word = []
    · -- A word starts at the first character that is not blank, so there is none.
      have none : line.dropWhile isBlank = [] := by
        cases rest : line.dropWhile isBlank with
        | nil => rfl
        | cons c tail =>
          have hc : isBlank c = false := by simpa [rest] using List.head?_dropWhile_not isBlank line
          simp [word, rest, hc] at nonempty
      refine ⟨[], .blank fun c hc => blank c ?_⟩
      rw [← List.takeWhile_append_dropWhile (p := isBlank) (l := line), none, List.append_nil] at hc
      exact hc
    · have shorter : after.length < k := by
        have := List.length_pos_iff.2 nonempty
        rw [← h, ← split, List.length_append, List.length_append]
        omega
      obtain ⟨found, others⟩ := ih after.length shorter after rfl
      refine ⟨word :: found, ?_⟩
      rw [← split]
      exact .field blank nonempty whole ends others

/-- The fields of a line are read. -/
theorem hasFields_iff : HasFields line found ↔ fields line = found := by
  refine ⟨HasFields.fields_eq, ?_⟩
  rintro rfl
  obtain ⟨found, h⟩ := exists_hasFields line
  rwa [h.fields_eq]

end fields

end LogicNet.Text
