/-! # Lines of a byte stream

A line ends at a newline, which does not belong to it, nor does a carriage return directly before
the newline.  Bytes after the last newline are a line of their own.
-/

namespace LogicNet.Text

def newline : UInt8 := 10

def carriageReturn : UInt8 := 13

/-- A finished line, given its bytes in reverse. -/
def endLine : List UInt8 → List UInt8
  | [] => []
  | b :: current => if b = carriageReturn then current.reverse else (b :: current).reverse

/-- The lines of a stream, `current` being the reversed bytes of the line under way. -/
def linesFrom (current : List UInt8) : List UInt8 → List (List UInt8)
  | [] => if current.isEmpty then [] else [current.reverse]
  | b :: rest =>
    if b = newline then endLine current :: linesFrom [] rest else linesFrom (b :: current) rest

def lines (bytes : List UInt8) : List (List UInt8) := linesFrom [] bytes

theorem linesFrom_of_not_mem {bytes : List UInt8} (h : newline ∉ bytes) (current : List UInt8) :
    linesFrom current bytes = linesFrom (bytes.reverse ++ current) [] := by
  induction bytes generalizing current with
  | nil => rfl
  | cons b rest ih =>
    rw [List.mem_cons, not_or] at h
    simp [linesFrom, Ne.symm h.1, ih h.2]

/-- A line without a newline, followed by one, is read back less its carriage return. -/
theorem lines_append_newline {line : List UInt8} (h : newline ∉ line) (rest : List UInt8) :
    lines (line ++ newline :: rest) = endLine line.reverse :: lines rest := by
  suffices ∀ current, linesFrom current (line ++ newline :: rest)
      = endLine (line.reverse ++ current) :: lines rest by simpa [lines] using this []
  induction line with
  | nil => simp [linesFrom, lines]
  | cons b line ih =>
    intro current
    rw [List.mem_cons, not_or] at h
    simp [linesFrom, Ne.symm h.1, ih h.2]

end LogicNet.Text
