import LogicNet.Error
import LogicNet.Text.Blank
import LogicNet.Text.Lines

/-! # Reading cube lists

A cube list starts with four header lines.  Each row after them is blank or holds a cube and the
output value `0`; a row that starts with `.end` ends the list.  Lines are numbered from 1, and the
first line that breaks the format is reported.
-/

namespace LogicNet.Cube

def headerLines : Nat := 4

def endMarker : List Char := ['.', 'e', 'n', 'd']

/-- The characters of a line, if it is valid text. -/
def decodeLine (line : List UInt8) : Except NetworkError (List Char) :=
  match String.fromUTF8? ⟨line.toArray⟩ with
  | some s => .ok s.toList
  | none => .error (.input .invalidText)

/-- The cube of a row; a blank row has none. -/
def ofRow? (numInputs : Nat) (row : List Char) : Except CubeError (Option Cube) :=
  match Text.fields row with
  | [] => .ok none
  | [_] => .error .missingOutput
  | cube :: output :: rest =>
    match rest with
    | extra :: _ => .error (.unexpectedField extra)
    | [] =>
      if cube.length ≠ numInputs then .error (.wrongWidth cube numInputs)
      else if output ≠ ['0'] then .error (.outputNotOffset output)
      else .ok (some (ofChars cube))

/-- The cubes of the lines from the given number on. -/
def ofLines (numInputs : Nat) : Nat → List (List UInt8) → Except NetworkError (List Cube)
  | _, [] => .ok []
  | number, line :: rest => do
    let row ← decodeLine line
    if number ≤ headerLines then ofLines numInputs (number + 1) rest
    else if endMarker.isPrefixOf row then .ok []
    else
      match ofRow? numInputs row with
      | .error cause => .error (.parse number cause)
      | .ok none => ofLines numInputs (number + 1) rest
      | .ok (some cube) => return cube :: (← ofLines numInputs (number + 1) rest)

/-- The cubes of a cube list over the given number of inputs; there is at least one. -/
def readList (numInputs : Nat) (bytes : List UInt8) : Except NetworkError (List Cube) := do
  match ← ofLines numInputs 1 (Text.lines bytes) with
  | [] => .error .emptyCover
  | cubes => .ok cubes

theorem readList_ne_nil {numInputs : Nat} {bytes : List UInt8} {cubes : List Cube}
    (h : readList numInputs bytes = .ok cubes) : cubes ≠ [] := by
  rintro rfl
  unfold readList at h
  cases hl : ofLines numInputs 1 (Text.lines bytes) with
  | error e => simp [hl, bind, Except.bind] at h
  | ok l => cases l <;> simp [hl, bind, Except.bind] at h

end LogicNet.Cube
