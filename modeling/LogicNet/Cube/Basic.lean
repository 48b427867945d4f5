import LogicNet.Text.Quoted

/-! # Cubes

A cube is a conjunction of literals over the primary inputs.  It is written with one character per
input: `0` for the negative literal, `1` for the positive one, anything else for an absent input.
-/

namespace LogicNet

/-- Per input the polarity of its literal, or `none` where the input is absent. -/
abbrev Cube := List (Option Bool)

namespace Cube

def literalOfChar : Char → Option Bool
  | '0' => some false
  | '1' => some true
  | _ => none

def charOfLiteral : Option Bool → Char
  | some false => '0'
  | some true => '1'
  | none => '-'

def ofChars (chars : List Char) : Cube := chars.map literalOfChar

def text (c : Cube) : String := String.ofList (c.map charOfLiteral)

end Cube

inductive CubeError where
  | missingOutput
  | unexpectedField (field : List Char)
  | wrongWidth (cube : List Char) (expected : Nat)
  /-- The output of the row is not `0`. -/
  | outputNotOffset (output : List Char)
deriving Repr, DecidableEq

namespace CubeError

def message : CubeError → String
  | missingOutput => "missing output bit"
  | unexpectedField field => "unexpected field " ++ Text.quoted field
  | wrongWidth cube expected =>
    "cube " ++ Text.quoted cube ++ " has " ++ Nat.repr cube.length ++ " positions; expected "
      ++ Nat.repr expected
  | outputNotOffset output =>
    "output bit " ++ Text.quoted output ++ "; only offset rows are supported"

end CubeError

end LogicNet
