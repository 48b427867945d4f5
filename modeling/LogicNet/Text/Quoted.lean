import LogicNet.Text.Invisible

/-! # Quoted text

A quoted text stands between double quotes.  Quotes and backslashes inside it follow a backslash,
and invisible characters are written by name or by code point.
-/

namespace LogicNet.Text

/-- How a character is written between the quotes. -/
def escape (c : Char) : List Char :=
  if c = '"' ∨ c = '\\' then ['\\', c]
  else if c = '\x00' then ['\\', '0']
  else if c = '\t' then ['\\', 't']
  else if c = '\n' then ['\\', 'n']
  else if c = '\r' then ['\\', 'r']
  else if isInvisible c then ['\\', 'u', '\x7b'] ++ Nat.toDigits 16 c.toNat ++ ['\x7d']
  else [c]

def quoted (s : List Char) : String := String.ofList ('"' :: s.flatMap escape ++ ['"'])

end LogicNet.Text
