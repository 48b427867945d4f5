import LogicNet.FunctionCache

/-! # Gates and their canonical forms

Two gates with the same key compute the same function, so a network keeps one gate per key.  The
canonical form of a gate is its key and a polarity, or a signal that it is equal to.
-/

namespace LogicNet

/-- What a gate computes over its fanins. -/
inductive GateFunction where
  | and
  | maj
  /-- A cached table over any number of fanins. -/
  | table (function : FunctionLiteral)
deriving Repr, DecidableEq

structure GateKey where
  function : GateFunction
  fanins : List Signal
deriving Repr, DecidableEq

/-- Canonical form of a function over given fanins. -/
inductive Canonical where
  /-- The gate of the key; with the flag set, its complement. -/
  | gate (key : GateKey) (complemented : Bool)
  /-- No gate is needed: the fanins make the function equal to this signal. -/
  | trivial (s : Signal)
deriving Repr, DecidableEq

namespace Canonical

/-- The signal that is always false, or its complement, where edges carry polarities. -/
def constant (value : Bool) : Signal := ⟨0, value⟩

/-- Conjunction.  Equal or opposite operands and constant operands need no gate. -/
def ofAnd (a b : Signal) : Canonical :=
  let (a, b) := Signal.sort2 a b
  if a.node = b.node then
    .trivial (if a.complemented = b.complemented then a else constant false)
  else if a.node = 0 then
    .trivial (if a.complemented then b else constant false)
  else .gate ⟨.and, [a, b]⟩ false

/-- Majority.  Two operands on one node decide it.  Otherwise at most one operand of the key is
complemented, because majority commutes with complementing all three operands. -/
def ofMaj (a b c : Signal) : Canonical :=
  let (x, y, z) := Signal.sort3 a b c
  if x.node = y.node then .trivial (if x.complemented = y.complemented then x else z)
  else if y.node = z.node then .trivial (if y.complemented = z.complemented then y else x)
  else
    let flip := 2 ≤ [x, y, z].countP (·.complemented)
    .gate ⟨.maj, [x.complementIf flip, y.complementIf flip, z.complementIf flip]⟩ flip

/-- A table.  The fanins of a symmetric table are sorted; others keep the order of the variables. -/
def ofTable (functions : FunctionCache) (f : FunctionLiteral) (fanins : List Signal) :
    Except Fault Canonical := do
  let fanins := if ← functions.isSymmetric f then Signal.sort fanins else fanins
  return .gate ⟨.table f, fanins⟩ false

def ofGate (functions : FunctionCache) : GateFunction → List Signal → Except Fault Canonical
  | .and, [a, b] => .ok (ofAnd a b)
  | .and, fanins => .error (.wrongArity 2 fanins.length)
  | .maj, [a, b, c] => .ok (ofMaj a b c)
  | .maj, fanins => .error (.wrongArity 3 fanins.length)
  | .table f, fanins => ofTable functions f fanins

end Canonical

end LogicNet
