import LogicNet.Signal

/-! # Faults

A fault is a promise that a caller, or the library itself, has broken.  It is not an answer of an
operation: refusals that a caller may expect are `NetworkError`s.
-/

namespace LogicNet

inductive Fault where
  | nodeOutOfRange (node : Nat) (size : Nat)
  /-- A position past the end of a list of inputs, outputs, rows or lanes. -/
  | indexOutOfRange (index size : Nat)
  /-- A list of signals without a member to choose from. -/
  | noSignals
  /-- More variables than a truth table, a word or a formula has room for. -/
  | tooManyVariables (numVars limit : Nat)
  /-- Two tables or values of different widths in one operation. -/
  | widthMismatch (left right : Nat)
  | unknownFunction (code : Nat)
  /-- A gate with a number of fanins that its function does not have. -/
  | wrongArity (expected actual : Nat)
  | notAGate (node : Nat)
  | deadFanin (fanin : Signal)
  /-- A substitution by a signal that depends on the node it replaces. -/
  | createsCycle (old : Nat) (new : Signal)
  | staleFanoutCount (node : Nat) (stored counted : Nat)
  /-- A gate that became equal to an existing signal where none can. -/
  | becameRedundant (gate : Nat) (signal : Signal)
  /-- A live gate that the structural hash table does not hold. -/
  | notHashConsed (gate : Nat)
  /-- A reported gain that differs from the change in the edge count. -/
  | gainDisagrees (reported measured : Int)
  /-- An operation that the network's family, or the view of it, does not have. -/
  | notSupported
  | diverges
deriving Repr, DecidableEq

end LogicNet
