import LogicNet.Fault
import LogicNet.Cube.Basic

/-! # Refusals and failures

A `NetworkError` is a refusal that a caller may expect.  A `Failure` is either a refusal or a fault.
-/

namespace LogicNet

/-- Why bytes could not be read as text. -/
inductive InputFailure where
  | invalidText
  | noSuchFile
deriving Repr, DecidableEq

def InputFailure.message : InputFailure → String
  | invalidText => "stream did not contain valid UTF-8"
  | noSuchFile => "No such file or directory (os error 2)"

inductive NetworkError where
  | nodeOutOfRange (node size : Nat)
  | arityMismatch (expected actual : Nat)
  | notAGate (node : Nat)
  | deadNode (node : Nat)
  | selfSubstitution (node : Nat)
  | inputCountMismatch (expected actual : Nat)
  | outputCountMismatch (expected actual : Nat)
  | valueWidthMismatch (expected actual : Nat)
  | emptyCover
  | parse (line : Nat) (cause : CubeError)
  | input (cause : InputFailure)
deriving Repr, DecidableEq

namespace NetworkError

def nodeText (n : Nat) : String := (Signal.ofNode n).text

def mismatchText (expected actual : Nat) : String :=
  "expected " ++ Nat.repr expected ++ " got " ++ Nat.repr actual

def message : NetworkError → String
  | nodeOutOfRange node size =>
    "node " ++ nodeText node ++ " out of range for network of size " ++ Nat.repr size
  | arityMismatch expected actual => "arity mismatch: " ++ mismatchText expected actual
  | notAGate node => "node " ++ nodeText node ++ " is not a gate"
  | deadNode node => "node " ++ nodeText node ++ " is dead"
  | selfSubstitution node => "cannot substitute node " ++ nodeText node ++ " with itself"
  | inputCountMismatch expected actual =>
    "primary input count mismatch: " ++ mismatchText expected actual
  | outputCountMismatch expected actual =>
    "primary output count mismatch: " ++ mismatchText expected actual
  | valueWidthMismatch expected actual =>
    "simulation value width mismatch: expected " ++ Nat.repr expected ++ " bits got "
      ++ Nat.repr actual
  | emptyCover => "cube list contains no product term"
  | parse line cause => "parse error on line " ++ Nat.repr line ++ ": " ++ cause.message
  | input cause => "I/O error: " ++ cause.message

end NetworkError

/-- Why an operation gave no answer. -/
inductive Failure where
  | refused (error : NetworkError)
  | fault (fault : Fault)
deriving Repr, DecidableEq

instance : MonadLift (Except NetworkError) (Except Failure) := ⟨Except.mapError .refused⟩

instance : MonadLift (Except Fault) (Except Failure) := ⟨Except.mapError .fault⟩

instance {σ : Type} : MonadLift (Except Failure) (EStateM Failure σ) :=
  ⟨fun
    | .ok a => pure a
    | .error e => throw e⟩

end LogicNet
