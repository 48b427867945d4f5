import LogicNet.Simulation.LaneValue

/-! # Stimuli

A stimulus gives the values of the constants and of the primary inputs of a simulation.
-/

namespace LogicNet

structure Stimulus (V : Type) where
  numInputs : Nat
  constant : Bool → Except Fault V
  input : Nat → Except Fault V

namespace Stimulus

variable {V : Type}

def ofList (values : List V) (constant : Bool → V) : Stimulus V where
  numInputs := values.length
  constant value := .ok (constant value)
  input i :=
    match values[i]? with
    | some v => .ok v
    | none => .error (.indexOutOfRange i values.length)

def ofPattern (pattern : List Bool) : Stimulus Bool := ofList pattern id

/-- 64 assignments, one word per input. -/
def ofWords (words : List Word) : Stimulus Word :=
  ofList words fun value => if value then BitVec.allOnes _ else 0#_

/-- All assignments of `n` inputs, input `j` being variable `j` of a table. -/
def allRows (n : Nat) : Stimulus TruthTable where
  numInputs := n
  constant := TruthTable.checkedConst n
  input := TruthTable.checkedVar n

end Stimulus

end LogicNet
