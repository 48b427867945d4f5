import LogicNet.Network.Cover

/-! # Recipes

A recipe describes a small network without naming a family: a number of inputs, gates over the
signals made so far, and outputs.  Every choice of a signal is taken modulo the number of signals.
-/

namespace LogicNet

inductive RecipeGate where
  | and
  | or
  | xor
  | maj
deriving Repr, DecidableEq

/-- Chooses a signal made earlier, and its polarity. -/
structure Choice where
  index : Nat
  complemented : Bool
deriving Repr, DecidableEq

/-- A gate over two choices; a majority uses the third one too. -/
structure RecipeStep where
  gate : RecipeGate
  first : Choice
  second : Choice
  third : Choice
deriving Repr, DecidableEq

structure Recipe where
  numInputs : Nat
  steps : List RecipeStep
  outputs : List Choice
deriving Repr, DecidableEq

namespace Recipe

def pick (signals : List Signal) (choice : Choice) : Edit Signal :=
  match signals[choice.index % signals.length]? with
  | none => throw (.fault .noSignals)
  | some s => if choice.complemented then Network.createNot s else pure s

/-- Makes the gate of a step and appends its signal. -/
def runStep (signals : List Signal) (step : RecipeStep) : Edit (List Signal) := do
  let a ← pick signals step.first
  let b ← pick signals step.second
  let s ←
    match step.gate with
    | .and => Network.createAnd a b
    | .or => Network.createOr a b
    | .xor => Network.createXor a b
    | .maj => do Network.createMaj a b (← pick signals step.third)
  return signals ++ [s]

def build (r : Recipe) : Edit Unit := do
  let inputs ← Network.createInputs r.numInputs
  let signals ← r.steps.foldlM runStep inputs
  r.outputs.forM fun choice => do
    let _ ← Network.createOutput (← pick signals choice)

/-- Whether building the recipe makes no signal at all. -/
def isEmpty (r : Recipe) : Bool := r.numInputs = 0 && r.steps.isEmpty && r.outputs.isEmpty

end Recipe

end LogicNet
