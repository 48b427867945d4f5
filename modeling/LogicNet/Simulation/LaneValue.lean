import LogicNet.TruthTable

/-! # Values with lanes

A simulation value holds a Boolean for each of a number of independent lanes, and gates work on all
lanes at once: a Boolean has one lane, a word has 64, a truth table has one per row.
-/

namespace LogicNet

abbrev wordLanes : Nat := 64

abbrev Word := BitVec wordLanes

class LaneValue (V : Type) where
  laneCount : V → Nat
  lane : V → Nat → Except Fault Bool
  setLane : V → Nat → Bool → Except Fault V
  /-- The value with as many lanes, all of them false. -/
  zeroLike : V → V
  lanes : V → List Bool
  /-- The value with as many lanes, which are the given ones. -/
  withLanes : V → List Bool → V
  complement : V → V
  and : V → V → Except Fault V
  or : V → V → Except Fault V
  xor : V → V → Except Fault V

namespace LaneValue

variable {V : Type} [LaneValue V]

def complementIf (v : V) (flip : Bool) : V := if flip then complement v else v

/-- Majority, as the disjunction of the three pairwise conjunctions. -/
def maj (a b c : V) : Except Fault V := do
  or (← or (← and a b) (← and a c)) (← and b c)

/-- The rows that the values take, one for each of `n` lanes. -/
def rows (n : Nat) (values : List V) : List Nat :=
  values.foldr (fun v rows => (lanes v).zipWith (fun b row => b.toNat + 2 * row) rows)
    (List.replicate n 0)

/-- Lane by lane, the row of a table that the values take there. -/
def lookup (t : TruthTable) (like : V) (values : List V) : Except Fault V := do
  return withLanes like (← (rows (laneCount like) values).mapM t.row)

end LaneValue

/-- The one lane of a Boolean has every index. -/
instance : LaneValue Bool where
  laneCount _ := 1
  lane v _ := .ok v
  setLane _ _ value := .ok value
  zeroLike _ := false
  lanes v := [v]
  withLanes _ values := values.headD false
  complement v := !v
  and a b := .ok (a && b)
  or a b := .ok (a || b)
  xor a b := .ok (a ^^ b)

instance : LaneValue Word where
  laneCount _ := wordLanes
  lane v i := if i < wordLanes then .ok (v.getLsbD i) else .error (.indexOutOfRange i wordLanes)
  setLane v i value :=
    if i < wordLanes then
      .ok (if value then v ||| BitVec.twoPow _ i else v &&& ~~~BitVec.twoPow _ i)
    else .error (.indexOutOfRange i wordLanes)
  zeroLike _ := 0#_
  lanes v := (List.range wordLanes).map v.getLsbD
  withLanes _ values := (BitVec.ofBoolListLE values).setWidth _
  complement v := ~~~v
  and a b := .ok (a &&& b)
  or a b := .ok (a ||| b)
  xor a b := .ok (a ^^^ b)

instance : LaneValue TruthTable where
  laneCount := TruthTable.numRows
  lane := TruthTable.row
  setLane := TruthTable.setRow
  zeroLike t := .const t.numVars false
  lanes := TruthTable.toList
  withLanes t := TruthTable.ofList t.numVars
  complement := TruthTable.complement
  and := TruthTable.and
  or := TruthTable.or
  xor := TruthTable.xor

end LogicNet
