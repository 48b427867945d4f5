import LogicNet.FanoutIndex
import LogicNet.Network.Inversion
import LogicNet.Network.Summary

/-! # Reducing complemented edges

Inverting a majority gate complements every edge at the gate and keeps all other functions, so it
moves complemented edges from one side of the gate to the other.  The pass inverts gates wherever
that leaves fewer complemented edges, alone or together with some of their parents.
-/

namespace LogicNet

structure InverterOptions where
  /-- Whether to try inverting a gate together with the parents that gain by it. -/
  twoLevel : Bool := true
  /-- Largest number of rounds; without it the pass runs until nothing changes. -/
  maxRounds : Option Nat := none
deriving Repr, DecidableEq

structure InverterStats where
  totalGain : Int := 0
  /-- Inversions that were kept. -/
  numInvertedGates : Nat := 0
  oneLevelMoves : Nat := 0
  twoLevelMoves : Nat := 0
  rounds : Nat := 0
deriving Repr, DecidableEq

/-- Complemented edges removed by complementing one edge. -/
def flipGain (s : Signal) : Int := if s.complemented then 1 else -1

structure InverterPass where
  net : Network
  /-- Per node, the gain at the outputs that it drives. -/
  outputGain : Array Int
  stats : InverterStats

namespace InverterPass

/-- A step of the pass.  Inversions made before a failure stay. -/
abbrev Step := EStateM Failure InverterPass

def start (net : Network) : InverterPass where
  net
  outputGain := net.outputs.foldl (fun gains s => gains.modify s.node (· + flipGain s))
    (Array.replicate net.size 0)
  stats := {}

/-- Complemented edges that inverting a gate would remove. -/
def gain (p : InverterPass) (fanout : FanoutIndex) (n : Nat) : Except Fault Int := do
  let atOutputs ←
    match p.outputGain[n]? with
    | some g => pure g
    | none => throw (.nodeOutOfRange n p.outputGain.size)
  let fanins ← p.net.fanins n
  let atFanins := ((fanins.filter (!p.net.isConstant ·.node)).map flipGain).sum
  let atParents ← (fanout.fanout n).mapM fun parent =>
    return (((← p.net.fanins parent).filter (·.node == n)).map flipGain).sum
  return atOutputs + atFanins + atParents.sum

def flip (n : Nat) : Step Unit := do
  let p ← get
  match Network.invertGate n p.net with
  | .error e net => do
    set { p with net }
    throw e
  | .ok _ net => set { p with net, outputGain := p.outputGain.modify n (- ·) }

def recordMove (gain : Int) (inverted : Nat) (twoLevel : Bool) : Step Unit :=
  modify fun p => { p with stats :=
    { p.stats with
      totalGain := p.stats.totalGain + gain
      numInvertedGates := p.stats.numInvertedGates + inverted
      oneLevelMoves := p.stats.oneLevelMoves + (!twoLevel).toNat
      twoLevelMoves := p.stats.twoLevelMoves + twoLevel.toNat } }

def oneLevelMove (fanout : FanoutIndex) (n : Nat) : Step Bool := do
  let p ← get
  if (← p.net.node n).dead then return false
  let gain ← p.gain fanout n
  if 0 < gain then
    flip n
    recordMove gain 1 false
    return true
  return false

/-- Inverts a parent if that is a gain; adds up the gains and the inverted parents, latest first. -/
def flipParent (fanout : FanoutIndex) : Int × List Nat → Nat → Step (Int × List Nat)
  | (total, flipped), parent => do
    let gain ← (← get).gain fanout parent
    if 0 < gain then
      flip parent
      return (total + gain, parent :: flipped)
    else return (total, flipped)

/-- Inverts a gate and then every parent that gains by it, and undoes all of it unless some parent
was inverted and the sum is a gain. -/
def twoLevelMove (fanout : FanoutIndex) (n : Nat) : Step Bool := do
  let p ← get
  if (← p.net.node n).dead then return false
  let own ← p.gain fanout n
  flip n
  let (total, flipped) ← (fanout.fanout n).foldlM (flipParent fanout) (own, [])
  if 0 < total && !flipped.isEmpty then
    recordMove total (1 + flipped.length) true
    return true
  else
    flipped.forM flip
    flip n
    return false

/-- Makes a move at every gate; the result says whether any was kept. -/
def sweep (move : Nat → Step Bool) (gates : List Nat) : Step Bool :=
  gates.foldlM (fun changed n => return (← move n) || changed) false

/-- One-level moves forward and backward, then two-level moves. -/
def round (fanout : FanoutIndex) (twoLevel : Bool) (gates : List Nat) : Step Bool := do
  modify fun p => { p with stats := { p.stats with rounds := p.stats.rounds + 1 } }
  let forward ← sweep (oneLevelMove fanout) gates
  let backward ← sweep (oneLevelMove fanout) gates.reverse
  let both ← if twoLevel then sweep (twoLevelMove fanout) gates else pure false
  return forward || backward || both

/-- Rounds until one changes nothing or the limit is reached; `fuel` bounds their number. -/
def runRounds (fanout : FanoutIndex) (options : InverterOptions) (gates : List Nat) :
    Nat → Step Unit
  | 0 => throw (.fault .diverges)
  | fuel + 1 => do
    if options.maxRounds.any (· ≤ (← get).stats.rounds) then return
    if ← round fanout options.twoLevel gates then runRounds fanout options gates fuel

/-- Each gate is inverted or not, so a run of more rounds than there are such states repeats one and
does not end. -/
def roundBound (options : InverterOptions) (gates : List Nat) : Nat :=
  match options.maxRounds with
  | some k => k + 1
  | none => 2 ^ gates.length + 1

end InverterPass

namespace Network

/-- Inverts gates until that removes no complemented edge any more, or the rounds are used up. -/
def optimizeInverters (fanout : FanoutIndex) (options : InverterOptions) : Edit InverterStats := do
  requireFamily .mig
  let net ← get
  let gates := net.liveGates
  let bound := InverterPass.roundBound options gates
  match (InverterPass.runRounds fanout options gates bound).run (.start net) with
  | .error e p => do
    set p.net
    throw e
  | .ok _ p =>
    set p.net
    let removed : Int := net.countComplementedEdges - p.net.countComplementedEdges
    if removed ≠ p.stats.totalGain then throw (.fault (.gainDisagrees p.stats.totalGain removed))
    return p.stats

end Network

end LogicNet
