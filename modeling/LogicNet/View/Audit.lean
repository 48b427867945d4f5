import LogicNet.View.Basic

/-! # Auditing networks through views -/

namespace LogicNet.View

/-- Faults unless the fanout count of every live node is that of a recount. -/
def checkFanoutCounts (v : View) : Session Unit := do
  let net ← v.current
  let counts := net.referenceCounts
  net.liveNodes.forM fun n => do
    let nd ← net.node n
    let counted := counts.getD n 0
    if nd.fanout ≠ counted then throw (.fault (.staleFanoutCount n nd.fanout counted))

/-- Faults unless making a live gate again over its own fanins finds that very gate. -/
def checkHashConsed (v : View) : Session Unit := do
  let net ← v.current
  net.liveGates.forM fun g => do
    let fanins ← net.fanins g
    let s ← try v.cloneGate v g fanins catch
      | .refused _ => throw (.fault (.notHashConsed g))
      | failure => throw failure
    if s.node ≠ g then throw (.fault (.becameRedundant g s))
    if (← v.current).size ≠ net.size then throw (.fault (.notHashConsed g))

end LogicNet.View
