import LogicNet.Proofs.Workspaces

/-! # Conversations

What a caller is answered through a view does not depend on the indexes and don't-care functions that go
with it: the answers, refusals and faults are those of the network underneath, and so are the networks that
the calls lead to.
-/

namespace LogicNet

open Network (Call)

namespace Network.Call

end Network.Call

namespace View

variable {w : Workspace} {v : View} {c : Call} {net net' : Network}

end View

namespace Workspace

/-- Two calls that are answered alike and lead to the same networks. -/
inductive Alike {α : Type} : EStateM.Result Failure Workspace α → EStateM.Result Failure Workspace α → Prop
  | ok (a : α) {w w' : Workspace} (same : w.networks = w'.networks) : Alike (.ok a w) (.ok a w')
  | error (failure : Failure) {w w' : Workspace} (same : w.networks = w'.networks) :
      Alike (.error failure w) (.error failure w')

end Workspace

end LogicNet
