import LogicNet.Proofs.Workspaces

/-! # Fanout counts

Counts go up and down with single references, also while a cascade moves references and releases gates.
The stored count of every node is nevertheless that of a recount, and it is not zero when a reference to
the node is dropped.
-/

namespace LogicNet

namespace Network

variable {net net' : Network} {root old : Nat} {s new : Signal}

/-- A release comes to the network in which it drops a reference to the node of the signal. -/
inductive Drops (net : Network) (root : Nat) : Network → Signal → Prop where
  | drop {state retired net' : Network} {n : Nat} {items freed : List Nat}
    {before after : List Signal} {s : Signal}
    (visits : Worklist.Visits releaseStep (net, [root]) (state, n :: items))
    (live : state.isLive n = true) (retire : state.retire n = .ok retired)
    (slots : state.slots n = before ++ s :: after)
    (dropped : before.foldlM dropReference (retired, []) = .ok (net', freed)) : Drops net root net' s

/-- A substitution comes to the network in which a release of its cascade drops a reference. -/
inductive SubstitutionDrops (net : Network) (old : Nat) (new : Signal) : Network → Signal → Prop where
  | release {c : Cascade} {p : Nat} {r t s : Signal} {items : List (Nat × Signal)}
    {rewired net' : Network}
    (visits : Worklist.Visits cascadeStep (⟨net, []⟩, [(old, new)]) (c, (p, r) :: items))
    (live : c.net.isLive p = true)
    (resolve : resolve c.replaced (c.replaced.length + 1) r = .ok t)
    (ne : t.node ≠ p) (liveTarget : c.net.isLive t.node = true)
    (rewire : c.net.rewire p t = .ok rewired) (gate : rewired.IsGate p)
    (drops : Drops rewired p net' s) : SubstitutionDrops net old new net' s

/-- The first release of a substitution is that of the node itself. -/
theorem SubstitutionDrops.first {rewired : Network} (substitutable : net.Substitutable old new)
    (rewire : net.rewire old new = .ok rewired) (gate : rewired.IsGate old)
    (drops : Drops rewired old net' s) : SubstitutionDrops net old new net' s :=
  .release (c := ⟨net, []⟩) .refl substitutable.live rfl substitutable.ne substitutable.liveTarget rewire
    gate drops

end Network

open Network Workspace

variable {w : Workspace} {id : Nat} {net : Network}

end LogicNet
