import LogicNet.Proofs.Postorder
import LogicNet.Proofs.Worklist
import LogicNet.Proofs.Workspaces

/-! # Recursive visits

A depth-first visit is said by recursion here, without a stack and without a bound on the levels.  From any
nodes of a network, dead or repeated ones too, the worklist of a postorder ends on its own, and what it lists
is what the recursion lists.
-/

namespace LogicNet

namespace Network

/-- Visits of some nodes from left to right, with the nodes listed before them and after them.  A node that
is listed is passed by.  Any other node is listed after the visits of its fanins, which go in slot order. -/
inductive DepthFirst (net : Network) : List Nat → List Nat → List Nat → Prop
  | done (listed : List Nat) : DepthFirst net [] listed listed
  | pass {n : Nat} {rest before after : List Nat} (known : n ∈ before)
    (others : DepthFirst net rest before after) : DepthFirst net (n :: rest) before after
  | visit {n : Nat} {rest before below after : List Nat} (unknown : n ∉ before)
    (fanins : DepthFirst net ((net.slots n).map (·.node)) before below)
    (others : DepthFirst net rest (below ++ [n]) after) : DepthFirst net (n :: rest) before after

variable {net : Network} {roots before after after' seen : List Nat}

theorem DepthFirst.unique (h : net.DepthFirst roots before after)
    (h' : net.DepthFirst roots before after') : after = after' := by
  induction h generalizing after' with
  | done =>
    cases h'
    rfl
  | pass known _ ih =>
    cases h' with
    | pass _ others => exact ih others
    | visit unknown => exact absurd known unknown
  | visit unknown _ _ ihFanins ihOthers =>
    cases h' with
    | pass known => exact absurd known unknown
    | visit _ fanins others =>
      obtain rfl := ihFanins fanins
      exact ihOthers others

/-- The visits that keep the latest node first are depth-first visits in reverse. -/
theorem WellFormed.depthFirst_visit (wf : net.WellFormed) (roots seen : List Nat) :
    net.DepthFirst roots seen.reverse (roots.foldl net.visit seen).reverse := by
  obtain ⟨rank, ranked, bounded⟩ := wf.acyclic.exists_ranked wf.closed
  -- By induction on a bound of the ranks, and then on the roots: the fanins of a root are below it.
  suffices below : ∀ bound roots seen, (∀ r ∈ roots, rank r < bound) →
      net.DepthFirst roots seen.reverse (roots.foldl net.visit seen).reverse from
    below (net.size + 1) roots seen fun r _ => Nat.lt_succ_of_le (bounded r)
  intro bound
  induction bound with
  | zero =>
    intro roots seen within
    cases roots with
    | nil => exact .done _
    | cons r rest => exact absurd (within r List.mem_cons_self) (Nat.not_lt_zero _)
  | succ bound ih =>
    intro roots
    induction roots with
    | nil => exact fun seen _ => .done _
    | cons r rest ihRest =>
      intro seen within
      obtain ⟨hr, others⟩ := List.forall_mem_cons.1 within
      rw [List.foldl_cons]
      by_cases known : r ∈ seen
      · rw [wf.visit_of_mem known]
        exact .pass (List.mem_reverse.2 known) (ihRest seen others)
      · rw [wf.visit_of_not_mem known]
        have fanins : ∀ m ∈ (net.slots r).map (·.node), rank m < bound := by
          intro m hm
          obtain ⟨s, hs, rfl⟩ := List.mem_map.1 hm
          have hlt := ranked s.node r ⟨s, hs, rfl⟩
          omega
        refine .visit (mt List.mem_reverse.1 known) (ih _ seen fanins) ?_
        rw [← List.reverse_cons]
        exact ihRest _ others

/-- In the order in which nodes are listed, every node comes after its fanins. -/
theorem Ordered.exists_split {n : Nat} (h : net.Ordered seen) (hn : n ∈ seen) :
    ∃ before after, seen.reverse = before ++ n :: after ∧ ∀ m, net.IsFanin m n → m ∈ before := by
  induction h with
  | nil => cases hn
  | @cons k seen fanins _ _ ih =>
    rw [List.reverse_cons]
    rcases List.mem_cons.1 hn with rfl | hn
    · exact ⟨seen.reverse, [], rfl, fun m hm => List.mem_reverse.2 (fanins m hm)⟩
    · obtain ⟨before, after, split, earlier⟩ := ih hn
      exact ⟨before, after ++ [k], by rw [split, List.append_assoc, List.cons_append], earlier⟩

theorem WellFormed.postorder_ends (wf : net.WellFormed) (inRange : ∀ r ∈ roots, r < net.size) :
    ∃ visited k, Worklist.Ends net.postorderStep k .empty roots visited ∧
      visited.nodes = roots.foldl net.visit [] := by
  obtain ⟨visited, drained, listed⟩ := bind_eq_ok.1 (wf.postorder_eq_ok inRange)
  obtain ⟨k, -, ends⟩ := Worklist.drain_eq_ok_iff.1 drained
  exact ⟨visited, k, ends, List.reverse_injective (Except.ok.inj listed)⟩

end Network

open Network Workspace

variable {w : Workspace} {v : View} {net : Network} {roots : List Nat}

/-- The worklist of a postorder ends without any bound on its steps, and it leaves the one list that
recursive depth-first visits of the roots make: the transitive fanin of the roots, every node once and after
its fanins. -/
theorem Workspace.Reachable.postorder_exact (hw : w.Reachable)
    (hnet : w.networks[v.networkId]? = some net) (inRange : ∀ r ∈ roots, r < net.size) :
    ∃ order, net.postorder roots = .ok order ∧
      (∃ visited k, Worklist.Ends net.postorderStep k .empty roots visited ∧
        visited.nodes.reverse = order) ∧
      (∀ listed, net.DepthFirst roots [] listed ↔ listed = order) ∧
      order.Nodup ∧ (∀ n, n ∈ order ↔ ∃ r ∈ roots, net.InCone n r) ∧
      ∀ n ∈ order, ∃ before after, order = before ++ n :: after ∧
        ∀ m, net.IsFanin m n → m ∈ before := by
  have wf := (hw.sound _ net hnet).hashConsed.toWellFormed
  have visiting := wf.visiting_foldl roots []
  have ordered := visiting.ordered .nil
  have recursive := wf.depthFirst_visit roots []
  obtain ⟨visited, k, ends, nodes⟩ := wf.postorder_ends inRange
  refine ⟨_, wf.postorder_eq_ok inRange, ⟨visited, k, ends, by rw [nodes]⟩, fun listed => ⟨?_, ?_⟩,
    List.nodup_reverse.2 ordered.nodup, fun n => ?_, fun n hn => ?_⟩
  · exact fun h => h.unique recursive
  · rintro rfl
    exact recursive
  · rw [List.mem_reverse]
    constructor
    · exact fun hn => (visiting.sound n hn).resolve_left List.not_mem_nil
    · rintro ⟨r, hr, cone⟩
      exact ordered.mem_of_inCone (visiting.visited r hr) cone
  · exact ordered.exists_split (List.mem_reverse.1 hn)

/-- In the sample the conjunction of two inputs is made after the output gate and put in the place of the
majority below it.  The roots are the output gate, the majority, which is dead, and the output gate again. -/
theorem sample_visited : ∃ (w : Workspace) (net : Network), w.Reachable ∧ w.networks[0]? = some net ∧
    net.isLive 4 = false ∧ (∀ r ∈ [5, 4, 5], r < net.size) ∧
    net.postorder [5, 4, 5] = .ok [0, 1, 2, 3, 6, 5, 4] ∧
    net.DepthFirst [5, 4, 5] [] [0, 1, 2, 3, 6, 5, 4] := by
  let v := View.network 0
  have done : (sample.run? [.call v (.and (.ofNode 2) (.ofNode 3)), .call v (.substitute 4 (.ofNode 6))]).any
      (fun w => w.networks[0]?.any fun net => decide (net.size = 7 ∧ net.isLive 4 = false ∧
        net.postorder [5, 4, 5] = .ok [0, 1, 2, 3, 6, 5, 4])) = true := by
    decide +kernel
  obtain ⟨w, run, ends⟩ := (Option.any_eq_true _ _).1 done
  obtain ⟨net, hnet, ends⟩ := (Option.any_eq_true _ _).1 ends
  obtain ⟨size, dead, listed⟩ := of_decide_eq_true ends
  have hw : w.Reachable := .of_run? reachable_sample run
  have inRange : ∀ r ∈ [5, 4, 5], r < net.size := by
    rw [size]
    decide
  obtain ⟨order, ok, -, recursive, -⟩ := hw.postorder_exact (v := v) hnet inRange
  cases ok.symm.trans listed
  exact ⟨w, net, hw, hnet, dead, inRange, ok, (recursive _).2 rfl⟩

end LogicNet
