import LogicNet.Network.Order
import LogicNet.Proofs.Dependence
import Mathlib.Data.Set.Card

/-! # Depth-first postorder

The postorder of a network without cycles is the one of a recursive depth-first visit.  It lists the
transitive fanin of the roots, every node once and after its fanins.
-/

namespace LogicNet.Network

open Worklist

variable {net : Network} {m n : Nat} {seen : List Nat}

/-- Visits a node after its fanins.  The nodes seen are listed with the latest one first, and `fuel`
bounds the number of levels. -/
def visitWithin (net : Network) : Nat → List Nat → Nat → List Nat
  | 0, seen, _ => seen
  | fuel + 1, seen, n =>
    if n ∈ seen then seen else n :: ((net.slots n).map (·.node)).foldl (net.visitWithin fuel) seen

def visit (net : Network) : List Nat → Nat → List Nat := net.visitWithin (net.size + 1)

/-- Every node is listed once, and with its fanins behind it. -/
inductive Ordered (net : Network) : List Nat → Prop
  | nil : Ordered net []
  | cons {n : Nat} {seen : List Nat} (fanins : ∀ m, net.IsFanin m n → m ∈ seen) (fresh : n ∉ seen)
    (ordered : Ordered net seen) : Ordered net (n :: seen)

/-- Whatever is computed along the order is entered node by node. -/
theorem getD_setIfInBounds {α : Type} {values : Array α} (h : n < values.size) (a b : α) (m : Nat) :
    (values.setIfInBounds n a).getD m b = if m = n then a else values.getD m b := by
  rw [Array.getD_eq_getD_getElem?, Array.getD_eq_getD_getElem?, Array.getElem?_setIfInBounds]
  by_cases hmn : m = n
  · simp [hmn, h]
  · simp [hmn, Ne.symm hmn]

theorem Ranked.visitWithin_eq {rank : Nat → Nat} (ranked : net.Ranked rank) :
    ∀ {fuel fuel' n : Nat} (seen : List Nat), rank n < fuel → rank n < fuel' →
      net.visitWithin fuel seen n = net.visitWithin fuel' seen n := by
  intro fuel
  induction fuel with
  | zero =>
    intro fuel' n seen h
    omega
  | succ fuel ih =>
    intro fuel' n seen h h'
    obtain ⟨k, rfl⟩ : ∃ k, fuel' = k + 1 := Nat.exists_eq_succ_of_ne_zero (by omega)
    unfold visitWithin
    split
    · rfl
    · refine congrArg (n :: ·) (List.foldl_ext _ _ _ fun seen m hm => ?_)
      obtain ⟨s, hs, rfl⟩ := List.mem_map.1 hm
      have hlt := ranked s.node n ⟨s, hs, rfl⟩
      exact ih seen (by omega) (by omega)

namespace WellFormed

/-- The equation of a depth-first visit. -/
theorem visit_eq (wf : net.WellFormed) (seen : List Nat) (n : Nat) : net.visit seen n
    = if n ∈ seen then seen else n :: ((net.slots n).map (·.node)).foldl net.visit seen := by
  obtain ⟨rank, ranked, bounded⟩ := wf.acyclic.exists_ranked wf.closed
  unfold visit
  rw [visitWithin]
  split
  · rfl
  · refine congrArg (n :: ·) (List.foldl_ext _ _ _ fun seen m hm => ?_)
    obtain ⟨s, hs, rfl⟩ := List.mem_map.1 hm
    have hlt := ranked s.node n ⟨s, hs, rfl⟩
    have hle := bounded n
    exact ranked.visitWithin_eq seen (by omega) (by omega)

theorem visit_of_mem (wf : net.WellFormed) (h : n ∈ seen) : net.visit seen n = seen := by
  rw [wf.visit_eq, if_pos h]

theorem visit_of_not_mem (wf : net.WellFormed) (h : n ∉ seen) :
    net.visit seen n = n :: ((net.slots n).map (·.node)).foldl net.visit seen := by
  rw [wf.visit_eq, if_neg h]

end WellFormed

/-- What the visits of some nodes add to the nodes seen. -/
structure Visiting (net : Network) (roots seen seen' : List Nat) : Prop where
  kept : ∀ m ∈ seen, m ∈ seen'
  visited : ∀ r ∈ roots, r ∈ seen'
  sound : ∀ m ∈ seen', m ∈ seen ∨ ∃ r ∈ roots, net.InCone m r
  ordered : net.Ordered seen → net.Ordered seen'

namespace Visiting

theorem refl (net : Network) (seen : List Nat) : Visiting net [] seen seen :=
  ⟨fun _ => id, fun _ h => absurd h List.not_mem_nil, fun _ => .inl, id⟩

theorem cons {roots seen' seen'' : List Nat} (h : Visiting net [n] seen seen')
    (h' : Visiting net roots seen' seen'') : Visiting net (n :: roots) seen seen'' where
  kept m hm := h'.kept m (h.kept m hm)
  visited r hr := by
    rcases List.mem_cons.1 hr with rfl | hr
    · exact h'.kept r (h.visited r (List.mem_singleton_self r))
    · exact h'.visited r hr
  sound m hm := by
    rcases h'.sound m hm with hm | ⟨r, hr, cone⟩
    · rcases h.sound m hm with hm | ⟨r, hr, cone⟩
      · exact .inl hm
      · exact .inr ⟨r, List.mem_singleton.1 hr ▸ List.mem_cons_self, cone⟩
    · exact .inr ⟨r, List.mem_cons_of_mem _ hr, cone⟩
  ordered := h'.ordered ∘ h.ordered

theorem foldl {roots : List Nat} (each : ∀ r ∈ roots, ∀ seen, Visiting net [r] seen (net.visit seen r)) :
    ∀ seen, Visiting net roots seen (roots.foldl net.visit seen) := by
  induction roots with
  | nil => exact refl net
  | cons r roots ih =>
    intro seen
    obtain ⟨first, others⟩ := List.forall_mem_cons.1 each
    exact (first seen).cons (ih others (net.visit seen r))

end Visiting

theorem WellFormed.visiting (wf : net.WellFormed) (n : Nat) :
    ∀ seen, Visiting net [n] seen (net.visit seen n) := by
  obtain ⟨rank, ranked, -⟩ := wf.acyclic.exists_ranked wf.closed
  induction hrank : rank n using Nat.strong_induction_on generalizing n with
  | _ k ih =>
    intro seen
    by_cases hn : n ∈ seen
    · rw [wf.visit_of_mem hn]
      exact ⟨fun _ => id, fun r hr => List.mem_singleton.1 hr ▸ hn, fun _ => .inl, id⟩
    · rw [wf.visit_of_not_mem hn]
      have below : ∀ r ∈ (net.slots n).map (·.node), net.IsFanin r n := by
        intro r hr
        obtain ⟨s, hs, rfl⟩ := List.mem_map.1 hr
        exact ⟨s, hs, rfl⟩
      have fanins := Visiting.foldl (fun r hr => ih (rank r) (hrank ▸ ranked r n (below r hr)) r rfl) seen
      refine ⟨fun m hm => List.mem_cons_of_mem _ (fanins.kept m hm), ?_, ?_, fun ordered => ?_⟩
      · intro r hr
        exact List.mem_singleton.1 hr ▸ List.mem_cons_self
      · intro m hm
        rcases List.mem_cons.1 hm with rfl | hm
        · exact .inr ⟨m, List.mem_singleton_self m, .refl⟩
        · refine (fanins.sound m hm).imp_right ?_
          rintro ⟨r, hr, cone⟩
          exact ⟨n, List.mem_singleton_self n, cone.tail (below r hr)⟩
      · refine .cons ?_ (fun hmem => ?_) (fanins.ordered ordered)
        · rintro m ⟨s, hs, rfl⟩
          exact fanins.visited s.node (List.mem_map_of_mem hs)
        · obtain ⟨r, hr, cone⟩ := (fanins.sound n hmem).resolve_left hn
          exact wf.acyclic.not_inCone (below r hr) cone

theorem WellFormed.visiting_foldl (wf : net.WellFormed) (roots seen : List Nat) :
    Visiting net roots seen (roots.foldl net.visit seen) :=
  Visiting.foldl (fun r _ => wf.visiting r) seen

section step

variable {v : Visited}

theorem postorderStep_of_mem (hn : n < net.size) (h : n ∈ v) :
    net.postorderStep v n = .ok (v, []) := by
  simp only [postorderStep, fanins_of_lt hn, ok_bind, if_pos h]
  rfl

theorem postorderStep_of_fanins_mem (hn : n < net.size) (h : n ∉ v)
    (fanins : ∀ s ∈ net.slots n, s.node ∈ v) : net.postorderStep v n = .ok (v.push n, []) := by
  have none : (net.slots n).find? (·.node ∉ v) = none := by
    simpa using fanins
  simp only [postorderStep, fanins_of_lt hn, ok_bind, if_neg h, none]
  rfl

theorem postorderStep_of_fanin_not_mem (hn : n < net.size) (h : n ∉ v) {done todo : List Signal}
    {s : Signal} (slots : net.slots n = done ++ s :: todo) (hdone : ∀ t ∈ done, t.node ∈ v)
    (hs : s.node ∉ v) : net.postorderStep v n = .ok (v, [s.node, n]) := by
  have found : (net.slots n).find? (·.node ∉ v) = some s := by
    rw [slots, List.find?_append, List.find?_eq_none.2 (by simpa using hdone), List.find?_cons_of_pos]
    · rfl
    · simpa using hs
  simp only [postorderStep, fanins_of_lt hn, ok_bind, if_neg h, found]
  rfl

end step

/-- Some steps of work on a node at the top of the stack, and the nodes visited after them.  A node that
is put on the stack for its sake costs two steps and is visited in the end. -/
structure Worked (net : Network) (n : Nat) (v v' : Visited) (steps : Nat) : Prop where
  run : ∀ fuel rest, drain net.postorderStep (steps + fuel) v (n :: rest)
    = drain net.postorderStep fuel v' rest
  bound : steps + 1 + 2 * v.nodes.length ≤ 2 * v'.nodes.length

/-- The work on a node whose first fanins have been visited visits the other ones and then the node. -/
theorem WellFormed.exists_worked_of_fanins (wf : net.WellFormed) (hn : n < net.size)
    (below : ∀ s ∈ net.slots n, ∀ v : Visited, s.node ∉ v →
      ∃ v' steps, Worked net s.node v v' steps ∧ v'.nodes = net.visit v.nodes s.node)
    (todo : List Signal) : ∀ (done : List Signal) (v : Visited), net.slots n = done ++ todo →
      (∀ s ∈ done, s.node ∈ v) → n ∉ v → ∃ v' steps, Worked net n v v' steps ∧
        v'.nodes = n :: (todo.map (·.node)).foldl net.visit v.nodes := by
  induction todo with
  | nil =>
    intro done v slots hdone fresh
    rw [List.append_nil] at slots
    have step := postorderStep_of_fanins_mem hn fresh (slots ▸ hdone)
    refine ⟨v.push n, 1, ⟨fun fuel rest => ?_, ?_⟩, rfl⟩
    · rw [Nat.add_comm, drain, step]
      rfl
    · change _ ≤ 2 * (v.nodes.length + 1)
      omega
  | cons s todo ih =>
    intro done v slots hdone fresh
    have hs : s ∈ net.slots n := by rw [slots]; simp
    have slots' : net.slots n = (done ++ [s]) ++ todo := by rw [slots]; simp
    rw [List.map_cons, List.foldl_cons]
    by_cases hmem : s.node ∈ v
    · rw [wf.visit_of_mem hmem]
      refine ih _ v slots' (fun t ht => ?_) fresh
      rcases List.mem_append.1 ht with ht | ht
      · exact hdone t ht
      · exact List.mem_singleton.1 ht ▸ hmem
    · obtain ⟨v₁, steps₁, worked₁, nodes₁⟩ := below s hs v hmem
      have visiting := wf.visiting s.node v.nodes
      rw [← nodes₁] at visiting
      have fresh₁ : n ∉ v₁ := fun hn₁ => by
        obtain ⟨r, hr, cone⟩ := (visiting.sound n hn₁).resolve_left fresh
        rw [List.mem_singleton.1 hr] at cone
        exact wf.acyclic.not_inCone ⟨s, hs, rfl⟩ cone
      obtain ⟨v₂, steps₂, worked₂, nodes₂⟩ := ih (done ++ [s]) v₁ slots' (fun t ht => by
        rcases List.mem_append.1 ht with ht | ht
        · exact visiting.kept _ (hdone t ht)
        · exact List.mem_singleton.1 ht ▸ visiting.visited _ (List.mem_singleton_self _)) fresh₁
      refine ⟨v₂, steps₁ + steps₂ + 1, ⟨fun fuel rest => ?_, ?_⟩, by rw [nodes₂, nodes₁]⟩
      · rw [show steps₁ + steps₂ + 1 + fuel = steps₁ + (steps₂ + fuel) + 1 by omega, drain,
          postorderStep_of_fanin_not_mem hn fresh slots hdone hmem]
        exact (worked₁.run _ _).trans (worked₂.run _ _)
      · have := worked₁.bound
        have := worked₂.bound
        omega

theorem WellFormed.exists_worked (wf : net.WellFormed) (hn : n < net.size) (v : Visited)
    (fresh : n ∉ v) : ∃ v' steps, Worked net n v v' steps ∧ v'.nodes = net.visit v.nodes n := by
  obtain ⟨rank, ranked, -⟩ := wf.acyclic.exists_ranked wf.closed
  induction hrank : rank n using Nat.strong_induction_on generalizing n v with
  | _ k ih =>
    have below : ∀ s ∈ net.slots n, ∀ v : Visited, s.node ∉ v →
        ∃ v' steps, Worked net s.node v v' steps ∧ v'.nodes = net.visit v.nodes s.node := by
      intro s hs v fresh
      have hfanin : net.IsFanin s.node n := ⟨s, hs, rfl⟩
      exact ih (rank s.node) (hrank ▸ ranked _ _ hfanin) (wf.closed _ _ hfanin) v fresh rfl
    rw [wf.visit_of_not_mem fresh]
    exact wf.exists_worked_of_fanins hn below _ [] v rfl (fun s hs => absurd hs List.not_mem_nil) fresh

/-- The stack is worked off in the order of the roots. -/
theorem WellFormed.drain_postorderStep (wf : net.WellFormed) {roots : List Nat} :
    ∀ (v : Visited), (∀ r ∈ roots, r < net.size) → ∃ v' steps,
      (∀ fuel, drain net.postorderStep (steps + fuel) v roots = .ok v') ∧
      steps + 2 * v.nodes.length ≤ roots.length + 2 * v'.nodes.length ∧
      v'.nodes = roots.foldl net.visit v.nodes := by
  induction roots with
  | nil => exact fun v _ => ⟨v, 0, fun fuel => by rw [drain], by simp, rfl⟩
  | cons r roots ih =>
    intro v inRange
    obtain ⟨hr, others⟩ := List.forall_mem_cons.1 inRange
    rw [List.foldl_cons]
    by_cases hmem : r ∈ v
    · obtain ⟨v', steps, run, bound, nodes⟩ := ih v others
      refine ⟨v', steps + 1, fun fuel => ?_, by rw [List.length_cons]; omega,
        by rw [wf.visit_of_mem hmem, nodes]⟩
      rw [Nat.add_right_comm, drain, postorderStep_of_mem hr hmem]
      exact run fuel
    · obtain ⟨v₁, steps₁, worked, nodes₁⟩ := wf.exists_worked hr v hmem
      obtain ⟨v', steps, run, bound, nodes⟩ := ih v₁ others
      have := worked.bound
      refine ⟨v', steps₁ + steps, fun fuel => ?_, by rw [List.length_cons]; omega, by rw [nodes, nodes₁]⟩
      rw [Nat.add_assoc, worked.run]
      exact run fuel

namespace Ordered

theorem nodup (h : net.Ordered seen) : seen.Nodup := by
  induction h with
  | nil => exact List.nodup_nil
  | cons _ fresh _ ih => exact List.nodup_cons.2 ⟨fresh, ih⟩

/-- With a node, its transitive fanin is listed. -/
theorem mem_of_inCone (h : net.Ordered seen) (hn : n ∈ seen) (cone : net.InCone m n) : m ∈ seen := by
  have closed : ∀ n ∈ seen, ∀ m, net.IsFanin m n → m ∈ seen := by
    clear hn cone
    induction h with
    | nil => exact fun n hn => absurd hn List.not_mem_nil
    | cons fanins _ _ ih =>
      intro n hn m hfanin
      rcases List.mem_cons.1 hn with rfl | hn
      · exact List.mem_cons_of_mem _ (fanins m hfanin)
      · exact List.mem_cons_of_mem _ (ih n hn m hfanin)
  induction cone using Relation.ReflTransGen.head_induction_on with
  | refl => exact hn
  | head hfanin _ ih => exact closed _ ih _ hfanin

/-- The node listed first of all has no fanins. -/
theorem exists_first (h : net.Ordered seen) (nonempty : seen ≠ []) :
    ∃ n rest, seen.reverse = n :: rest ∧ ∀ m, ¬ net.IsFanin m n := by
  induction h with
  | nil => exact absurd rfl nonempty
  | @cons n seen fanins _ _ ih =>
    rw [List.reverse_cons]
    by_cases hseen : seen = []
    · subst hseen
      exact ⟨n, [], rfl, fun m hm => List.not_mem_nil (fanins m hm)⟩
    · obtain ⟨first, rest, listed, source⟩ := ih hseen
      exact ⟨first, rest ++ [n], by rw [listed, List.cons_append], source⟩

theorem length_le (h : net.Ordered seen) (inRange : ∀ n ∈ seen, n < net.size) :
    seen.length ≤ net.size := by
  have sub : seen ⊆ List.range net.size := fun n hn => List.mem_range.2 (inRange n hn)
  simpa using (h.nodup.subperm sub).length_le

end Ordered

/-- The postorder of given roots is that of a depth-first visit. -/
theorem WellFormed.postorder_eq_ok (wf : net.WellFormed) {roots : List Nat}
    (inRange : ∀ r ∈ roots, r < net.size) :
    net.postorder roots = .ok (roots.foldl net.visit []).reverse := by
  obtain ⟨v, steps, run, bound, nodes⟩ := wf.drain_postorderStep .empty inRange
  have visiting := wf.visiting_foldl roots []
  rw [← show v.nodes = roots.foldl net.visit [] from nodes] at visiting ⊢
  have hlength : v.nodes.length ≤ net.size := by
    refine (visiting.ordered .nil).length_le fun n hn => ?_
    obtain ⟨r, hr, cone⟩ := (visiting.sound n hn).resolve_left List.not_mem_nil
    exact wf.closed.lt_size_of_inCone cone (inRange r hr)
  obtain ⟨fuel, hfuel⟩ : ∃ fuel, roots.length + 2 * net.size + 1 = steps + fuel :=
    Nat.exists_eq_add_of_le (by change steps + 2 * 0 ≤ _ at bound; omega)
  rw [postorder, hfuel, run]
  rfl

/-- A node is in the cone of some output. -/
def InOutputCone (net : Network) (n : Nat) : Prop := ∃ s ∈ net.outputs, net.InCone n s.node

theorem WellFormed.lt_size_of_inOutputCone (wf : net.WellFormed) (h : net.InOutputCone n) :
    n < net.size := by
  obtain ⟨s, hs, cone⟩ := h
  exact wf.closed.lt_size_of_inCone cone (wf.outputs s hs).inRange

/-- The topological order lists the cones of the outputs, every node once and after its fanins. -/
theorem WellFormed.exists_topologicalOrder (wf : net.WellFormed) :
    ∃ seen, net.topologicalOrder = .ok seen.reverse ∧ net.Ordered seen ∧
      ∀ n, n ∈ seen ↔ net.InOutputCone n := by
  have inRange : ∀ r ∈ net.outputs.map (·.node), r < net.size := by
    intro r hr
    obtain ⟨s, hs, rfl⟩ := List.mem_map.1 hr
    exact (wf.outputs s hs).inRange
  have visiting := wf.visiting_foldl (net.outputs.map (·.node)) []
  have ordered := visiting.ordered .nil
  refine ⟨_, wf.postorder_eq_ok inRange, ordered, fun n => ⟨fun hn => ?_, ?_⟩⟩
  · obtain ⟨r, hr, cone⟩ := (visiting.sound n hn).resolve_left List.not_mem_nil
    obtain ⟨s, hs, rfl⟩ := List.mem_map.1 hr
    exact ⟨s, hs, cone⟩
  · rintro ⟨s, hs, cone⟩
    exact ordered.mem_of_inCone (visiting.visited _ (List.mem_map_of_mem hs)) cone

/-- One more node is one more gate, if it is a gate. -/
theorem ncard_gates_cons {done : List Nat} (unseen : n ∉ done) :
    {m | m ∈ n :: done ∧ net.IsGate m}.ncard
      = {m | m ∈ done ∧ net.IsGate m}.ncard + {m | m = n ∧ net.IsGate m}.ncard := by
  have split : {m | m ∈ n :: done ∧ net.IsGate m}
      = {m | m ∈ done ∧ net.IsGate m} ∪ {m | m = n ∧ net.IsGate m} := by
    ext m
    simp only [List.mem_cons, Set.mem_union, Set.mem_ofPred_eq]
    tauto
  have finite : {m | m ∈ done ∧ net.IsGate m}.Finite :=
    (List.finite_toSet done).subset fun m hm => hm.1
  have disjoint : Disjoint {m | m ∈ done ∧ net.IsGate m} {m | m = n ∧ net.IsGate m} := by
    refine Set.disjoint_left.2 ?_
    rintro m ⟨hm, -⟩ ⟨rfl, -⟩
    exact unseen hm
  rw [split, Set.ncard_union_eq disjoint finite ((Set.finite_singleton n).subset fun m hm => hm.1)]

end LogicNet.Network
