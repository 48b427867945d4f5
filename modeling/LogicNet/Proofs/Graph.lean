import LogicNet.Proofs.Structure
import Mathlib.Data.Finset.Card
import Mathlib.Logic.Relation

/-! # The graph of a network

The graph of all nodes, dead ones included, under the fanin relation.  It has no cycle exactly when
its nodes can be ranked so that every node is above its fanins.
-/

namespace LogicNet.Network

open Relation

variable {net net' : Network} {m n old new : Nat}

/-- One node is a fanin of another. -/
def IsFanin (net : Network) (m n : Nat) : Prop := ∃ s ∈ net.slots n, s.node = m

/-- The first node is in the transitive fanin of the second, which itself counts. -/
def InCone (net : Network) : Nat → Nat → Prop := ReflTransGen net.IsFanin

def Acyclic (net : Network) : Prop := ∀ n, ¬ TransGen net.IsFanin n n

/-- Every fanin is a node of the network. -/
def Closed (net : Network) : Prop := ∀ m n, net.IsFanin m n → m < net.size

/-- Every node is above its fanins. -/
def Ranked (net : Network) (rank : Nat → Nat) : Prop := ∀ m n, net.IsFanin m n → rank m < rank n

theorem IsFanin.isGate (h : net.IsFanin m n) : net.IsGate n := by
  obtain ⟨s, hs, -⟩ := h
  exact isGate_of_mem_slots hs

theorem SameGraph.isFanin (h : SameGraph net net') : net'.IsFanin = net.IsFanin := by
  funext m n
  rw [IsFanin, IsFanin, h.slots]

theorem SameGraph.acyclic (h : SameGraph net net') (acyclic : net.Acyclic) : net'.Acyclic := by
  unfold Acyclic
  rw [h.isFanin]
  exact acyclic

theorem Closed.lt_size_of_inCone (closed : net.Closed) (h : net.InCone m n) (hn : n < net.size) :
    m < net.size := by
  induction h using ReflTransGen.head_induction_on with
  | refl => exact hn
  | head hfanin _ _ => exact closed _ _ hfanin

namespace Ranked

variable {rank : Nat → Nat}

theorem le_of_inCone (ranked : net.Ranked rank) (h : net.InCone m n) : rank m ≤ rank n := by
  induction h with
  | refl => exact Nat.le_refl _
  | tail _ hfanin ih => exact Nat.le_trans ih (Nat.le_of_lt (ranked _ _ hfanin))

theorem lt_of_transGen (ranked : net.Ranked rank) (h : TransGen net.IsFanin m n) :
    rank m < rank n := by
  obtain ⟨k, hcone, hfanin⟩ := TransGen.tail'_iff.1 h
  exact Nat.lt_of_le_of_lt (ranked.le_of_inCone hcone) (ranked _ _ hfanin)

theorem acyclic (ranked : net.Ranked rank) : net.Acyclic :=
  fun _ loop => Nat.lt_irrefl _ (ranked.lt_of_transGen loop)

/-- A recursion over the fanins gives a node one value, however many levels it goes down at most, if they are
enough for the rank of the node. -/
theorem iterate_eq {α : Type} {step : (Nat → α) → Nat → α} (ranked : net.Ranked rank)
    (reads : ∀ {v w : Nat → α} {n : Nat}, (∀ m, net.IsFanin m n → v m = w m) → step v n = step w n)
    (v w : Nat → α) : ∀ {levels levels' n : Nat}, rank n < levels → rank n < levels' →
      step^[levels] v n = step^[levels'] w n := by
  intro levels
  induction levels with
  | zero =>
    intro levels' n h
    omega
  | succ levels ih =>
    intro levels' n h h'
    obtain ⟨k, rfl⟩ : ∃ k, levels' = k + 1 := Nat.exists_eq_succ_of_ne_zero (by omega)
    rw [Function.iterate_succ_apply', Function.iterate_succ_apply']
    apply reads
    intro m hm
    have hlt := ranked m n hm
    exact ih (by omega) (by omega)

end Ranked

namespace Acyclic

/-- A fanin does not depend on the node that it is a fanin of. -/
theorem not_inCone (acyclic : net.Acyclic) (h : net.IsFanin m n) : ¬ net.InCone n m :=
  fun hcone => acyclic n (.tail' hcone h)

open Classical in
/-- A graph without cycles is ranked by the number of nodes below each node. -/
theorem exists_ranked (acyclic : net.Acyclic) (closed : net.Closed) :
    ∃ rank, net.Ranked rank ∧ ∀ n, rank n ≤ net.size := by
  let below (n : Nat) : Finset Nat := (Finset.range net.size).filter (TransGen net.IsFanin · n)
  refine ⟨fun n => (below n).card, ?_, ?_⟩
  · intro m n hfanin
    refine Finset.card_lt_card (Finset.ssubset_iff_of_subset ?_ |>.2 ⟨m, ?_, ?_⟩)
    · intro k hk
      obtain ⟨hk, hbelow⟩ := Finset.mem_filter.1 hk
      exact Finset.mem_filter.2 ⟨hk, .tail hbelow hfanin⟩
    · exact Finset.mem_filter.2 ⟨Finset.mem_range.2 (closed m n hfanin), .single hfanin⟩
    · exact fun hm => acyclic m (Finset.mem_filter.1 hm).2
  · intro n
    calc (below n).card ≤ (Finset.range net.size).card := Finset.card_filter_le _ _
      _ = net.size := Finset.card_range _

/-- Without cycles a recursion over the fanins has a solution. -/
theorem exists_recursion {α : Type} [Inhabited α] {step : (Nat → α) → Nat → α} (acyclic : net.Acyclic)
    (closed : net.Closed)
    (reads : ∀ {v w : Nat → α} {n : Nat}, (∀ m, net.IsFanin m n → v m = w m) → step v n = step w n) :
    ∃ v : Nat → α, ∀ n, v n = step v n := by
  obtain ⟨rank, ranked, bounded⟩ := acyclic.exists_ranked closed
  let v := step^[net.size + 1] fun _ => default
  refine ⟨v, fun n => ?_⟩
  have within : rank n < net.size + 1 := Nat.lt_succ_of_le (bounded n)
  calc v n = step^[net.size + 2] (fun _ => default) n :=
        ranked.iterate_eq reads _ _ within (Nat.lt_succ_of_lt within)
    _ = step v n := by rw [Function.iterate_succ_apply']

open Classical in
/-- Redirecting edges from one node to another makes no cycle, if the new node does not depend on
the old one: the nodes that depend on the old one move above the new one. -/
theorem redirect (acyclic : net.Acyclic) (closed : net.Closed) (hcone : ¬ net.InCone old new)
    (edges : ∀ m n, net'.IsFanin m n → net.IsFanin m n ∨ m = new ∧ net.IsFanin old n) :
    net'.Acyclic := by
  obtain ⟨rank, ranked, -⟩ := acyclic.exists_ranked closed
  let lift (n : Nat) : Nat := rank n + if net.InCone old n then rank new + 1 else 0
  suffices ranked' : net'.Ranked lift from ranked'.acyclic
  intro m n hedge
  rcases edges m n hedge with hfanin | ⟨rfl, hfanin⟩
  · have hlt := ranked m n hfanin
    by_cases hm : net.InCone old m
    · have hn : net.InCone old n := .tail hm hfanin
      simp only [lift, if_pos hm, if_pos hn]
      omega
    · simp only [lift, if_neg hm]
      omega
  · have hn : net.InCone old n := .single hfanin
    simp only [lift, if_neg hcone, if_pos hn]
    omega

/-- New nodes over old ones make no cycle. -/
theorem push (acyclic : net.Acyclic) (closed : net.Closed)
    (edges : ∀ m n, net'.IsFanin m n → net.IsFanin m n ∨ net.size ≤ n ∧ m < net.size) :
    net'.Acyclic := by
  obtain ⟨rank, ranked, bounded⟩ := acyclic.exists_ranked closed
  let lift (n : Nat) : Nat := if n < net.size then rank n else net.size + 1
  suffices ranked' : net'.Ranked lift from ranked'.acyclic
  intro m n hedge
  rcases edges m n hedge with hfanin | ⟨hn, hm⟩
  · simp only [lift, if_pos (closed m n hfanin), if_pos hfanin.isGate.lt_size]
    exact ranked m n hfanin
  · simp only [lift, if_pos hm, if_neg (Nat.not_lt.2 hn)]
    exact Nat.lt_succ_of_le (bounded m)

end Acyclic

end LogicNet.Network
