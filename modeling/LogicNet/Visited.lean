import LogicNet.Signal

/-! # Visited nodes

A traversal keeps the nodes that it has visited in the order of the visits, and also as a set, which
tells quickly whether a node is among them.
-/

namespace LogicNet

structure Visited where
  /-- The nodes, the latest first. -/
  nodes : List Nat
  /-- The number with a bit for each of the nodes. -/
  bits : Nat
  testBit_bits : ∀ n, bits.testBit n = decide (n ∈ nodes)

namespace Visited

instance : Membership Nat Visited := ⟨fun v n => n ∈ v.nodes⟩

instance (n : Nat) (v : Visited) : Decidable (n ∈ v) :=
  decidable_of_iff (v.bits.testBit n = true) <| by
    rw [v.testBit_bits, decide_eq_true_eq]
    rfl

def empty : Visited := ⟨[], 0, by simp⟩

def push (v : Visited) (n : Nat) : Visited where
  nodes := n :: v.nodes
  bits := v.bits ||| 2 ^ n
  testBit_bits m := by
    rw [Nat.testBit_or, v.testBit_bits, Nat.testBit_two_pow, ← Bool.decide_or]
    simp only [List.mem_cons, or_comm, @eq_comm Nat n]

@[simp] theorem not_mem_empty (n : Nat) : n ∉ empty := List.not_mem_nil

@[simp] theorem mem_push {v : Visited} {m n : Nat} : m ∈ v.push n ↔ m = n ∨ m ∈ v := List.mem_cons

end Visited

end LogicNet
