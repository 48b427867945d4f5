import LogicNet.Proofs.Workspaces

/-! # Creation primitives

In every network that calls lead to, the signal that a primitive makes has the value of its function on
the values of the operands.  It may be an operand, a constant, a new gate, or a gate that was found in the
table after its fanins were sorted, replaced or complemented; nothing that there was changes its value.
-/

namespace LogicNet

open Network Workspace

/-- A call that makes one signal from others. -/
inductive Primitive where
  | not (a : Signal)
  | and (a b : Signal)
  | or (a b : Signal)
  | nand (a b : Signal)
  | xor (a b : Signal)
  | maj (a b c : Signal)
  | xor3 (a b c : Nat)
  | table (nodes : List Nat) (t : TruthTable)
deriving Repr, DecidableEq

namespace Primitive

def edit : Primitive → Edit Signal
  | not a => createNot a
  | and a b => createAnd a b
  | or a b => createOr a b
  | nand a b => createNand a b
  | xor a b => createXor a b
  | maj a b c => createMaj a b c
  | xor3 a b c => createXor3 a b c
  | table nodes t => createTable nodes t

def operands : Primitive → List Signal
  | not a => [a]
  | and a b | or a b | nand a b | xor a b => [a, b]
  | maj a b c => [a, b, c]
  | xor3 a b c => [a, b, c].map Signal.ofNode
  | table nodes _ => nodes.map Signal.ofNode

/-- Only networks of tables have it. -/
def needsTables : Primitive → Bool
  | xor3 .. | table .. => true
  | _ => false

/-- Value of the function, given the values of the nodes.  A table is read at the row that has the value
of child `j` as bit `j`. -/
def value (v : Nat → Bool) : Primitive → Bool
  | not a => !a.value v
  | and a b => a.value v && b.value v
  | or a b => a.value v || b.value v
  | nand a b => !(a.value v && b.value v)
  | xor a b => a.value v ^^ b.value v
  | maj a b c => majority (a.value v) (b.value v) (c.value v)
  | xor3 a b c => v a ^^ v b ^^ v c
  | table nodes t => t.bit (TruthTable.rowOf (nodes.map v))

/-- The family has the call, and the operands are live signals that it may use. -/
structure Admissible (net : Network) (p : Primitive) : Prop where
  operands : ∀ s ∈ p.operands, net.Operand s
  family : p.needsTables = true → net.family = .klut

/-- The table of a table gate has a variable for every child, and there are not too many. -/
def Accepted : Primitive → Prop
  | table nodes t => t.numVars = nodes.length ∧ nodes.length ≤ maxFanins
  | _ => True

variable {net : Network} {p : Primitive}

theorem live_of_operands {nodes : List Nat} (h : ∀ s ∈ nodes.map Signal.ofNode, net.Operand s) :
    ∀ n ∈ nodes, net.isLive n = true :=
  fun n hn => (h (.ofNode n) (List.mem_map_of_mem hn)).live

/-- Every primitive computes its function. -/
theorem Admissible.computes (admissible : p.Admissible net) (consed : net.HashConsed)
    (accepted : p.Accepted) : Computes net p.edit fun x => p.value (net.eval x) := by
  have operands := admissible.operands
  cases p with
  | not a => exact consed.computes_createNot (operands a List.mem_cons_self).represents
  | and a b =>
    obtain ⟨ha, hb⟩ := HashConsed.operand_pair operands
    exact consed.computes_createAnd ha.represents hb.represents
  | or a b =>
    obtain ⟨ha, hb⟩ := HashConsed.operand_pair operands
    exact consed.computes_createOr ha.represents hb.represents
  | nand a b =>
    obtain ⟨ha, hb⟩ := HashConsed.operand_pair operands
    exact consed.computes_createNand ha.represents hb.represents
  | xor a b =>
    obtain ⟨ha, hb⟩ := HashConsed.operand_pair operands
    exact consed.computes_createXor ha.represents hb.represents
  | maj a b c =>
    obtain ⟨ha, hbc⟩ := List.forall_mem_cons.1 operands
    obtain ⟨hb, hc⟩ := HashConsed.operand_pair hbc
    exact consed.computes_createMaj ha.represents hb.represents hc.represents
  | xor3 a b c => exact consed.computes_createXor3 (admissible.family rfl) (live_of_operands operands)
  | table nodes t =>
    obtain ⟨hvars, bounded⟩ := accepted
    exact consed.computes_createTable (admissible.family rfl) hvars bounded (live_of_operands operands)

/-- What is not accepted is refused, and nothing is changed. -/
theorem Admissible.refused (admissible : p.Admissible net) (rejected : ¬ p.Accepted) :
    ∃ cause, p.edit.run net = .error (.refused cause) net := by
  cases p with
  | table nodes t =>
    cases checked : net.checkTable nodes t with
    | ok _ =>
      obtain ⟨hvars, bounded, -⟩ := checkTable_eq_ok.1 checked
      exact absurd ⟨hvars, bounded⟩ rejected
    | error cause =>
      refine ⟨cause, ?_⟩
      rw [edit, createTable, Edit.run_bind_ok (Edit.run_requireFamily (admissible.family rfl)),
        Edit.run_get_bind, checked]
      rfl
  | _ => exact absurd trivial rejected

end Primitive

variable {w : Workspace} {id : Nat} {net : Network} {p : Primitive}

end LogicNet
