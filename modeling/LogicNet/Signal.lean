/-! # Signals

A signal is an edge of a logic network: the node it leaves and a polarity.  A node is named by its
position in the network, which is never reused.  Signals are ordered by node first and by polarity
second, which is the order of the fanins in a canonical gate key.
-/

namespace LogicNet

-- Powers and sums are those of the core library, whatever else is imported.
attribute [scoped instance (high)] instPowNat
attribute [scoped instance (high)] Zero.ofOfNat0

/-- A reference to a node together with a polarity. -/
structure Signal where
  node : Nat
  complemented : Bool
deriving Repr, DecidableEq, Inhabited

namespace Signal

def ofNode (n : Nat) : Signal := ⟨n, false⟩

def complement (s : Signal) : Signal := { s with complemented := !s.complemented }

def complementIf (s : Signal) (flip : Bool) : Signal :=
  { s with complemented := s.complemented ^^ flip }

def positiveNode? (s : Signal) : Option Nat :=
  if s.complemented then none else some s.node

/-- Position of the signal in the order by node, then by polarity. -/
def rank (s : Signal) : Nat := 2 * s.node + s.complemented.toNat

instance : LE Signal := ⟨fun s t => s.rank ≤ t.rank⟩
instance : Ord Signal := ⟨fun s t => compare s.rank t.rank⟩
instance (s t : Signal) : Decidable (s ≤ t) := inferInstanceAs (Decidable (s.rank ≤ t.rank))

def sort2 (a b : Signal) : Signal × Signal := if a ≤ b then (a, b) else (b, a)

def sort3 (a b c : Signal) : Signal × Signal × Signal :=
  let (a, b) := sort2 a b
  let (b, c) := sort2 b c
  let (a, b) := sort2 a b
  (a, b, c)

/-- Inserts a signal before the first one that is not smaller. -/
def insertSorted (s : Signal) : List Signal → List Signal
  | [] => [s]
  | t :: rest => if s ≤ t then s :: t :: rest else t :: insertSorted s rest

def sort : List Signal → List Signal
  | [] => []
  | s :: rest => insertSorted s (sort rest)

/-- A node is written `%7`, its complement `!%7`. -/
def text (s : Signal) : String := (if s.complemented then "!%" else "%") ++ Nat.repr s.node

instance : ToString Signal := ⟨text⟩

@[simp] theorem complement_node (s : Signal) : s.complement.node = s.node := rfl

@[simp] theorem complementIf_node (s : Signal) (b : Bool) : (s.complementIf b).node = s.node := rfl

@[simp] theorem complement_complement (s : Signal) : s.complement.complement = s := by
  simp [complement]

@[simp] theorem complementIf_false (s : Signal) : s.complementIf false = s := by
  simp [complementIf]

@[simp] theorem complementIf_true (s : Signal) : s.complementIf true = s.complement := by
  simp [complementIf, complement]

theorem complementIf_complementIf (s : Signal) (a b : Bool) :
    (s.complementIf a).complementIf b = s.complementIf (a ^^ b) := by
  simp [complementIf]

theorem rank_injective {s t : Signal} (h : s.rank = t.rank) : s = t := by
  obtain ⟨m, c⟩ := s
  obtain ⟨n, d⟩ := t
  cases c <;> cases d <;> simp [rank] at h ⊢ <;> omega

/-- The order is by node, then positive before complemented. -/
theorem le_iff (s t : Signal) :
    s ≤ t ↔ s.node < t.node ∨ s.node = t.node ∧ s.complemented ≤ t.complemented := by
  obtain ⟨m, c⟩ := s
  obtain ⟨n, d⟩ := t
  change 2 * m + c.toNat ≤ 2 * n + d.toNat ↔ _
  have : ¬ (true ≤ false) := by decide
  cases c <;> cases d <;> simp [this] <;> omega

end Signal

end LogicNet
