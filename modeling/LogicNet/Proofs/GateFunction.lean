import LogicNet.Network.Function
import LogicNet.Proofs.CanonicalForm
import LogicNet.Proofs.FunctionCache

/-! # Values of gates

A gate function has an arity and a value on the values of its fanins.  The canonical form of a gate
has the value of the gate, and fanins that are alike give one value up to the complement between
them.
-/

namespace LogicNet

/-- Value of a signal, given the values of nodes. -/
def Signal.value (v : Nat → Bool) (s : Signal) : Bool := v s.node ^^ s.complemented

namespace Signal

@[simp] theorem value_complementIf (v : Nat → Bool) (s : Signal) (flip : Bool) :
    (s.complementIf flip).value v = (s.value v ^^ flip) := by
  simp [value, complementIf]

@[simp] theorem value_complement (v : Nat → Bool) (s : Signal) :
    s.complement.value v = !s.value v := by
  simp [value, complement]

end Signal

namespace TruthTable

/-- Bit `j` of the number of a row is member `j` of the list. -/
theorem testBit_rowOf (bits : List Bool) (j : Nat) : (rowOf bits).testBit j = bits.getD j false := by
  induction bits generalizing j with
  | nil => simp [rowOf]
  | cons b rest ih =>
    cases j with
    | zero => cases b <;> simp [rowOf, Nat.testBit_zero, Nat.add_mod]
    | succ j =>
      rw [rowOf, Nat.testBit_succ, List.getD_cons_succ, ← ih]
      congr 1
      have low := Bool.toNat_lt b
      omega

theorem weight_rowOf (bits : List Bool) : weight bits.length (rowOf bits) = bits.count true := by
  induction bits with
  | nil => rfl
  | cons b rest ih =>
    rw [weight, List.length_cons, List.range_succ_eq_map, List.countP_cons, List.countP_map,
      testBit_rowOf]
    have hrest : (List.range rest.length).countP ((rowOf (b :: rest)).testBit ∘ Nat.succ)
        = weight rest.length (rowOf rest) :=
      List.countP_congr fun j _ => by simp [testBit_rowOf]
    rw [hrest, ih, List.count_cons]
    cases b <;> rfl

/-- A table without variables has one row. -/
theorem isConstFalse_of_numVars_eq_zero {t : TruthTable} (h : t.numVars = 0) :
    t.isConstFalse = !t.bit 0 := by
  obtain ⟨n, rows⟩ := t
  obtain rfl : n = 0 := h
  have single : ∀ rows : BitVec 1, (rows == 0#1) = !rows.getLsbD 0 := by decide
  exact single rows

theorem rowOf_testBits {n i : Nat} (h : i < 2 ^ n) : rowOf ((List.range n).map i.testBit) = i := by
  refine Nat.eq_of_testBit_eq fun j => ?_
  rw [testBit_rowOf, List.getD_eq_getElem?_getD, List.getElem?_map]
  by_cases hj : j < n
  · rw [List.getElem?_range hj]
    rfl
  · have outside : i.testBit j = false :=
      Nat.testBit_lt_two_pow (Nat.lt_of_lt_of_le h (Nat.pow_le_pow_right Nat.zero_lt_two (Nat.le_of_not_lt hj)))
    rw [List.getElem?_eq_none (by simpa using hj), outside]
    rfl

/-- The value depends on the number of true variables alone. -/
def CountsOnly (t : TruthTable) : Prop :=
  ∀ bits bits' : List Bool, bits.length = t.numVars → bits'.length = t.numVars →
    bits.count true = bits'.count true → t.bit (rowOf bits) = t.bit (rowOf bits')

theorem isSymmetric_iff_countsOnly (t : TruthTable) : t.isSymmetric = true ↔ t.CountsOnly := by
  rw [isSymmetric_iff]
  constructor
  · intro symmetric
    have first (bits : List Bool) (length : bits.length = t.numVars) :
        t.bit (rowOf bits) = t.bit (2 ^ bits.count true - 1) := by
      have row := rowOf_lt bits
      rw [length] at row
      rw [symmetric _ row, ← length, weight_rowOf]
    intro bits bits' length length' count
    rw [first bits length, first bits' length', count]
  · intro counts i hi
    have le := weight_le t.numVars i
    have first : 2 ^ weight t.numVars i - 1 < 2 ^ t.numVars := by
      have pow := Nat.pow_le_pow_right Nat.zero_lt_two le
      have pos := Nat.two_pow_pos (weight t.numVars i)
      omega
    have length (j : Nat) : ((List.range t.numVars).map j.testBit).length = t.numVars := by simp
    have count {j : Nat} (hj : j < 2 ^ t.numVars) :
        ((List.range t.numVars).map j.testBit).count true = weight t.numVars j := by
      rw [← weight_rowOf, length, rowOf_testBits hj]
    have same := counts _ _ (length i) (length (2 ^ weight t.numVars i - 1))
      (by rw [count hi, count first, weight_two_pow_sub_one, Nat.min_eq_right le])
    rwa [rowOf_testBits hi, rowOf_testBits first] at same

/-- A symmetric table has one value on all arrangements of the same bits. -/
theorem bit_rowOf_of_perm {t : TruthTable} (symmetric : t.isSymmetric = true) {bits bits' : List Bool}
    (hlength : bits.length = t.numVars) (hperm : bits.Perm bits') :
    t.bit (rowOf bits) = t.bit (rowOf bits') :=
  t.isSymmetric_iff_countsOnly.1 symmetric bits bits' hlength (hperm.length_eq.symm.trans hlength)
    (hperm.count_eq true)

end TruthTable

namespace FunctionCache

/-- Number of fanins of a gate function. -/
def arity? (functions : FunctionCache) : GateFunction → Option Nat
  | .and => some 2
  | .maj => some 3
  | .table f => (functions.get f).toOption.map (·.numVars)

theorem arity?_table {functions : FunctionCache} {f : FunctionLiteral} {n : Nat} :
    functions.arity? (.table f) = some n ↔ ∃ t, functions.get f = .ok t ∧ t.numVars = n := by
  rw [arity?]
  cases functions.get f <;> simp [Except.toOption]

theorem Extends.arity? {c c' : FunctionCache} (h : c.Extends c') {g : GateFunction} {n : Nat}
    (hg : c.arity? g = some n) : c'.arity? g = some n := by
  cases g with
  | and => exact hg
  | maj => exact hg
  | table f =>
    obtain ⟨t, ht, hn⟩ := arity?_table.1 hg
    exact arity?_table.2 ⟨t, h.get ht, hn⟩

end FunctionCache

/-- Value of a gate function on the values of its fanins. -/
def GateFunction.value (functions : FunctionCache) : GateFunction → List Bool → Bool
  | .and, bits => bits.all id
  | .maj, bits => 2 ≤ bits.count true
  | .table f, bits =>
    match functions.get f with
    | .ok t => t.bit (TruthTable.rowOf bits)
    | .error _ => false

/-- The value of a gate function is a row of its table. -/
theorem GateFunction.value_eq_bit {functions : FunctionCache} {g : GateFunction} {t : TruthTable}
    (ht : functions.tableOf g = .ok t) {bits : List Bool} (length : bits.length = t.numVars) :
    g.value functions bits = t.bit (TruthTable.rowOf bits) := by
  cases g with
  | and =>
    cases ht
    obtain ⟨a, b, rfl⟩ := List.length_eq_two.1 length
    cases a <;> cases b <;> rfl
  | maj =>
    cases ht
    obtain ⟨a, b, c, rfl⟩ := List.length_eq_three.1 length
    cases a <;> cases b <;> cases c <;> rfl
  | table f =>
    have hget : functions.get f = .ok t := ht
    simp only [value, hget]

/-- The functions that gates have are those that have tables. -/
theorem FunctionCache.exists_tableOf {functions : FunctionCache} {g : GateFunction} {n : Nat}
    (arity : functions.arity? g = some n) : ∃ t, functions.tableOf g = .ok t ∧ t.numVars = n := by
  cases g with
  | and => exact ⟨_, rfl, Option.some.inj arity⟩
  | maj => exact ⟨_, rfl, Option.some.inj arity⟩
  | table f => exact arity?_table.1 arity

namespace Canonical

variable {functions : FunctionCache} {g : GateFunction} {l l' : List Signal}

/-- A cached table needs a gate, whatever its fanins are. -/
theorem exists_ofTable {f : FunctionLiteral} {t : TruthTable} (ht : functions.get f = .ok t)
    (l : List Signal) : ∃ key, ofGate functions (.table f) l = .ok (.gate key false) := by
  obtain ⟨e, he, -⟩ := FunctionCache.get_eq_ok.1 ht
  have hsymmetric := FunctionCache.isSymmetric_eq_ok.2 ⟨e, he, rfl⟩
  exact ⟨_, by rw [ofGate, ofTable, hsymmetric]; rfl⟩

/-- A gate with as many fanins as its function takes has a canonical form. -/
theorem exists_ofGate (harity : functions.arity? g = some l.length) :
    ∃ c, ofGate functions g l = .ok c := by
  match g, l with
  | .and, [a, b] => exact ⟨_, rfl⟩
  | .maj, [a, b, c] => exact ⟨_, rfl⟩
  | .table f, l =>
    obtain ⟨t, ht, -⟩ := FunctionCache.arity?_table.1 harity
    obtain ⟨key, hkey⟩ := exists_ofTable ht l
    exact ⟨_, hkey⟩
  | .and, [] | .and, [_] | .and, _ :: _ :: _ :: _ => simp [FunctionCache.arity?] at harity
  | .maj, [] | .maj, [_] | .maj, [_, _] | .maj, _ :: _ :: _ :: _ :: _ =>
    simp [FunctionCache.arity?] at harity

theorem ofGate_of_extends {functions' : FunctionCache} (h : functions.Extends functions')
    {c : Canonical} (hc : ofGate functions g l = .ok c) : ofGate functions' g l = .ok c := by
  match g, l with
  | .and, [a, b] => exact hc
  | .maj, [a, b, c] => exact hc
  | .table f, l =>
    obtain ⟨symmetric, hsymmetric, hc⟩ := bind_eq_ok.1 hc
    rw [ofGate, ofTable, h.isSymmetric hsymmetric]
    exact hc
  | .and, [] | .and, [_] | .and, _ :: _ :: _ :: _ => cases hc
  | .maj, [] | .maj, [_] | .maj, [_, _] | .maj, _ :: _ :: _ :: _ :: _ => cases hc

theorem Alike.of_extends {functions' : FunctionCache} (h : functions.Extends functions') {flip : Bool}
    (alike : Alike functions g flip l l') : Alike functions' g flip l l' := by
  cases g with
  | and => exact alike
  | maj => exact alike
  | table f => exact ⟨alike.1, alike.2.imp id fun ⟨symmetric, perm⟩ => ⟨h.isSymmetric symmetric, perm⟩⟩

theorem count_true_map_not (bits : List Bool) :
    (bits.map (!·)).count true + bits.count true = bits.length := by
  induction bits with
  | nil => rfl
  | cons b rest ih => cases b <;> simp <;> omega

/-- Alike fanins give one value, up to the complement between them. -/
theorem value_of_alike (wf : functions.WellFormed) (harity : functions.arity? g = some l.length)
    {flip : Bool} (h : Alike functions g flip l l') (v : Nat → Bool) :
    g.value functions (l.map (Signal.value v))
      = (g.value functions (l'.map (Signal.value v)) ^^ flip) := by
  cases g with
  | and =>
    obtain ⟨rfl, hperm⟩ := h
    simp only [GateFunction.value, Bool.xor_false]
    exact (hperm.map (Signal.value v)).all_eq
  | maj =>
    have hcount := (List.Perm.map (Signal.value v) h).count_eq true
    simp only [GateFunction.value, hcount]
    have hlength : l'.length = 3 := by
      rw [← h.length_eq]
      simpa [FunctionCache.arity?, eq_comm] using harity
    cases flip with
    | false => simp
    | true =>
      have hmap : (l'.map (·.complementIf true)).map (Signal.value v)
          = (l'.map (Signal.value v)).map (!·) := by
        simp [Function.comp_def]
      have hsum := count_true_map_not (l'.map (Signal.value v))
      rw [List.length_map, hlength] at hsum
      rw [hmap, Bool.xor_true, ← decide_not]
      exact decide_eq_decide.2 (by omega)
  | table f =>
    obtain ⟨rfl, hl⟩ := h
    rw [Bool.xor_false]
    rcases hl with rfl | ⟨hsymmetric, hperm⟩
    · rfl
    · obtain ⟨t, ht, hvars⟩ := FunctionCache.arity?_table.1 harity
      have symmetric := Except.ok.inj ((wf.isSymmetric_of_get ht).symm.trans hsymmetric)
      simp only [GateFunction.value, ht]
      exact TruthTable.bit_rowOf_of_perm symmetric (by rw [List.length_map, hvars])
        (hperm.map (Signal.value v))

/-- A gate that needs no gate has the value of the signal that it is equal to. -/
theorem value_of_trivial {s : Signal} (h : ofGate functions g l = .ok (.trivial s)) {v : Nat → Bool}
    (hzero : g = .and → v 0 = false) :
    g.value functions (l.map (Signal.value v)) = s.value v := by
  match g, l with
  | .and, [a, b] =>
    have hconstant : (constant false).value v = false := by
      simp [constant, Signal.value, hzero rfl]
    obtain ⟨x, y, hperm, hle⟩ := Signal.exists_perm_of_two a b
    rw [GateFunction.value, (hperm.map (Signal.value v)).all_eq]
    simp only [ofGate, ofAnd_of_perm hperm, Except.ok.injEq] at h
    rcases Nat.eq_or_lt_of_le hle with hxy | hxy
    · rw [ofAnd_of_node_eq hxy] at h
      cases h
      rw [apply_ite (Signal.value v), hconstant]
      simp only [Signal.value, List.map_cons, List.map_nil, List.all_cons, List.all_nil, hxy]
      cases x.complemented <;> cases y.complemented <;> cases v y.node <;> rfl
    · by_cases hx : x.node = 0
      · rw [ofAnd_of_node_eq_zero hx] at h
        cases h
        rw [apply_ite (Signal.value v), hconstant]
        simp only [Signal.value, List.map_cons, List.map_nil, List.all_cons, List.all_nil, hx,
          hzero rfl]
        cases x.complemented <;> simp
      · rw [ofAnd_of_lt hx hxy] at h
        cases h
  | .maj, [a, b, c] =>
    simp only [ofGate, Except.ok.injEq] at h
    rcases Signal.exists_perm_of_three a b c with ⟨x, y, z, hperm, hxy⟩ | ⟨x, y, z, hperm, hxy, hyz⟩
    · rw [GateFunction.value, (hperm.map (Signal.value v)).count_eq]
      rw [ofMaj_of_perm hperm, ofMaj_of_node_eq z hxy] at h
      cases h
      rw [apply_ite (Signal.value v)]
      simp only [Signal.value, List.map_cons, List.map_nil, hxy]
      generalize (v z.node ^^ z.complemented) = value
      cases x.complemented <;> cases y.complemented <;> cases v y.node <;> cases value <;> rfl
    · rw [ofMaj_of_perm hperm, ofMaj_of_lt hxy hyz rfl] at h
      cases h
  | .table f, l =>
    obtain ⟨symmetric, hsymmetric, h⟩ := bind_eq_ok.1 h
    cases h
  | .and, [] | .and, [_] | .and, _ :: _ :: _ :: _ => cases h
  | .maj, [] | .maj, [_] | .maj, [_, _] | .maj, _ :: _ :: _ :: _ :: _ => cases h

end Canonical

end LogicNet
