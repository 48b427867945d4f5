import LogicNet.Proofs.Computation
import LogicNet.Proofs.GateFunction
import LogicNet.Simulation.Stimulus

/-! # Lanes

Every operation on simulation values does the same on all lanes.  So a value is described by the function
that gives the Boolean of each lane, and a gate over such values by the gate function on every lane.
-/

namespace LogicNet

namespace LaneValue

variable {V : Type} [LaneValue V] {α : Type} {v a b : V} {w : Nat} {f g h : Nat → Bool}

/-- The value has `w` lanes, and lane `k` is `f k`. -/
def Reads (v : V) (w : Nat) (f : Nat → Bool) : Prop := lanes v = (List.range w).map f

theorem Reads.congr (hv : Reads v w f) (same : ∀ k, f k = g k) : Reads v w g := by
  rw [← funext same]
  exact hv

end LaneValue

open LaneValue in
/-- Values on which every operation works lane by lane. -/
class LawfulLanes (V : Type) [LaneValue V] : Prop where
  laneCount_eq (v : V) : laneCount v = (lanes v).length
  complement {v : V} {w : Nat} {f : Nat → Bool} : Reads v w f → Reads (complement v) w fun k => !f k
  and {a b : V} {w : Nat} {f g : Nat → Bool} : Reads a w f → Reads b w g →
    ∃ c, LaneValue.and a b = .ok c ∧ Reads c w fun k => f k && g k
  or {a b : V} {w : Nat} {f g : Nat → Bool} : Reads a w f → Reads b w g →
    ∃ c, LaneValue.or a b = .ok c ∧ Reads c w fun k => f k || g k
  withLanes {v : V} {w : Nat} {f : Nat → Bool} (g : Nat → Bool) : Reads v w f →
    Reads (withLanes v ((List.range w).map g)) w g

namespace LaneValue

section lawful

variable {V : Type} [LaneValue V] [LawfulLanes V] {α : Type} {v a b c : V} {w : Nat} {f g h : Nat → Bool}
  {label : α → Nat → Bool} {l : List α} {values : List V}

theorem Reads.laneCount_eq (hv : Reads v w f) : laneCount v = w := by
  rw [LawfulLanes.laneCount_eq, hv, List.length_map, List.length_range]

theorem Reads.complementIf (hv : Reads v w f) (flip : Bool) :
    Reads (complementIf v flip) w fun k => f k ^^ flip := by
  cases flip with
  | false => exact hv.congr fun k => (Bool.xor_false _).symm
  | true => exact (LawfulLanes.complement hv).congr fun k => (Bool.xor_true _).symm

theorem Reads.maj (ha : Reads a w f) (hb : Reads b w g) (hc : Reads c w h) :
    ∃ m, LaneValue.maj a b c = .ok m ∧ Reads m w fun k => f k && g k || f k && h k || g k && h k := by
  obtain ⟨ab, runAB, hab⟩ := LawfulLanes.and ha hb
  obtain ⟨ac, runAC, hac⟩ := LawfulLanes.and ha hc
  obtain ⟨bc, runBC, hbc⟩ := LawfulLanes.and hb hc
  obtain ⟨two, runTwo, htwo⟩ := LawfulLanes.or hab hac
  obtain ⟨m, run, hm⟩ := LawfulLanes.or htwo hbc
  exact ⟨m, by simp [LaneValue.maj, runAB, runAC, runBC, runTwo, run], hm⟩

/-- Values that read the given functions, member by member. -/
abbrev ReadAll (l : List α) (values : List V) (w : Nat) (label : α → Nat → Bool) : Prop :=
  List.Forall₂ (fun a v => Reads v w (label a)) l values

theorem ReadAll.laneCount_eq (read : ReadAll l values w label) : ∀ v ∈ values, laneCount v = w := by
  induction read with
  | nil => simp
  | cons hv _ ih => exact List.forall_mem_cons.2 ⟨hv.laneCount_eq, ih⟩

omit [LawfulLanes V] in
theorem ReadAll.rows_eq (read : ReadAll l values w label) :
    rows w values = (List.range w).map fun k => TruthTable.rowOf (l.map (label · k)) := by
  induction read with
  | nil => simp [rows, TruthTable.rowOf]
  | @cons a v l values hv _ ih =>
    have step : rows w (v :: values)
        = (lanes v).zipWith (fun b row => b.toNat + 2 * row) (rows w values) := rfl
    rw [step, ih, hv, List.zipWith_map, List.zipWith_self]
    rfl

/-- A table is looked up on each lane. -/
theorem ReadAll.lookup {s : α} {t : TruthTable} (read : ReadAll (s :: l) (v :: values) w label)
    (width : t.numVars = (s :: l).length) : ∃ result, LaneValue.lookup t v (v :: values) = .ok result ∧
      Reads result w fun k => t.bit (TruthTable.rowOf ((s :: l).map (label · k))) := by
  have hv : Reads v w (label s) := (List.forall₂_cons.1 read).1
  have row : ∀ r ∈ rows w (v :: values), t.row r = .ok (t.bit r) := by
    intro r hr
    rw [read.rows_eq] at hr
    obtain ⟨k, -, rfl⟩ := List.mem_map.1 hr
    have hlt := TruthTable.rowOf_lt ((s :: l).map (label · k))
    rw [List.length_map, ← width] at hlt
    exact if_pos hlt
  refine ⟨_, ?_, LawfulLanes.withLanes _ hv⟩
  rw [LaneValue.lookup, hv.laneCount_eq, mapM_eq_ok row, read.rows_eq, List.map_map]
  rfl

end lawful

section bool

variable {b : Bool} {w : Nat} {f : Nat → Bool}

theorem reads_bool : Reads b w f ↔ w = 1 ∧ b = f 0 := by
  have lanes : lanes b = [b] := rfl
  rw [Reads, lanes]
  constructor
  · intro h
    have length := congrArg List.length h
    rw [List.length_map, List.length_range, List.length_singleton] at length
    subst length
    exact ⟨rfl, List.head_eq_of_cons_eq h⟩
  · rintro ⟨rfl, rfl⟩
    rfl

instance : LawfulLanes Bool where
  laneCount_eq _ := rfl
  complement hv := by
    obtain ⟨rfl, rfl⟩ := reads_bool.1 hv
    exact reads_bool.2 ⟨rfl, rfl⟩
  and ha hb := by
    obtain ⟨rfl, rfl⟩ := reads_bool.1 ha
    obtain ⟨-, rfl⟩ := reads_bool.1 hb
    exact ⟨_, rfl, reads_bool.2 ⟨rfl, rfl⟩⟩
  or ha hb := by
    obtain ⟨rfl, rfl⟩ := reads_bool.1 ha
    obtain ⟨-, rfl⟩ := reads_bool.1 hb
    exact ⟨_, rfl, reads_bool.2 ⟨rfl, rfl⟩⟩
  withLanes g hv := by
    obtain ⟨rfl, -⟩ := reads_bool.1 hv
    exact reads_bool.2 ⟨rfl, rfl⟩

end bool

theorem map_range_eq_iff {n m : Nat} {f g : Nat → Bool} :
    (List.range n).map f = (List.range m).map g ↔ m = n ∧ ∀ k < n, f k = g k := by
  constructor
  · intro h
    have length := congrArg List.length h
    simp only [List.length_map, List.length_range] at length
    subst length
    exact ⟨rfl, fun k hk => List.map_inj_left.1 h k (List.mem_range.2 hk)⟩
  · rintro ⟨rfl, h⟩
    exact List.map_congr_left fun k hk => h k (List.mem_range.1 hk)

section word

variable {v : Word} {w : Nat} {f : Nat → Bool}

theorem reads_word : Reads v w f ↔ w = wordLanes ∧ ∀ k < wordLanes, v.getLsbD k = f k := map_range_eq_iff

instance : LawfulLanes Word where
  laneCount_eq v := by simp [laneCount, lanes]
  complement hv := by
    obtain ⟨rfl, bits⟩ := reads_word.1 hv
    refine reads_word.2 ⟨rfl, fun k hk => ?_⟩
    rw [← bits k hk]
    exact BitVec.getLsbD_not.trans (by simp [hk])
  and ha hb := by
    obtain ⟨rfl, bitsA⟩ := reads_word.1 ha
    obtain ⟨-, bitsB⟩ := reads_word.1 hb
    exact ⟨_, rfl, reads_word.2 ⟨rfl, fun k hk => by rw [BitVec.getLsbD_and, bitsA k hk, bitsB k hk]⟩⟩
  or ha hb := by
    obtain ⟨rfl, bitsA⟩ := reads_word.1 ha
    obtain ⟨-, bitsB⟩ := reads_word.1 hb
    exact ⟨_, rfl, reads_word.2 ⟨rfl, fun k hk => by rw [BitVec.getLsbD_or, bitsA k hk, bitsB k hk]⟩⟩
  withLanes g hv := by
    obtain ⟨rfl, -⟩ := reads_word.1 hv
    refine reads_word.2 ⟨rfl, fun k hk => ?_⟩
    change ((BitVec.ofBoolListLE ((List.range wordLanes).map g)).setWidth wordLanes).getLsbD k = g k
    rw [BitVec.getLsbD_setWidth, BitVec.getLsbD_ofBoolListLE]
    simp [hk]

end word

section table

variable {t : TruthTable} {w : Nat} {f : Nat → Bool}

theorem reads_table : Reads t w f ↔ w = t.numRows ∧ ∀ r < t.numRows, t.bit r = f r := by
  have lanes : lanes t = (List.range t.numRows).map t.bit := t.toList_eq
  rw [Reads, lanes, map_range_eq_iff]

/-- Tables with as many rows are combined row by row. -/
theorem Reads.zipWith {s t : TruthTable} {g : Nat → Bool} {op : Bool → Bool → Bool}
    {combine : {n : Nat} → BitVec n → BitVec n → BitVec n}
    (bits : ∀ {n : Nat} (x y : BitVec n) (i : Nat),
      (combine x y).getLsbD i = op (x.getLsbD i) (y.getLsbD i))
    (hs : Reads s w f) (ht : Reads t w g) :
    ∃ u, TruthTable.zipWith combine s t = .ok u ∧ Reads u w fun k => op (f k) (g k) := by
  obtain ⟨rfl, bitsS⟩ := reads_table.1 hs
  obtain ⟨rows, bitsT⟩ := reads_table.1 ht
  have vars : t.numVars = s.numVars := Nat.pow_right_injective (Nat.le_refl 2) rows.symm
  refine ⟨_, dif_pos vars, reads_table.2 ⟨rfl, fun r hr => ?_⟩⟩
  have hr : r < s.numRows := hr
  rw [← bitsS r hr, ← bitsT r (rows ▸ hr)]
  simp [TruthTable.bit, bits]

instance : LawfulLanes TruthTable where
  laneCount_eq t := by simp [laneCount, lanes, t.toList_eq]
  complement hv := by
    obtain ⟨rfl, bits⟩ := reads_table.1 hv
    refine reads_table.2 ⟨rfl, fun r hr => ?_⟩
    rw [← bits r hr]
    exact TruthTable.bit_complement hr
  and ha hb := ha.zipWith (fun x y i => BitVec.getLsbD_and) hb
  or ha hb := ha.zipWith (fun x y i => BitVec.getLsbD_or) hb
  withLanes := fun {v w f} g hv => by
    obtain ⟨rfl, -⟩ := reads_table.1 hv
    refine reads_table.2 ⟨rfl, fun r hr => (TruthTable.bit_ofFn hr).trans ?_⟩
    have inRange : r < 2 ^ v.numVars := hr
    simp [TruthTable.numRows, Array.getD_eq_getD_getElem?, inRange]

end table

end LaneValue

end LogicNet
