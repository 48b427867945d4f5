import LogicNet.Proofs.Simulation
import LogicNet.Proofs.Workspaces

/-! # Evaluating one gate

A gate can be evaluated on values that are as many as its fanins and have as many lanes as each other, and
on no others.  On every lane the result is the row of the table of the gate that the values take there,
whichever kind of gate and of values it is.
-/

namespace LogicNet

namespace LaneValue

variable {V : Type} [LaneValue V]

/-- Lane `k` of a value, false past the last one. -/
def laneBit (v : V) (k : Nat) : Bool := (lanes v).getD k false

theorem reads_laneBit [LawfulLanes V] (v : V) : Reads v (laneCount v) (laneBit v) := by
  rw [LawfulLanes.laneCount_eq]
  refine List.ext_getElem (by simp) fun k hk hk' => ?_
  simp [laneBit, hk]

theorem Reads.laneBit_eq {v : V} {w k : Nat} {f : Nat → Bool} (hv : Reads v w f) (hk : k < w) :
    laneBit v k = f k := by
  rw [laneBit, hv]
  simp [hk]

end LaneValue

open LaneValue

/-- Values of which one lane can be read, whatever the others are. -/
class ReadableLanes (V : Type) [LaneValue V] : Prop where
  lane_eq_ok (v : V) {k : Nat} : k < laneCount v → lane v k = .ok (laneBit v k)

instance : ReadableLanes Bool where
  lane_eq_ok v k hk := by
    obtain rfl : k = 0 := Nat.lt_one_iff.1 hk
    rfl

instance : ReadableLanes Word where
  lane_eq_ok v k hk := by
    have hk : k < wordLanes := hk
    have bits : Reads v wordLanes v.getLsbD := reads_word.2 ⟨rfl, fun _ _ => rfl⟩
    rw [bits.laneBit_eq hk]
    exact if_pos hk

instance : ReadableLanes TruthTable where
  lane_eq_ok t k hk := by
    have rows : Reads t t.numRows t.bit := reads_table.2 ⟨rfl, fun _ _ => rfl⟩
    rw [rows.laneBit_eq hk]
    exact if_pos hk

namespace Network

section

variable {V : Type} [LaneValue V] {net : Network} {n w : Nat} {values : List V} {cause : NetworkError}
  {g : GateFunction} {fanins : List Signal}

/-- Values that a gate can be evaluated on. -/
structure Fitting (net : Network) (n : Nat) (values : List V) : Prop where
  gate : net.IsGate n
  length : values.length = (net.slots n).length
  width : ∀ u ∈ values, ∀ v ∈ values, laneCount u = laneCount v

/-- Why a node cannot be evaluated, in the order of the checks. -/
inductive Unfit (net : Network) (n : Nat) (values : List V) : NetworkError → Prop where
  | outOfRange (past : net.size ≤ n) : Unfit net n values (.nodeOutOfRange n net.size)
  | notAGate (inRange : n < net.size) (noGate : ¬ net.IsGate n) : Unfit net n values (.notAGate n)
  | arity (gate : net.IsGate n) (differ : values.length ≠ (net.slots n).length) :
      Unfit net n values (.arityMismatch (net.slots n).length values.length)
  | width (gate : net.IsGate n) (length : values.length = (net.slots n).length) {first v : V}
      {before after : List V} (split : values = first :: before ++ v :: after)
      (alike : ∀ u ∈ before, laneCount u = laneCount first) (differ : laneCount v ≠ laneCount first) :
      Unfit net n values (.valueWidthMismatch (laneCount first) (laneCount v))

theorem Unfit.not_fitting (h : net.Unfit n values cause) : ¬ net.Fitting n values := by
  intro fitting
  cases h with
  | outOfRange past => exact Nat.not_lt.2 past fitting.gate.lt_size
  | notAGate _ noGate => exact noGate fitting.gate
  | arity _ differ => exact differ fitting.length
  | width _ _ split _ differ => exact differ (fitting.width _ (by simp [split]) _ (by simp [split]))

/-- The first value that differs in its number of lanes. -/
theorem exists_width_mismatch (h : ¬ ∀ u ∈ values, ∀ v ∈ values, laneCount u = laneCount v) :
    ∃ first before v after, values = first :: before ++ v :: after ∧
      (∀ u ∈ before, laneCount u = laneCount first) ∧ laneCount v ≠ laneCount first := by
  cases values with
  | nil => simp at h
  | cons first rest =>
    cases found : rest.find? (laneCount · ≠ laneCount first) with
    | some v =>
      obtain ⟨differ, before, after, rfl, alike⟩ := List.find?_eq_some_iff_append.1 found
      exact ⟨first, before, v, after, rfl, by simpa using alike, by simpa using differ⟩
    | none =>
      have alike : ∀ v ∈ first :: rest, laneCount v = laneCount first := by simpa using found
      exact absurd (fun u hu v hv => (alike u hu).trans (alike v hv).symm) h

theorem exists_unfit (h : ¬ net.Fitting n values) : ∃ cause, net.Unfit n values cause := by
  by_cases inRange : n < net.size
  swap
  · exact ⟨_, .outOfRange (Nat.not_lt.1 inRange)⟩
  by_cases gate : net.IsGate n
  swap
  · exact ⟨_, .notAGate inRange gate⟩
  by_cases length : values.length = (net.slots n).length
  swap
  · exact ⟨_, .arity gate length⟩
  obtain ⟨first, before, v, after, split, alike, differ⟩ :=
    exists_width_mismatch fun width => h ⟨gate, length, width⟩
  exact ⟨_, .width gate length split alike differ⟩

theorem Unfit.check (h : net.Unfit n values cause) : net.checkFaninValues n values = .error cause := by
  unfold checkFaninValues
  cases h with
  | outOfRange past => rw [checkGate_of_size_le past, error_bind]
  | notAGate inRange noGate => rw [checkGate_of_not_isGate inRange noGate, error_bind]
  | arity gate differ =>
    obtain ⟨g, fanins, hkind⟩ := gate
    rw [slots_of_kind? hkind] at differ ⊢
    rw [checkGate_eq_ok hkind, ok_bind, if_pos differ]
    rfl
  | @width gate length first v before after split alike differ =>
    obtain ⟨g, fanins, hkind⟩ := gate
    rw [slots_of_kind? hkind] at length
    rw [checkGate_eq_ok hkind, ok_bind, if_neg (not_not.2 length)]
    rw [split]
    refine forM_eq_error (fun u hu => if_neg (not_not.2 (alike u hu))) ?_
    exact if_pos differ

theorem Unfit.compute (h : net.Unfit n values cause) : net.compute n values = .error (.refused cause) := by
  rw [Network.compute, h.check, lift_error_refusal]
  rfl

/-- The operands of a gate and what their lanes are. -/
theorem readAll_zip [LawfulLanes V] (width : ∀ v ∈ values, laneCount v = w) :
    ReadAll (fanins.zip values) (fanins.zipWith (fun s v => complementIf v s.complemented) values) w
      fun a k => laneBit a.2 k ^^ a.1.complemented := by
  have pairs : fanins.zipWith (fun s v => complementIf v s.complemented) values
      = (fanins.zip values).map fun a => complementIf a.2 a.1.complemented := by
    rw [List.map_zip_eq_zipWith]
    rfl
  rw [pairs]
  refine List.forall₂_map_right_iff.2 (List.forall₂_same.2 fun a ha => ?_)
  have read := reads_laneBit a.2
  rw [width a.2 (List.of_mem_zip ha).2] at read
  exact read.complementIf a.1.complemented

/-- The row that the values take on a lane: bit `j` is what value `j` has there, negated where fanin `j` is
complemented. -/
def RowOn (net : Network) (n : Nat) (values : List V) (k row : Nat) : Prop :=
  ∀ j s v, (net.slots n)[j]? = some s → values[j]? = some v →
    ∃ b, lane v k = .ok b ∧ row.testBit j = (b ^^ s.complemented)

/-- The result has as many lanes as the values, and on each of them the row of the table that they take. -/
structure LooksUp (net : Network) (n : Nat) (values : List V) (t : TruthTable) (result : V) : Prop where
  numVars : t.numVars = values.length
  laneCount : ∀ v ∈ values, laneCount v = laneCount result
  lane : ∀ k < LaneValue.laneCount result, ∃ row < t.numRows, net.RowOn n values k row ∧
    lane result k = .ok (t.bit row)

variable [ReadableLanes V]

theorem rowOn_rowOf (hkind : net.kind? n = some (.gate g fanins)) (width : ∀ v ∈ values, laneCount v = w)
    {k : Nat} (hk : k < w) :
    net.RowOn n values k
      (TruthTable.rowOf ((fanins.zip values).map fun a => laneBit a.2 k ^^ a.1.complemented)) := by
  intro j s v hs hv
  rw [slots_of_kind? hkind] at hs
  have pair : (fanins.zip values)[j]? = some (s, v) := List.getElem?_zip_eq_some.2 ⟨hs, hv⟩
  refine ⟨laneBit v k, ReadableLanes.lane_eq_ok v ?_, ?_⟩
  · rw [width v (List.mem_of_getElem? hv)]
    exact hk
  · rw [TruthTable.testBit_rowOf, List.getD_eq_getElem?_getD, List.getElem?_map, pair]
    rfl

variable [LawfulLanes V]

/-- Values that fit are looked up in the table of the gate, whichever way the gate is evaluated. -/
theorem Fitting.compute (fitting : net.Fitting n values) (wf : net.WellFormed) :
    ∃ t result, net.nodeFunction n = .ok t ∧ net.compute n values = .ok result ∧
      net.LooksUp n values t result := by
  obtain ⟨g, fanins, hkind⟩ := fitting.gate
  have length := fitting.length
  rw [slots_of_kind? hkind] at length
  have fits := wf.fits n g fanins hkind
  obtain ⟨w, width⟩ : ∃ w, ∀ v ∈ values, LaneValue.laneCount v = w := by
    cases values with
    | nil => exact ⟨0, by simp⟩
    | cons first rest => exact ⟨_, fun v hv => fitting.width v hv first List.mem_cons_self⟩
  have pairs : (fanins.zip values).length = fanins.length := by
    rw [List.length_zip, length, Nat.min_self]
  obtain ⟨t, ht, hvars⟩ := FunctionCache.exists_tableOf fits.arity
  obtain ⟨result, run, read⟩ := evaluate_of_operands (pairs ▸ fits.arity)
    (List.ne_nil_of_length_pos (pairs ▸ List.length_pos_iff.2 fits.nonempty)) (readAll_zip width)
  refine ⟨t, result, (nodeFunction_of_kind? hkind).trans ht, ?_, ⟨hvars.trans length.symm, ?_, ?_⟩⟩
  · rw [compute_eq_evaluate hkind length width, run]
    rfl
  · exact fun v hv => (width v hv).trans read.laneCount_eq.symm
  · intro k hk
    have inRange : k < w := read.laneCount_eq ▸ hk
    refine ⟨_, ?_, rowOn_rowOf hkind width inRange, ?_⟩
    · have below := TruthTable.rowOf_lt
        ((fanins.zip values).map fun a => laneBit a.2 k ^^ a.1.complemented)
      rwa [List.length_map, pairs, ← hvars] at below
    · rw [ReadableLanes.lane_eq_ok result hk, read.laneBit_eq inRange]
      exact congrArg Except.ok (GateFunction.value_eq_bit ht (by rw [List.length_map, pairs, hvars]))

end

/-- Evaluating a node never fails otherwise than by a refusal.  It is refused exactly for values that do not
fit, with the first of the causes, and gives the row of the function of the node on every lane else. -/
structure ComputesExactly (V : Type) [LaneValue V] (net : Network) (n : Nat) : Prop where
  refused : ∀ (values : List V) e,
    net.compute n values = .error e ↔ ∃ cause, e = .refused cause ∧ net.Unfit n values cause
  unfit : ∀ values : List V, (∃ cause, net.Unfit n values cause) ↔ ¬ net.Fitting n values
  computed : ∀ (values : List V) result, net.compute n values = .ok result →
    ∃ t, net.nodeFunction n = .ok t ∧ net.LooksUp n values t result

theorem WellFormed.computesExactly {V : Type} [LaneValue V] [LawfulLanes V] [ReadableLanes V]
    {net : Network} (wf : net.WellFormed) (n : Nat) : net.ComputesExactly V n where
  refused values e := by
    constructor
    · intro run
      have misfit : ¬ net.Fitting n values := fun fitting => by
        obtain ⟨_, result, -, run', -⟩ := fitting.compute wf
        cases run.symm.trans run'
      obtain ⟨cause, unfit⟩ := exists_unfit misfit
      cases run.symm.trans unfit.compute
      exact ⟨cause, rfl, unfit⟩
    · rintro ⟨cause, rfl, unfit⟩
      exact unfit.compute
  unfit values := ⟨fun ⟨_, unfit⟩ => unfit.not_fitting, exists_unfit⟩
  computed values result run := by
    have fitting : net.Fitting n values := by
      by_contra misfit
      obtain ⟨cause, unfit⟩ := exists_unfit misfit
      cases run.symm.trans unfit.compute
    obtain ⟨t, result', function, run', looksUp⟩ := fitting.compute wf
    cases run.symm.trans run'
    exact ⟨t, function, looksUp⟩

end Network

open Network

/-- Nodes of networks of any family are evaluated exactly, on Booleans, on words and on tables. -/
theorem Workspace.Reachable.compute_exact {w : Workspace} (reachable : w.Reachable) {id : Nat}
    {net : Network} (hnet : w.networks[id]? = some net) (n : Nat) :
    net.ComputesExactly Bool n ∧ net.ComputesExactly Word n ∧ net.ComputesExactly TruthTable n := by
  have wf : net.WellFormed := (reachable.sound id net hnet).hashConsed.toWellFormed
  exact ⟨wf.computesExactly n, wf.computesExactly n, wf.computesExactly n⟩

open Workspace in
/-- A gate of the sample, which has a result on three Booleans. -/
theorem sample_compute_exact : sample.Reachable ∧ sample.networks[0]? = some sampleNetwork ∧
    (∃ result, sampleNetwork.compute 4 [true, true, false] = .ok result) ∧
    sampleNetwork.ComputesExactly Bool 4 ∧ sampleNetwork.ComputesExactly Word 4 ∧
    sampleNetwork.ComputesExactly TruthTable 4 :=
  ⟨reachable_sample, getElem?_sample, ⟨false, by decide +kernel⟩,
    reachable_sample.compute_exact getElem?_sample 4⟩

end LogicNet
