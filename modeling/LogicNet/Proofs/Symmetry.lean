import LogicNet.Proofs.GateEvaluation
import Mathlib.Data.Bool.Count
import Mathlib.Data.Fin.Tuple.Sort

/-! # Symmetric tables

A table whose value depends on the number of true variables alone keeps its values under all permutations of
the variables, and no other table does.  So the children of a gate with such a table may be sorted before the
gate is looked up.
-/

namespace LogicNet

namespace TruthTable

variable {n i : Nat}

/-- Permutations of the variables permute the rows: in the new row, variable `j` has the value that variable
`σ j` has in the given one. -/
def permuteRow (σ : Equiv.Perm (Fin n)) (i : Nat) : Nat := rowOf (List.ofFn fun j => i.testBit (σ j))

theorem rowOf_ofFn_testBit (h : i < 2 ^ n) : rowOf (List.ofFn fun j : Fin n => i.testBit j) = i := by
  have bits : List.ofFn (fun j : Fin n => i.testBit j) = (List.range n).map i.testBit :=
    List.ext_getElem (by simp) fun j hj hj' => by simp
  rw [bits, rowOf_testBits h]

theorem permuteRow_rowOf (σ : Equiv.Perm (Fin n)) (row : Fin n → Bool) :
    permuteRow σ (rowOf (List.ofFn row)) = rowOf (List.ofFn (row ∘ σ)) := by
  unfold permuteRow
  congr 2
  funext j
  rw [testBit_rowOf, List.getD_eq_getElem?_getD, List.getElem?_ofFn]
  simp

/-- Bits of which as many are true are permutations of each other, as sorted they are the same. -/
theorem exists_perm_of_count {row row' : Fin n → Bool}
    (count : (List.ofFn row).count true = (List.ofFn row').count true) :
    ∃ σ : Equiv.Perm (Fin n), row' = row ∘ σ := by
  have perm : (List.ofFn row).Perm (List.ofFn row') := by
    refine List.perm_iff_count.2 fun b => ?_
    cases b with
    | true => exact count
    | false =>
      have split := List.count_not_add_count (List.ofFn row) true
      have split' := List.count_not_add_count (List.ofFn row') true
      rw [List.length_ofFn, Bool.not_true] at split split'
      omega
  have sorted : row ∘ Tuple.sort row = row' ∘ Tuple.sort row' := by
    have same := (((Tuple.sort row).ofFn_comp_perm row).trans perm).trans
      ((Tuple.sort row').ofFn_comp_perm row').symm
    exact List.ofFn_injective (same.eq_of_pairwise' (Tuple.monotone_sort row).sortedLE_ofFn.pairwise
      (Tuple.monotone_sort row').sortedLE_ofFn.pairwise)
  refine ⟨(Tuple.sort row')⁻¹.trans (Tuple.sort row), funext fun j => ?_⟩
  have at_j := congrFun sorted ((Tuple.sort row')⁻¹ j)
  simpa using at_j.symm

/-- A table is symmetric exactly if every permutation of the variables keeps its values. -/
theorem isSymmetric_iff_permuteRow (t : TruthTable) : t.isSymmetric = true ↔
    ∀ (σ : Equiv.Perm (Fin t.numVars)), ∀ i < t.numRows, t.bit (permuteRow σ i) = t.bit i := by
  rw [isSymmetric_iff_countsOnly]
  constructor
  · intro counts σ i hi
    have perm := σ.ofFn_comp_perm fun j : Fin t.numVars => i.testBit j
    have same := counts _ _ (by simp) (by simp) (perm.count_eq true)
    rwa [rowOf_ofFn_testBit hi] at same
  · intro invariant bits bits' length length' count
    obtain ⟨row, rfl⟩ : ∃ row : Fin t.numVars → Bool, bits = List.ofFn row :=
      ⟨_, (List.ofFn_get bits).symm.trans (List.ofFn_congr length _)⟩
    obtain ⟨row', rfl⟩ : ∃ row' : Fin t.numVars → Bool, bits' = List.ofFn row' :=
      ⟨_, (List.ofFn_get bits').symm.trans (List.ofFn_congr length' _)⟩
    obtain ⟨σ, rfl⟩ := exists_perm_of_count count
    have inRange := rowOf_lt (List.ofFn row)
    rw [List.length_ofFn] at inRange
    rw [← permuteRow_rowOf, invariant σ _ inRange]

end TruthTable

namespace FunctionCache

variable {functions : FunctionCache} {f : FunctionLiteral} {t : TruthTable} {children : List Signal}

/-- Children that are sorted for the key of a gate give the value that they give as they are. -/
structure KeepsValue (functions : FunctionCache) (f : FunctionLiteral) (t : TruthTable)
    (children : List Signal) : Prop where
  key : Canonical.ofTable functions f children = .ok (.gate ⟨.table f, Signal.sort children⟩ false)
  row : ∀ v : Nat → Bool, t.bit (TruthTable.rowOf ((Signal.sort children).map (Signal.value v)))
    = t.bit (TruthTable.rowOf (children.map (Signal.value v)))
  evaluate : ∀ v : Nat → Bool, children ≠ [] →
    Network.evaluate functions (.table f) (Signal.sort children) ((Signal.sort children).map (v ·.node))
        = .ok (t.bit (TruthTable.rowOf (children.map (Signal.value v)))) ∧
    Network.evaluate functions (.table f) children (children.map (v ·.node))
        = .ok (t.bit (TruthTable.rowOf (children.map (Signal.value v))))

/-- On Booleans a cached table is evaluated to the row that the children take. -/
theorem evaluate_table (ht : functions.get f = .ok t) (length : children.length = t.numVars)
    (nonempty : children ≠ []) (v : Nat → Bool) :
    Network.evaluate functions (.table f) children (children.map (v ·.node))
      = .ok (t.bit (TruthTable.rowOf (children.map (Signal.value v)))) := by
  have arity : functions.arity? (.table f) = some children.length := arity?_table.2 ⟨t, ht, length.symm⟩
  have read : LaneValue.ReadAll children (children.map (v ·.node)) 1 fun s _ => v s.node :=
    List.forall₂_map_right_iff.2 (List.forall₂_same.2 fun s _ => LaneValue.reads_bool.2 ⟨rfl, rfl⟩)
  obtain ⟨b, run, hb⟩ := Network.evaluate_eq_ok arity nonempty read
  rw [run, (LaneValue.reads_bool.1 hb).2, GateFunction.value, ht]

theorem WellFormed.keepsValue (wf : functions.WellFormed) (ht : functions.get f = .ok t)
    (length : children.length = t.numVars) (symmetric : t.isSymmetric = true) :
    functions.KeepsValue f t children := by
  have perm := Signal.sort_perm children
  have row (v : Nat → Bool) : t.bit (TruthTable.rowOf ((Signal.sort children).map (Signal.value v)))
      = t.bit (TruthTable.rowOf (children.map (Signal.value v))) :=
    TruthTable.bit_rowOf_of_perm symmetric (by rw [List.length_map, perm.length_eq, length]) (perm.map _)
  refine ⟨?_, row, fun v nonempty => ⟨?_, evaluate_table ht length nonempty v⟩⟩
  · rw [Canonical.ofTable, wf.isSymmetric_of_get ht, symmetric]
    rfl
  · have nonempty' : Signal.sort children ≠ [] := fun none => nonempty (none ▸ perm).nil_eq.symm
    rw [evaluate_table ht (perm.length_eq.trans length) nonempty' v, row]

end FunctionCache

open TruthTable

/-- The test for symmetry is exact: it finds the tables whose values no permutation of the variables changes.
So a network may look gates up by their sorted children where the test says so: a cached table that is said to
be symmetric is evaluated over any signals, as many as it has variables, to what it is evaluated to over the
sorted signals that make the key. -/
theorem symmetry_exact :
    (∀ t : TruthTable, t.isSymmetric = true ↔
      ∀ (σ : Equiv.Perm (Fin t.numVars)), ∀ i < t.numRows, t.bit (permuteRow σ i) = t.bit i) ∧
    ∀ (w : Workspace) (id : Nat) (net : Network), w.Reachable → w.networks[id]? = some net →
      (∀ n f fanins, net.kind? n = some (.gate (.table f) fanins) →
        fanins ≠ [] ∧ ∃ t, net.functions.get f = .ok t ∧ fanins.length = t.numVars) ∧
      ∀ f t children, net.functions.get f = .ok t → children.length = t.numVars →
        net.functions.isSymmetric f = .ok t.isSymmetric ∧
        (t.isSymmetric = true → net.functions.KeepsValue f t children) := by
  refine ⟨isSymmetric_iff_permuteRow, fun w id net hw hnet => ⟨fun n f fanins hkind => ?_,
    fun f t children ht length => ⟨?_, fun symmetric => ?_⟩⟩⟩
  all_goals have wf := (hw.sound id net hnet).hashConsed.toWellFormed
  · have fits := wf.fits n _ fanins hkind
    obtain ⟨t, ht, length⟩ := FunctionCache.arity?_table.1 fits.arity
    exact ⟨fits.nonempty, t, ht, length.symm⟩
  · exact wf.functions.isSymmetric_of_get ht
  · exact wf.functions.keepsValue ht length symmetric

open Workspace in
/-- The majority of three inputs is made a gate, with the last input first. -/
theorem sample_symmetry : ∃ (w : Workspace) (net : Network) (f : FunctionLiteral) (fanins : List Signal),
    w.Reachable ∧ w.networks[0]? = some net ∧ net.kind? 5 = some (.gate (.table f) fanins) ∧
    fanins = [⟨2, false⟩, ⟨3, false⟩, ⟨4, false⟩] ∧
    net.functions.KeepsValue f (.word 3 0xe8) [⟨4, false⟩, ⟨2, false⟩, ⟨3, false⟩] := by
  let v := View.network 0
  have done : (Workspace.empty.run? [.make .klut, .call v .input, .call v .input, .call v .input,
      .call v (.table [4, 2, 3] (.word 3 0xe8))]).any (fun w => w.networks[0]?.any fun net =>
        decide (net.kind? 5
          = some (.gate (.table ⟨3, false⟩) [⟨2, false⟩, ⟨3, false⟩, ⟨4, false⟩]) ∧
        net.functions.get ⟨3, false⟩ = .ok (.word 3 0xe8))) = true := by
    decide +kernel
  obtain ⟨w, run, ends⟩ := (Option.any_eq_true _ _).1 done
  obtain ⟨net, hnet, ends⟩ := (Option.any_eq_true _ _).1 ends
  obtain ⟨hkind, ht⟩ := of_decide_eq_true ends
  have hw : w.Reachable := .of_run? .empty run
  obtain ⟨-, cached⟩ := symmetry_exact.2 w 0 net hw hnet
  exact ⟨w, net, _, _, hw, hnet, hkind, rfl, (cached _ _ _ ht rfl).2 (by decide +kernel)⟩

end LogicNet
