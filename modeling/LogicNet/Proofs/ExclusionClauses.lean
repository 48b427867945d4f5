import LogicNet.Proofs.HeldCubeLists

/-! # Exclusion clauses

A view with don't-care functions encodes the excluded assignments over variables of its own: variable 0 is
false, and the ones after it are the inputs.  The models of the clauses are the assignments that are not
excluded, and each of these is the beginning of one model.
-/

namespace LogicNet

open LogicNet.Sat Network
open LawfulSink (Allocated)

variable {σ : Type} [ClauseSink σ] [LawfulSink σ] {s s' : σ} {d : Network} {m m' : Nat → Bool}
  {x : List Bool}

namespace Network

/-- The values of the inputs in a model: variable `i + 1` is primary input `i`. -/
def assignmentOf (d : Network) (m : Nat → Bool) : List Bool :=
  (List.range d.numInputs).map fun i => m (i + 1)

/-- The clauses added to a sink have the assignments that are not excluded as models, each of them in one
way, and variable 0 is false in all models. -/
def ExactlyExcluded (d : Network) (s s' : σ) : Prop :=
  ∃ fresh emitted, Emits s s' fresh emitted ∧
    (∀ m, satisfies m emitted = true → m 0 = false ∧ d.excludes (d.assignmentOf m) = .ok false) ∧
    ∀ x : List Bool, x.length = d.numInputs → d.excludes x = .ok false →
      ∃ m, satisfies m emitted = true ∧ d.assignmentOf m = x ∧
        ∀ m', satisfies m' emitted = true → d.assignmentOf m' = x → Agree s' m m'

/-- The literals of the inputs over variables of their own. -/
def ownInputs (d : Network) : List Literal := (List.range d.numInputs).map fun i => .positive (i + 1)

theorem length_ownInputs (d : Network) : d.ownInputs.length = d.numInputs := by
  rw [ownInputs, List.length_map, List.length_range]

theorem values_ownInputs (d : Network) (m : Nat → Bool) : values m d.ownInputs = d.assignmentOf m := by
  simp [values, ownInputs, assignmentOf]

theorem length_assignmentOf (d : Network) (m : Nat → Bool) : (d.assignmentOf m).length = d.numInputs := by
  rw [assignmentOf, List.length_map, List.length_range]

/-- Every assignment of the inputs is that of some model in which variable 0 is false. -/
theorem exists_assignmentOf (length : x.length = d.numInputs) :
    ∃ m, m 0 = false ∧ d.assignmentOf m = x := by
  have nodup : ((List.range d.numInputs).map (· + 1)).Nodup :=
    List.nodup_range.map fun i j h => Nat.succ.inj h
  have count : x.length = ((List.range d.numInputs).map (· + 1)).length := by
    rw [List.length_map, List.length_range, length]
  obtain ⟨m, zero, values⟩ := exists_values (v := 0) nodup (by simp) count
  refine ⟨m, zero, values ▸ ?_⟩
  simp [assignmentOf, Sat.values]

/-- Two models that read the same assignment are the same on the variables up to the inputs. -/
theorem agree_of_assignmentOf (allocated : ∀ v, Allocated s v ↔ v ≤ d.numInputs) (zero : m 0 = m' 0)
    (same : d.assignmentOf m = d.assignmentOf m') : Agree s m m' := by
  intro v hv
  cases v with
  | zero => exact zero
  | succ i =>
    have inputs := List.map_inj_left.1 same
    exact inputs i (List.mem_range.2 ((allocated _).1 hv))

theorem given_ownInputs (allocated : ∀ v, Allocated s v ↔ v ≤ d.numInputs) :
    Given s (.positive 0) d.ownInputs := by
  refine ⟨(allocated 0).2 (Nat.zero_le _), fun l hl => ?_⟩
  obtain ⟨i, hi, rfl⟩ := List.mem_map.1 hl
  exact (allocated _).2 (List.mem_range.1 hi)

/-- Over the variables 0 up to the number of inputs, the excluded assignments are ruled out. -/
theorem encodeOwnExclusion_eq_ok (wf : d.WellFormed) (outputs : d.numOutputs ≠ 0)
    (allocated : ∀ v, Allocated s v ↔ v ≤ d.numInputs) :
    ∃ s', d.encodeOwnExclusion.run s = .ok () s' ∧ d.ExactlyExcluded s s' := by
  let unit := [(Literal.positive 0).negate]
  have inUse : ∀ l ∈ unit, Allocated s l.var := by
    intro l hl
    rw [List.mem_singleton.1 hl]
    exact (given_ownInputs allocated).constantFalse
  have first := Emits.addClause inUse
  have allocated' (v : Nat) : Allocated (ClauseSink.addClause s unit) v ↔ v ≤ d.numInputs := by
    rw [first.allocated, allocated]
    simp
  have given := given_ownInputs allocated'
  obtain ⟨s', fresh, emitted, run, emits, sound, complete, unique⟩ :=
    encodeExclusion_eq_ok wf outputs given d.length_ownInputs
  simp only [values_ownInputs, allows_some_iff wf outputs (d.length_assignmentOf _), eval_positive]
    at sound complete unique
  have holds_iff (m : Nat → Bool) :
      satisfies m ([unit] ++ emitted) = true ↔ m 0 = false ∧ satisfies m emitted = true := by
    rw [satisfies_append, Bool.and_eq_true, satisfies_negate_iff, eval_positive]
  refine ⟨s', run, fresh, [unit] ++ emitted, first.trans emits, fun m holds => ?_, fun x length care => ?_⟩
  · obtain ⟨zero, holds⟩ := (holds_iff m).1 holds
    exact ⟨zero, sound m zero holds⟩
  · obtain ⟨m, zero, rfl⟩ := exists_assignmentOf length
    obtain ⟨model, agree, holds⟩ := complete m zero care
    have zero' : model 0 = false := (agree 0 given.constantFalse).symm.trans zero
    have same : d.assignmentOf model = d.assignmentOf m := by
      rw [← values_ownInputs, ← values_ownInputs, agree.values given.inputs]
    refine ⟨model, (holds_iff model).2 ⟨zero', holds⟩, same, fun m' holds' same' => ?_⟩
    obtain ⟨zero'', holds'⟩ := (holds_iff m').1 holds'
    have agree' := agree_of_assignmentOf allocated' (zero'.trans zero''.symm) (same.trans same'.symm)
    exact unique model m' zero' agree' holds holds'

end Network

open Workspace

variable {w : Workspace} {base dontCares : View}

/-- Where the variables 0 up to the number of inputs are in use, a view with don't-care functions adds
clauses whose models are the assignments that it does not exclude, each in one way, and variable 0 is false in
all of them. -/
theorem Workspace.Holds.exclusion_exact (held : w.Holds (.dontCare base dontCares)) :
    ∃ d, (View.dontCare base dontCares).currentDontCares.run w = .ok d w ∧
      ∀ s : σ, (∀ v, Allocated s v ↔ v ≤ d.numInputs) →
        ∃ s', d.encodeOwnExclusion.run s = .ok () s' ∧ d.ExactlyExcluded s s' := by
  obtain ⟨-, -, d, hd, outputs⟩ := held.stands
  have wf := (held.reachable.sound _ d hd).hashConsed.toWellFormed
  exact ⟨d, View.run_current_eq_ok.2 ⟨hd, rfl⟩,
    fun s allocated => encodeOwnExclusion_eq_ok wf outputs allocated⟩

/-- The list with the one row `1-0 0` over the three inputs of the sample. -/
theorem sample_exclusion_encoded : ∃ dontCares w d r',
    ((View.network 0).readDontCares [10, 10, 10, 10, 49, 45, 48, 32, 48]).run sample
      = .ok (.dontCare (.network 0) dontCares) w ∧
    w.Holds (.dontCare (.network 0) dontCares) ∧
    (View.dontCare (.network 0) dontCares).currentDontCares.run w = .ok d w ∧
    (∀ v, Allocated (⟨4, #[]⟩ : Recorder) v ↔ v ≤ d.numInputs) ∧
    d.encodeOwnExclusion.run (⟨4, #[]⟩ : Recorder) = .ok () r' ∧
    d.ExactlyExcluded (⟨4, #[]⟩ : Recorder) r' := by
  have read : Cube.readList sampleNetwork.numInputs [10, 10, 10, 10, 49, 45, 48, 32, 48]
      = .ok [[some true, none, some false]] := by decide +kernel
  have hnet : sample.networks[(View.network 0).networkId]? = some sampleNetwork := getElem?_sample
  obtain ⟨dontCares, w, d, run, -, fresh, networks, -, adds⟩ := View.readDontCares_run hnet read
  have held := holds_sample.readDontCares run
  obtain ⟨d', current, encoded⟩ := held.exclusion_exact (σ := Recorder)
  obtain ⟨hd', -⟩ := View.run_current_eq_ok.1 current
  rw [networks, fresh, Array.getElem?_push_size] at hd'
  cases hd'
  have count : d.numInputs = 3 := adds.inputs.trans (by decide +kernel)
  have inUse (v : Nat) : Allocated (⟨4, #[]⟩ : Recorder) v ↔ v ≤ d.numInputs := by
    rw [count]
    exact Nat.lt_succ_iff
  obtain ⟨r', encodes, exactly⟩ := encoded ⟨4, #[]⟩ inUse
  exact ⟨dontCares, w, d, r', run, held, current, inUse, encodes, exactly⟩

end LogicNet
