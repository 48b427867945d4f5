import LogicNet.Proofs.DontCareShape

/-! # Functions of covers

The output that is made for a list of cubes is true exactly where none of them covers the new inputs, in each
family, whatever gates are shared or folded on the way.  So the assignments that a cube list excludes are
those that none of its cubes covers.
-/

namespace LogicNet

open Network Workspace

namespace Network

variable {d : Network} {n : Nat} {cubes : List Cube}

theorem map_range_ofPattern (x : List Bool) : (List.range x.length).map (ofPattern x) = x := by
  refine List.ext_getElem (by simp) fun i hi hi' => ?_
  simp [ofPattern, hi']

/-- The complement of a cover excludes the assignments that no cube covers. -/
theorem AddsComplement.excludes {family : Family} (h : AddsComplement (.empty family) n cubes d)
    (wf : d.WellFormed) {x : List Bool} (length : x.length = n) :
    ∃ excluded, d.excludes x = .ok excluded ∧
      (excluded = true ↔ ∀ cube ∈ cubes, ¬ cube.Covers x) := by
  have count : x.length = d.numInputs := length.trans (h.inputs.trans (Nat.zero_add n)).symm
  have some : d.numOutputs ≠ 0 := h.outputs ▸ Nat.succ_ne_zero _
  obtain ⟨out, rest, values, excluded⟩ := excludes_eq_ok wf some count
  obtain ⟨value, values', uncovered⟩ := h.values (ofPattern x)
  have pattern : ((List.range n).map fun i => ofPattern x ((empty family).numInputs + i)) = x := by
    have start : (empty family).numInputs = 0 := rfl
    simp only [start, Nat.zero_add, ← length, map_range_ofPattern]
  cases values.symm.trans values'
  rw [pattern] at uncovered
  exact ⟨out, excluded, uncovered⟩

end Network

variable {w : Workspace} {v base : View} {net : Network} {bytes : List UInt8}

namespace View

/-- A cube list that cannot be read leaves the workspace as it is. -/
theorem readDontCares_run_error {cause : NetworkError} (hnet : w.networks[base.networkId]? = some net)
    (read : Cube.readList net.numInputs bytes = .error cause) :
    (base.readDontCares bytes).run w = .error (.refused cause) w := by
  rw [readDontCares, Edit.run_bind_ok (run_current_eq_ok.2 ⟨hnet, rfl⟩), read]
  rfl

end View

/-- Making the complement of a cover adds inputs and an output and keeps the functions of all other outputs;
the new output is true where no cube covers the new inputs.  A cube list that can be read thus excludes the
assignments that none of its cubes covers, and one that cannot be read changes nothing. -/
theorem Workspace.Reachable.cover_functions (hw : w.Reachable)
    (hnet : w.networks[v.networkId]? = some net) :
    (∀ n cubes, cubes ≠ [] → ∃ output w' net', (v.create (createCoverComplement n cubes)).run w
        = .ok output w' ∧ w'.networks = w.networks.setIfInBounds v.networkId net' ∧
      AddsComplement net n cubes net') ∧
    ∀ bytes, (∀ cause, Cube.readList net.numInputs bytes = .error cause →
        (v.readDontCares bytes).run w = .error (.refused cause) w) ∧
      ∀ cubes, Cube.readList net.numInputs bytes = .ok cubes → ∃ v' w' d,
        (v.readDontCares bytes).run w = .ok v' w' ∧ v'.currentDontCares.run w' = .ok d w' ∧
        ∀ x : List Bool, x.length = net.numInputs → ∃ excluded, d.excludes x = .ok excluded ∧
          (excluded = true ↔ ∀ cube ∈ cubes, ¬ cube.Covers x) := by
  have consed := (hw.sound _ net hnet).hashConsed
  refine ⟨fun n cubes nonempty => ?_, fun bytes => ⟨fun cause read => ?_, fun cubes read => ?_⟩⟩
  · obtain ⟨output, net', run, -, adds⟩ := consed.addsComplement n nonempty
    obtain ⟨indexes, created⟩ := View.create_run hnet run
    exact ⟨output, _, net', created, rfl, adds⟩
  · exact View.readDontCares_run_error hnet read
  · obtain ⟨dontCares, w', d, run, -, fresh, networks, consed, adds⟩ := View.readDontCares_run hnet read
    have hd : w'.networks[dontCares.networkId]? = some d := by
      rw [networks, fresh, Array.getElem?_push_size]
    exact ⟨_, w', d, run, View.run_current_eq_ok.2 ⟨hd, rfl⟩,
      fun x length => adds.excludes consed.toWellFormed length⟩

/-- The list with the one row `1-0 0` over the inputs of the sample, and two cubes of other lengths. -/
theorem sample_cubes_read :
    (∃ output w' net', ((View.network 0).create (createCoverComplement 3 [[some true], []])).run sample
      = .ok output w' ∧ w'.networks = sample.networks.setIfInBounds 0 net' ∧
        AddsComplement sampleNetwork 3 [[some true], []] net') ∧
    ∃ v' w' d, ((View.network 0).readDontCares [10, 10, 10, 10, 49, 45, 48, 32, 48]).run sample
        = .ok v' w' ∧ v'.currentDontCares.run w' = .ok d w' ∧
      d.excludes [true, true, false] = .ok false ∧ d.excludes [false, true, false] = .ok true := by
  have count : sampleNetwork.numInputs = 3 := by decide +kernel
  have read : Cube.readList sampleNetwork.numInputs [10, 10, 10, 10, 49, 45, 48, 32, 48]
      = .ok [[some true, none, some false]] := by decide +kernel
  obtain ⟨adds, reads⟩ := reachable_sample.cover_functions (v := .network 0) getElem?_sample
  obtain ⟨-, accepted⟩ := reads [10, 10, 10, 10, 49, 45, 48, 32, 48]
  obtain ⟨v', w', d, run, current, excludes⟩ := accepted _ read
  obtain ⟨covered, excludesCovered, coveredIff⟩ := excludes [true, true, false] count.symm
  obtain ⟨free, excludesFree, freeIff⟩ := excludes [false, true, false] count.symm
  obtain rfl : covered = false := Bool.eq_false_iff.2 fun h => absurd (coveredIff.1 h) (by decide)
  obtain rfl : free = true := freeIff.2 (by decide)
  exact ⟨adds 3 [[some true], []] (by decide), v', w', d, run, current, excludesCovered, excludesFree⟩

end LogicNet
