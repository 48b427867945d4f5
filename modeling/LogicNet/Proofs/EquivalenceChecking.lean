import LogicNet.Proofs.HeldViews
import LogicNet.Proofs.Miter

/-! # Equivalence checking

With an exact solver, two networks are proved equivalent exactly if simulation gives them the same outputs
on every assignment, and a counterexample is an assignment on which some output differs.  With don't-care
functions this is so among the assignments that are not excluded.
-/

namespace LogicNet

open LogicNet.Sat
open Workspace

namespace Network

variable {a b d : Network} {pattern : List Bool} {solver : Solver}

/-- Simulation gives two networks the same outputs. -/
def AgreeOn (a b : Network) (pattern : List Bool) : Prop :=
  ∃ outputs, a.simulate (.ofPattern pattern) = .ok outputs ∧ b.simulate (.ofPattern pattern) = .ok outputs

/-- Simulation gives some output of two networks different values. -/
def DifferOn (a b : Network) (pattern : List Bool) : Prop :=
  ∃ (outputs outputs' : List Bool) (i : Nat) (value : Bool),
    a.simulate (.ofPattern pattern) = .ok outputs ∧ b.simulate (.ofPattern pattern) = .ok outputs' ∧
    outputs[i]? = some value ∧ outputs'[i]? = some !value

theorem exists_getElem?_ne {l l' : List Bool} (length : l.length = l'.length) (h : l ≠ l') :
    ∃ (i : Nat) (value : Bool), l[i]? = some value ∧ l'[i]? = some !value := by
  obtain ⟨i, hi, hi', hne⟩ : ∃ (i : Nat) (hi : i < l.length) (hi' : i < l'.length), l[i] ≠ l'[i] := by
    by_contra none
    push Not at none
    exact h (List.ext_getElem length none)
  refine ⟨i, l[i], List.getElem?_eq_getElem hi, ?_⟩
  rw [List.getElem?_eq_getElem hi']
  exact congrArg some (Bool.eq_not_of_ne hne.symm)

section

variable (wfA : a.WellFormed) (wfB : b.WellFormed) (hinputs : a.numInputs = b.numInputs)
  (length : pattern.length = a.numInputs)

include wfA wfB hinputs length

theorem agreeOn_iff :
    a.AgreeOn b pattern ↔ a.outputValues (ofPattern pattern) = b.outputValues (ofPattern pattern) := by
  rw [AgreeOn, wfA.simulate_eq_ok length, wfB.simulate_eq_ok (length.trans hinputs)]
  constructor
  · rintro ⟨outputs, first, second⟩
    exact (Except.ok.inj first).trans (Except.ok.inj second).symm
  · intro same
    exact ⟨_, rfl, by rw [same]⟩

theorem differOn_of_ne (houtputs : a.numOutputs = b.numOutputs)
    (h : a.outputValues (ofPattern pattern) ≠ b.outputValues (ofPattern pattern)) :
    a.DifferOn b pattern := by
  have lengths : (a.outputValues (ofPattern pattern)).length
      = (b.outputValues (ofPattern pattern)).length := by
    rw [outputValues, outputValues, List.length_map, List.length_map]
    exact houtputs
  obtain ⟨i, value, first, second⟩ := exists_getElem?_ne lengths h
  exact ⟨_, _, i, value, wfA.simulate_eq_ok length, wfB.simulate_eq_ok (length.trans hinputs), first,
    second⟩

end

theorem excludes_eq_ok (wf : d.WellFormed) (outputs : d.numOutputs ≠ 0)
    (length : pattern.length = d.numInputs) : ∃ out rest,
      d.outputValues (ofPattern pattern) = out :: rest ∧ d.excludes pattern = .ok out := by
  have hlength : (d.outputValues (ofPattern pattern)).length = d.numOutputs := List.length_map _
  obtain ⟨out, rest, hvalues⟩ := List.exists_cons_of_length_pos
    (hlength.symm ▸ Nat.pos_of_ne_zero outputs)
  refine ⟨out, rest, hvalues, ?_⟩
  unfold excludes
  rw [if_neg (not_not.2 length), wf.simulate_eq_ok length, hvalues]
  rfl

/-- An assignment is allowed if it is not excluded. -/
theorem allows_some_iff (wf : d.WellFormed) (outputs : d.numOutputs ≠ 0)
    (length : pattern.length = d.numInputs) :
    Allows (some d) pattern ↔ d.excludes pattern = .ok false := by
  obtain ⟨out, rest, hvalues, excluded⟩ := excludes_eq_ok wf outputs length
  simp [Allows, excluded, hvalues]

theorem checkInterfaces_eq_ok (hinputs : a.numInputs = b.numInputs)
    (houtputs : a.numOutputs = b.numOutputs) : a.checkInterfaces b = .ok () := by
  simp [checkInterfaces, hinputs, houtputs]

/-- The verdict on two networks of one interface, among the allowed assignments. -/
theorem solveMiter_verdict {dontCares : Option Network} (exact : solver.Exact) (wfA : a.WellFormed)
    (wfB : b.WellFormed) (hinputs : a.numInputs = b.numInputs) (houtputs : a.numOutputs = b.numOutputs)
    (serves : ∀ d ∈ dontCares, d.Serves a) : ∃ verdict, solveMiter solver a b dontCares = .ok verdict ∧
      (verdict = .proved ↔ ∀ pattern, pattern.length = a.numInputs → Allows dontCares pattern →
        a.AgreeOn b pattern) ∧
      ∀ pattern, verdict = .disproved pattern →
        pattern.length = a.numInputs ∧ Allows dontCares pattern ∧ a.DifferOn b pattern := by
  obtain ⟨verdict, ok, proved, disproved⟩ :=
    solveMiter_eq_ok exact wfA wfB hinputs houtputs serves
  refine ⟨verdict, ok, proved.trans (forall₂_congr fun pattern length => ?_), fun pattern h => ?_⟩
  · rw [agreeOn_iff wfA wfB hinputs length, Distinguishes]
    tauto
  · obtain ⟨length, differ, allowed⟩ := disproved pattern h
    exact ⟨length, allowed, differOn_of_ne wfA wfB hinputs length houtputs differ⟩

end Network

open Network

variable {w : Workspace} {u v base dontCares : View} {a b net other d : Network} {solver : Solver}

/-- Interfaces that differ are refused.  Otherwise there is a verdict: equivalence is proved exactly if
the networks agree on all assignments, and a counterexample is an assignment on which they differ. -/
theorem Workspace.Reachable.equivalence_exact (hw : w.Reachable)
    (ha : w.networks[v.networkId]? = some a) (hb : w.networks[u.networkId]? = some b)
    (exact : solver.Exact) :
    (proveEquivalenceBy solver a b
        = .error (.refused (.inputCountMismatch a.numInputs b.numInputs))
      ↔ a.numInputs ≠ b.numInputs) ∧
    (proveEquivalenceBy solver a b
        = .error (.refused (.outputCountMismatch a.numOutputs b.numOutputs))
      ↔ a.numInputs = b.numInputs ∧ a.numOutputs ≠ b.numOutputs) ∧
    (a.numInputs = b.numInputs → a.numOutputs = b.numOutputs →
      ∃ verdict, proveEquivalenceBy solver a b = .ok verdict ∧
        (verdict = .proved ↔ ∀ pattern, pattern.length = a.numInputs → a.AgreeOn b pattern) ∧
        ∀ pattern, verdict = .disproved pattern →
          pattern.length = a.numInputs ∧ a.DifferOn b pattern) := by
  have wfA := (hw.sound _ a ha).hashConsed.toWellFormed
  have wfB := (hw.sound _ b hb).hashConsed.toWellFormed
  unfold proveEquivalenceBy
  by_cases hinputs : a.numInputs = b.numInputs
  · by_cases houtputs : a.numOutputs = b.numOutputs
    · have noDontCares : ∀ d ∈ (none : Option Network), d.Serves a := fun d hd => by cases hd
      obtain ⟨verdict, ok, proved, disproved⟩ :=
        solveMiter_verdict exact wfA wfB hinputs houtputs noDontCares
      rw [checkInterfaces_eq_ok hinputs houtputs, lift_ok_refusal, ok_bind, ok]
      refine ⟨by simp [hinputs], by simp [houtputs], fun _ _ => ⟨verdict, rfl, ?_, fun pattern h => ?_⟩⟩
      · refine proved.trans (forall₂_congr fun pattern _ => forall_prop_of_true ?_)
        intro d hd
        cases hd
      · obtain ⟨length, -, differ⟩ := disproved pattern h
        exact ⟨length, differ⟩
    · have refused : a.checkInterfaces b
          = .error (.outputCountMismatch a.numOutputs b.numOutputs) := by
        simp [checkInterfaces, hinputs, houtputs]
      rw [refused, lift_error_refusal, error_bind]
      exact ⟨by simp [hinputs], by simp [hinputs, houtputs], fun _ h => absurd h houtputs⟩
  · have refused : a.checkInterfaces b = .error (.inputCountMismatch a.numInputs b.numInputs) := by
      simp [checkInterfaces, hinputs]
    rw [refused, lift_error_refusal, error_bind]
    exact ⟨by simp [hinputs], by simp [hinputs], fun h => absurd h hinputs⟩

/-- The sample is proved equivalent to itself. -/
theorem sample_equivalent : sample.Reachable ∧ sample.networks[0]? = some sampleNetwork ∧
    searchSolver.Exact ∧ proveEquivalenceBy searchSolver sampleNetwork sampleNetwork = .ok .proved := by
  obtain ⟨-, -, decided⟩ := reachable_sample.equivalence_exact (v := .network 0) (u := .network 0)
    getElem?_sample getElem?_sample exact_searchSolver
  obtain ⟨verdict, ok, proved, -⟩ := decided rfl rfl
  have wf := (reachable_sample.sound 0 _ getElem?_sample).hashConsed.toWellFormed
  have verdictProved : verdict = .proved :=
    proved.2 fun pattern length => (agreeOn_iff wf wf rfl length).2 rfl
  exact ⟨reachable_sample, getElem?_sample, exact_searchSolver, verdictProved ▸ ok⟩

/-- Against a view with don't-care functions, equivalence is proved exactly if the networks agree on all
assignments that are not excluded, and a counterexample is not excluded. -/
theorem Workspace.Holds.equivalence_modulo_exact (held : w.Holds (.dontCare base dontCares))
    (hnet : w.networks[base.networkId]? = some net) (hd : w.networks[dontCares.networkId]? = some d)
    (same : d.numInputs = net.numInputs) (hother : w.networks[v.networkId]? = some other)
    (hinputs : other.numInputs = net.numInputs) (houtputs : other.numOutputs = net.numOutputs)
    (exact : solver.Exact) :
    ∃ verdict, proveEquivalenceModuloBy solver net other d = .ok verdict ∧
      (verdict = .proved ↔ ∀ pattern, pattern.length = net.numInputs →
        d.excludes pattern = .ok false → net.AgreeOn other pattern) ∧
      ∀ pattern, verdict = .disproved pattern → pattern.length = net.numInputs ∧
        d.excludes pattern = .ok false ∧ net.DifferOn other pattern := by
  have sound := held.reachable.sound
  have wfD := (sound _ d hd).hashConsed.toWellFormed
  obtain ⟨-, -, d', hd', outputs⟩ := held.stands
  cases hd.symm.trans hd'
  have serves : ∀ d' ∈ some d, d'.Serves net := by
    rintro _ ⟨⟩
    exact ⟨wfD, same, outputs⟩
  obtain ⟨verdict, ok, proved, disproved⟩ := solveMiter_verdict exact
    (sound _ net hnet).hashConsed.toWellFormed (sound _ other hother).hashConsed.toWellFormed
    hinputs.symm houtputs.symm serves
  have allows {pattern : List Bool} (length : pattern.length = net.numInputs) :=
    allows_some_iff wfD outputs (length.trans same.symm)
  refine ⟨verdict, ?_, proved.trans (forall₂_congr fun pattern length => ?_), fun pattern h => ?_⟩
  · unfold proveEquivalenceModuloBy
    rw [checkInterfaces_eq_ok hinputs.symm houtputs.symm, lift_ok_refusal, ok_bind, ok]
  · rw [allows length]
  · obtain ⟨length, allowed, differ⟩ := disproved pattern h
    exact ⟨length, (allows length).1 allowed, differ⟩

/-- Modulo the don't-care function of the sample, its network is proved equivalent to itself. -/
theorem sample_equivalent_modulo : sampleExclusion.Holds (.dontCare (.network 0) (.network 1)) ∧
    sampleExclusion.networks[0]? = some sampleNetwork ∧
    sampleExclusion.networks[1]? = some sampleDontCares ∧ searchSolver.Exact ∧
    proveEquivalenceModuloBy searchSolver sampleNetwork sampleNetwork sampleDontCares
      = .ok .proved := by
  have held := holds_sampleExclusion
  have same : sampleDontCares.numInputs = sampleNetwork.numInputs := by decide +kernel
  obtain ⟨verdict, ok, proved, -⟩ := held.equivalence_modulo_exact (v := .network 0)
    getElem?_sampleExclusion_zero getElem?_sampleExclusion_one same getElem?_sampleExclusion_zero rfl
    rfl exact_searchSolver
  have wf := (held.reachable.sound 0 _ getElem?_sampleExclusion_zero).hashConsed.toWellFormed
  have verdictProved : verdict = .proved :=
    proved.2 fun pattern length _ => (agreeOn_iff wf wf rfl length).2 rfl
  exact ⟨held, getElem?_sampleExclusion_zero, getElem?_sampleExclusion_one, exact_searchSolver,
    verdictProved ▸ ok⟩

end LogicNet
