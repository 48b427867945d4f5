import LogicNet.Proofs.Covers
import LogicNet.Proofs.EquivalenceChecking
import LogicNet.Proofs.Identities

/-! # The shape of don't-care functions

A don't-care function is attached to a view when it is over the same inputs and has one output.  Calls
through the view change the network underneath and never the don't-care function, so the shapes fit until an
input is made through the view.
-/

namespace LogicNet

open Network Workspace

namespace Network

variable {a b d : Network}

/-- Whatever the solver answers, there is a verdict on two networks of one interface. -/
theorem proveEquivalenceModuloBy_eq_ok (solver : Sat.Solver) (wfA : a.WellFormed) (wfB : b.WellFormed)
    (hinputs : a.numInputs = b.numInputs) (houtputs : a.numOutputs = b.numOutputs) (serves : d.Serves a) :
    ∃ verdict, proveEquivalenceModuloBy solver a b d = .ok verdict := by
  have served : ∀ d' ∈ some d, d'.Serves a := by
    rintro _ ⟨⟩
    exact serves
  obtain ⟨inputs, diff, r, -, -, run, -⟩ :=
    encodeMiter_eq_ok wfA wfB hinputs houtputs served ({} : Sat.Recorder)
  unfold proveEquivalenceModuloBy solveMiter
  rw [checkInterfaces_eq_ok hinputs houtputs, lift_ok_refusal, ok_bind, run]
  simp only
  split <;> exact ⟨_, rfl⟩

end Network

variable {w w₀ w₁ w' : Workspace} {v base dontCares : View} {net : Network} {bytes : List UInt8}
  {cubes : List Cube}

namespace View

/-- A new view without don't-care functions is over a new empty network of the same family. -/
theorem emptyLike_run (base : View) : ∀ {w : Workspace}, w.networks[base.networkId]? = some net →
    ∃ v w', base.emptyLike.run w = .ok v w' ∧ v.networkId = w.networks.size ∧
      w'.networks = w.networks.push (.empty net.family) := by
  induction base with
  | network id =>
    intro w hnet
    have found : w.network id = .ok net := network_eq_ok.2 hnet
    rw [emptyLike, Edit.run_get_bind, found]
    exact ⟨_, _, rfl, rfl, rfl⟩
  | fanout base index ih =>
    intro w hnet
    obtain ⟨v, w₁, run, fresh, networks⟩ := ih hnet
    have found : w₁.networks[v.networkId]? = some (.empty net.family) := by
      rw [networks, fresh, Array.getElem?_push_size]
    rw [emptyLike, Edit.run_bind_ok run]
    exact ⟨_, _, addFanout_run found, fresh, networks⟩
  | dontCare base dontCares ih _ => exact ih

/-- A view with don't-care functions, as it is made from a network, a cube list or a file. -/
inductive Attaches (base : View) (w : Workspace) : View → Workspace → Prop
  | network {dontCares v : View} {w' : Workspace}
      (run : (base.withDontCares dontCares).run w = .ok v w') : Attaches base w v w'
  | cubes {bytes : List UInt8} {v : View} {w' : Workspace}
      (run : (base.readDontCares bytes).run w = .ok v w') : Attaches base w v w'
  | file {file : Except InputFailure (List UInt8)} {v : View} {w' : Workspace}
      (run : (base.loadDontCares file).run w = .ok v w') : Attaches base w v w'

/-- A cube list that can be read becomes a network of its own, and all other networks stay. -/
theorem readDontCares_run (hnet : w.networks[base.networkId]? = some net)
    (read : Cube.readList net.numInputs bytes = .ok cubes) : ∃ dontCares w' d,
      (base.readDontCares bytes).run w = .ok (.dontCare base dontCares) w' ∧
      (base.withDontCares dontCares).run w' = .ok (.dontCare base dontCares) w' ∧
      dontCares.networkId = w.networks.size ∧ w'.networks = w.networks.push d ∧ d.HashConsed ∧
      AddsComplement (.empty net.family) net.numInputs cubes d := by
  obtain ⟨dontCares, w₁, like, fresh, networks⟩ := emptyLike_run base hnet
  have hempty : w₁.networks[dontCares.networkId]? = some (.empty net.family) := by
    rw [networks, fresh, Array.getElem?_push_size]
  obtain ⟨output, d, cover, consed, adds⟩ :=
    (hashConsed_empty net.family).addsComplement net.numInputs (Cube.readList_ne_nil read)
  obtain ⟨indexes, created⟩ := create_run hempty cover
  have pushed : w₁.networks.setIfInBounds dontCares.networkId d = w.networks.push d := by
    simp [networks, fresh, Array.setIfInBounds_def, Array.set_push]
  rw [pushed] at created
  let w' : Workspace := { networks := w.networks.push d, indexes }
  have hd : w'.networks[dontCares.networkId]? = some d := by rw [fresh, Array.getElem?_push_size]
  have hnet' : w'.networks[base.networkId]? = some net := by
    have before : base.networkId < w.networks.size := (Array.getElem?_eq_some_iff.1 hnet).1
    rw [Array.getElem?_push, if_neg (Nat.ne_of_lt before)]
    exact hnet
  have attached : (base.withDontCares dontCares).run w' = .ok (.dontCare base dontCares) w' :=
    withDontCares_run hnet' hd (adds.inputs.trans (Nat.zero_add _)) adds.outputs
  refine ⟨dontCares, w', d, ?_, attached, fresh, rfl, consed, adds⟩
  rw [readDontCares, Edit.run_bind_ok (run_current_eq_ok.2 ⟨hnet, rfl⟩), read, Edit.lift_ok_refusal,
    pure_bind, Edit.run_bind_ok like, Edit.run_bind_ok created, attached]

theorem readDontCares_eq_ok (run : (base.readDontCares bytes).run w = .ok v w') (consed : w.Consed) :
    ∃ dontCares, (base.withDontCares dontCares).run w' = .ok v w' ∧ w'.Consed ∧
      dontCares.networkId ≠ base.networkId := by
  obtain ⟨net, w₁, current, afterCurrent⟩ := Edit.run_bind_eq_ok.1 run
  obtain ⟨hnet, rfl⟩ := run_current_eq_ok.1 current
  obtain ⟨cubes, w₂, read, -⟩ := Edit.run_bind_eq_ok.1 afterCurrent
  obtain ⟨hcubes, -⟩ := Edit.run_lift_refusal_eq_ok.1 read
  obtain ⟨dontCares, w₃, d, run', attached, fresh, networks, consedD, -⟩ := readDontCares_run hnet hcubes
  cases run'.symm.trans run
  refine ⟨dontCares, attached, consed.push consedD networks, ?_⟩
  rw [fresh]
  exact Nat.ne_of_gt (Array.getElem?_eq_some_iff.1 hnet).1

/-- The don't-care functions have the inputs of the view and one output. -/
def Fitted (base dontCares : View) (w : Workspace) : Prop :=
  ∃ net d, w.networks[base.networkId]? = some net ∧ w.networks[dontCares.networkId]? = some d ∧
    d.numInputs = net.numInputs ∧ d.numOutputs = 1

theorem fitted_of_withDontCares {other : View}
    (run : (base.withDontCares other).run w = .ok (.dontCare base dontCares) w') :
    w' = w ∧ base.Fitted dontCares w' := by
  obtain ⟨same, rfl, shape⟩ := withDontCares_eq_ok run
  cases same
  exact ⟨rfl, shape⟩

theorem Attaches.fitted (attaches : base.Attaches w (.dontCare base dontCares) w') (consed : w.Consed) :
    w'.Consed ∧ base.Fitted dontCares w' := by
  have ofCubes {bytes : List UInt8} (run : (base.readDontCares bytes).run w = .ok (.dontCare base dontCares) w') :
      w'.Consed ∧ base.Fitted dontCares w' := by
    obtain ⟨other, run', consed', -⟩ := readDontCares_eq_ok run consed
    exact ⟨consed', (fitted_of_withDontCares run').2⟩
  cases attaches with
  | network run =>
    obtain ⟨rfl, fitted⟩ := fitted_of_withDontCares run
    exact ⟨consed, fitted⟩
  | cubes run => exact ofCubes run
  | @file file _ _ run =>
    cases file with
    | error cause => cases run
    | ok bytes => exact ofCubes run

end View

namespace Workspace

variable {actions : List Action} {id : Nat}

theorem Action.newInputs_eq_zero {a : Action} (h : a.callOn id ≠ some .input) : a.newInputs id = 0 := by
  unfold newInputs
  cases hc : a.callOn id with
  | none => rfl
  | some c =>
    cases c with
    | input => exact absurd hc h
    | _ => rfl

/-- A run without new inputs leaves the number of inputs. -/
theorem sum_newInputs_eq_zero (h : ∀ a ∈ actions, a.callOn id ≠ some .input) :
    (actions.map (·.newInputs id)).sum = 0 := by
  refine List.sum_eq_zero fun k hk => ?_
  obtain ⟨a, ha, rfl⟩ := List.mem_map.1 hk
  exact Action.newInputs_eq_zero (h a ha)

/-- After any run in which the don't-care function of a view is not changed through other handles, it has one
output and the inputs that the view had when it was attached; those of a cube list are never in the network
of the view.  As long as no input is made, or if the view is its own don't-care function, the assignments of
the view can be excluded and equivalence can be decided. -/
theorem Reachable.dontCares_fit (hw : w₀.Reachable)
    (attaches : base.Attaches w₀ (.dontCare base dontCares) w₁) (runs : Runs actions w₁ w)
    (undisturbed : dontCares.networkId ≠ base.networkId →
      ∀ a ∈ actions, a.callOn dontCares.networkId = none) :
    ∃ net d, w.networks[(View.dontCare base dontCares).networkId]? = some net ∧
      (View.dontCare base dontCares).currentDontCares.run w = .ok d w ∧
      (∀ bytes, (base.readDontCares bytes).run w₀ = .ok (.dontCare base dontCares) w₁ →
        dontCares.networkId ≠ base.networkId) ∧
      (dontCares.networkId ≠ base.networkId → d.numOutputs = 1 ∧
        net.numInputs = d.numInputs + (actions.map (·.newInputs base.networkId)).sum) ∧
      (dontCares.networkId = base.networkId → d = net ∧
        d.numOutputs = 1 + (actions.map (·.newOutputs base.networkId)).sum) ∧
      (dontCares.networkId = base.networkId ∨ (∀ a ∈ actions, a.callOn base.networkId ≠ some .input) →
        d.numInputs = net.numInputs ∧
        (∀ pattern : List Bool, pattern.length = net.numInputs →
          ∃ excluded, d.excludes pattern = .ok excluded) ∧
        ∀ (solver : Sat.Solver) (u : View) (other : Network), w.networks[u.networkId]? = some other →
          other.numInputs = net.numInputs → other.numOutputs = net.numOutputs →
          ∃ verdict, proveEquivalenceModuloBy solver net other d = .ok verdict) := by
  obtain ⟨consed₁, net₁, d₁, hnet₁, hd₁, inputs₁, outputs₁⟩ := attaches.fitted hw.sound.consed
  obtain ⟨consed, net, hnet, netInputs, -, -⟩ := runs.network consed₁ hnet₁
  obtain ⟨-, d, hd, dInputs, dOutputs, unchanged⟩ := runs.network consed₁ hd₁
  refine ⟨net, d, hnet, View.run_current_eq_ok.2 ⟨hd, rfl⟩, fun bytes run => ?_, fun apart => ?_,
    fun same => ?_, fun quiet => ?_⟩
  · obtain ⟨other, run', -, apart⟩ := View.readDontCares_eq_ok run hw.sound.consed
    obtain ⟨same, -⟩ := View.withDontCares_eq_ok run'
    cases same
    exact apart
  · cases unchanged (undisturbed apart)
    exact ⟨outputs₁, inputs₁ ▸ netInputs⟩
  · rw [same] at hd dOutputs
    cases hd.symm.trans hnet
    exact ⟨rfl, outputs₁ ▸ dOutputs⟩
  · have inputs : d.numInputs = net.numInputs := by
      -- A network that is its own don't-care function gets every new input itself.
      by_cases same : dontCares.networkId = base.networkId
      · rw [same] at hd
        cases hd.symm.trans hnet
        rfl
      · cases unchanged (undisturbed same)
        rw [netInputs, inputs₁, sum_newInputs_eq_zero (quiet.resolve_left same), Nat.add_zero]
    have outputs : d.numOutputs ≠ 0 := by omega
    have wf := (consed _ d hd).toWellFormed
    refine ⟨inputs, fun pattern length => ?_, fun solver u other hother otherInputs otherOutputs => ?_⟩
    · obtain ⟨out, -, -, excluded⟩ := excludes_eq_ok wf outputs (length.trans inputs.symm)
      exact ⟨out, excluded⟩
    · exact proveEquivalenceModuloBy_eq_ok solver (consed _ net hnet).toWellFormed
        (consed _ other hother).toWellFormed otherInputs.symm otherOutputs.symm ⟨wf, inputs, outputs⟩

end Workspace

section sample

theorem attaches_sampleExclusion :
    (View.network 0).Attaches sampleExclusion (.dontCare (.network 0) (.network 1)) sampleExclusion := by
  have same : sampleDontCares.numInputs = sampleNetwork.numInputs := by decide +kernel
  have one : sampleDontCares.numOutputs = 1 := by decide +kernel
  have run : ((View.network 0).withDontCares (.network 1)).run sampleExclusion = _ :=
    View.withDontCares_run getElem?_sampleExclusion_zero getElem?_sampleExclusion_one same one
  exact .network run

/-- The don't-care function of the sample still fits after an output is made through the view. -/
theorem sample_dontCares_fit : ∃ w net d,
    ((View.dontCare (.network 0) (.network 1)).perform (.output (.ofNode 4))).run sampleExclusion = .ok () w ∧
    w.networks[0]? = some net ∧
    (View.dontCare (.network 0) (.network 1)).currentDontCares.run w = .ok d w ∧
    d.numOutputs = 1 ∧ d.numInputs = net.numInputs ∧
    ∀ pattern : List Bool, pattern.length = net.numInputs →
      ∃ excluded, d.excludes pattern = .ok excluded := by
  let v := View.dontCare (.network 0) (.network 1)
  have admissible : (Action.call v (.output (.ofNode 4))).Admissible sampleExclusion := by decide +kernel
  have done : Edit.endsWith (v.perform (.output (.ofNode 4))) sampleExclusion (fun _ => true) = true := by
    decide +kernel
  obtain ⟨⟨⟩, w, run, -⟩ := Edit.exists_run_of_endsWith done
  have runs : Runs [.call v (.output (.ofNode 4))] sampleExclusion w :=
    .cons admissible (.done run) (.nil w)
  obtain ⟨net, d, hnet, hd, -, apart, -, fit⟩ :=
    holds_sampleExclusion.reachable.dontCares_fit attaches_sampleExclusion runs fun _ a ha => by
      rw [List.mem_singleton.1 ha]
      rfl
  obtain ⟨inputs, excluded, -⟩ := fit (.inr fun a ha => by
    rw [List.mem_singleton.1 ha]
    decide)
  exact ⟨w, net, d, run, hnet, hd, (apart (by decide)).1, inputs, excluded⟩

/-- After an input is made through the view, the don't-care function of the sample has an input less, so that
no assignment of the view can be excluded and no network is compared with it. -/
theorem sample_input_past_dontCares :
    (View.network 0).Attaches sampleExclusion (.dontCare (.network 0) (.network 1)) sampleExclusion ∧
    ∃ w net d, ((View.dontCare (.network 0) (.network 1)).perform .input).run sampleExclusion
      = .ok () w ∧ w.networks[0]? = some net ∧ w.networks[1]? = some d ∧ net.numInputs = 4 ∧
    d.excludes [false, false, false, false] = .error (.refused (.inputCountMismatch 3 4)) ∧
    proveEquivalenceModuloBy Sat.searchSolver net net d = .error (.refused (.inputCountMismatch 3 4)) := by
  have done : Edit.endsWith ((View.dontCare (.network 0) (.network 1)).perform .input) sampleExclusion
      (fun w => w.networks[0]?.any fun net => w.networks[1]?.any fun d => decide (net.numInputs = 4 ∧
        d.excludes [false, false, false, false] = .error (.refused (.inputCountMismatch 3 4)) ∧
        proveEquivalenceModuloBy Sat.searchSolver net net d
          = .error (.refused (.inputCountMismatch 3 4)))) = true := by decide +kernel
  obtain ⟨⟨⟩, w, run, ends⟩ := Edit.exists_run_of_endsWith done
  obtain ⟨net, hnet, ends⟩ := (Option.any_eq_true _ _).1 ends
  obtain ⟨d, hd, ends⟩ := (Option.any_eq_true _ _).1 ends
  exact ⟨attaches_sampleExclusion, w, net, d, run, hnet, hd, of_decide_eq_true ends⟩

end sample

end LogicNet
