import LogicNet.Proofs.InverterConvergence

/-! # Inverting one gate

An inversion is refused for a node that is no live gate, and never fails otherwise.  It complements the value
of its gate and no other one.  As it touches polarities only, a second inversion takes it back.
-/

namespace LogicNet

namespace Network

variable {net net' : Network} {n : Nat} {cause : NetworkError}

/-- Why a node cannot be inverted. -/
inductive NotInvertible (net : Network) (n : Nat) : NetworkError → Prop where
  | outOfRange (past : net.size ≤ n) : NotInvertible net n (.nodeOutOfRange n net.size)
  | notAGate (inRange : n < net.size) (noGate : ¬ net.IsGate n) : NotInvertible net n (.notAGate n)
  | dead (gate : net.IsGate n) (dead : net.isLive n = false) : NotInvertible net n (.deadNode n)

theorem exists_notInvertible (h : ¬ (net.isLive n = true ∧ net.IsGate n)) :
    ∃ cause, net.NotInvertible n cause := by
  by_cases inRange : n < net.size
  · by_cases gate : net.IsGate n
    · have dead : net.isLive n = false := Bool.eq_false_iff.2 fun live => h ⟨live, gate⟩
      exact ⟨_, .dead gate dead⟩
    · exact ⟨_, .notAGate inRange gate⟩
  · exact ⟨_, .outOfRange (Nat.not_lt.1 inRange)⟩

theorem NotInvertible.check (h : net.NotInvertible n cause) : net.checkLiveGate n = .error cause := by
  cases h with
  | outOfRange past => simp [checkLiveGate, checkGate_of_size_le past]
  | notAGate inRange noGate => simp [checkLiveGate, checkGate_of_not_isGate inRange noGate]
  | dead gate dead =>
    obtain ⟨g, fanins, hkind⟩ := gate
    simp [checkLiveGate, checkGate_eq_ok hkind, checkLive, dead]

theorem NotInvertible.run (h : net.NotInvertible n cause) (family : net.family = .mig) :
    (invertGate n).run net = .error (.refused cause) net := by
  rw [invertGate, Edit.run_bind_ok (Edit.run_requireFamily family), Edit.run_get_bind, h.check]
  rfl

/-- The gate has the complement of its value, and all else has its own. -/
structure Complemented (net : Network) (n : Nat) (net' : Network) : Prop where
  gate : ∀ x, net'.eval x n = !net.eval x n
  others : ∀ x m, m ≠ n → net.isLive m = true → net'.eval x m = net.eval x m
  outputs : ∀ x, net'.outputValues x = net.outputValues x

theorem Repolarized.complemented (h : Repolarized net (toggled (fun _ => false) n) net')
    (consed : net.HashConsed) (family : net.family = .mig) : net.Complemented n net' where
  gate x := by
    obtain ⟨live, -⟩ := h.gates n (by simp [toggled])
    rw [h.eval_eq consed family x live]
    simp [toggled]
  others x m hmn live := by
    rw [h.eval_eq consed family x live]
    simp [toggled, hmn]
  outputs := h.outputValues_eq consed family

/-- A live gate can be inverted, and then once more. -/
theorem HashConsed.invertGate_twice (consed : net.HashConsed) (family : net.family = .mig)
    (live : net.isLive n = true) (gate : net.IsGate n) : ∃ net' net'',
      (invertGate n).run net = .ok () net' ∧ Repolarized net (toggled (fun _ => false) n) net' ∧
      (invertGate n).run net' = .ok () net'' ∧ SameStore net net'' := by
  have before := Repolarized.refl consed
  obtain ⟨net', run, inverted⟩ := consed.invertGate_run family live gate
  have once := before.inverted live gate inverted
  have live' : net'.isLive n = true := (congrFun once.live n).trans live
  obtain ⟨net'', run', inverted'⟩ :=
    once.consed.invertGate_run (once.family.trans family) live' (once.isGate.2 gate)
  have twice := once.inverted live gate inverted'
  rw [toggled_toggled] at twice
  exact ⟨net', net'', run, once, run', before.sameStore twice⟩

end Network

open Network Workspace

variable {w : Workspace} {id : Nat} {net : Network}

/-- An inversion is refused just for a node that is not there, no gate or dead, and then changes nothing.
Otherwise no gate becomes redundant by it, the value of the inverted gate is complemented and no other one,
nothing but polarities is changed, and a second inversion restores nodes, outputs, counts and table. -/
theorem Workspace.Reachable.inversion_involutive (hw : w.Reachable) (hnet : w.networks[id]? = some net)
    (family : net.family = .mig) (n : Nat) :
    (∀ cause, (invertGate n).run net = .error (.refused cause) net ↔ net.NotInvertible n cause) ∧
    ((∀ cause, ¬ net.NotInvertible n cause) → ∃ net' net'',
      (invertGate n).run net = .ok () net' ∧ net.Complemented n net' ∧ SameUpToPolarities net net' ∧
      (invertGate n).run net' = .ok () net'' ∧ SameStore net net'') := by
  have consed := (hw.sound id net hnet).hashConsed
  by_cases liveGate : net.isLive n = true ∧ net.IsGate n
  · obtain ⟨live, gate⟩ := liveGate
    obtain ⟨net', net'', run, once, run', same⟩ := consed.invertGate_twice family live gate
    refine ⟨fun cause => ⟨fun refused => ?_, fun h => ?_⟩, fun _ => ?_⟩
    · cases run.symm.trans refused
    · cases (checkLiveGate_eq_ok.2 ⟨live, gate⟩).symm.trans h.check
    · exact ⟨net', net'', run, once.complemented consed family, once.sameUpToPolarities, run', same⟩
  · obtain ⟨cause, h⟩ := exists_notInvertible liveGate
    refine ⟨fun cause' => ⟨fun refused => ?_, fun h' => h'.run family⟩, fun none => absurd h (none cause)⟩
    cases (h.run family).symm.trans refused
    exact h

/-- Inverting the majority gate of the sample twice. -/
theorem sample_majority_inverted : sampleNetwork.family = .mig ∧
    (∀ cause, ¬ sampleNetwork.NotInvertible 4 cause) ∧ ∃ net' net'',
      (invertGate 4).run sampleNetwork = .ok () net' ∧ sampleNetwork.Complemented 4 net' ∧
      (invertGate 4).run net' = .ok () net'' ∧ SameStore sampleNetwork net'' := by
  have family : sampleNetwork.family = .mig := by decide +kernel
  have liveGate : sampleNetwork.isLiveGate 4 = true := by decide +kernel
  have invertible : ∀ cause, ¬ sampleNetwork.NotInvertible 4 cause := by
    intro cause h
    cases (checkLiveGate_eq_ok.2 (isLiveGate_iff.1 liveGate)).symm.trans h.check
  obtain ⟨-, inverts⟩ := reachable_sample.inversion_involutive getElem?_sample family 4
  obtain ⟨net', net'', run, complemented, -, run', same⟩ := inverts invertible
  exact ⟨family, invertible, net', net'', run, complemented, run', same⟩

end LogicNet
