import LogicNet.Proofs.InverterConvergence

/-! # Trials of the pass over inverters

A two-level move inverts a gate and some of its parents on trial.  If it gives up, it inverts all of them once
more in the opposite order, and everything is as it was, whatever fanins and outputs the gates share.
-/

namespace LogicNet

open Network

namespace InverterPass

variable {net : Network} {index : FanoutIndex} {f : Nat → Bool} {p q r : InverterPass} {l l' : List Nat}
  {n : Nat}

/-- Gates are inverted one after the other, and the gain that is computed before each inversion is the number
of complemented edges that the inversion removes. -/
inductive Flips (index : FanoutIndex) : InverterPass → List Nat → InverterPass → Prop
  | nil (p : InverterPass) : Flips index p [] p
  | cons {p p₁ q : InverterPass} {n : Nat} {rest : List Nat}
      (gain : p.gain index n
        = .ok ((p.net.countComplementedEdges : Int) - p₁.net.countComplementedEdges))
      (first : (flip n).run p = .ok () p₁) (more : Flips index p₁ rest q) : Flips index p (n :: rest) q

theorem Flips.run (flips : Flips index p l q) : (l.forM flip).run p = .ok () q := by
  induction flips with
  | nil => rfl
  | cons _ first _ ih => exact (Edit.run_bind_ok first _).trans ih

/-- The second state is the first one again, in the store, the gains at the outputs and the statistics. -/
structure Restored (p q : InverterPass) : Prop where
  store : SameStore p.net q.net
  outputGain : q.outputGain = p.outputGain
  stats : q.stats = p.stats

theorem size_foldl_flipGain (outputs : List Signal) (gains : Array Int) :
    (outputs.foldl (fun gains s => gains.modify s.node (· + flipGain s)) gains).size = gains.size := by
  induction outputs generalizing gains with
  | nil => rfl
  | cons s rest ih => rw [List.foldl_cons, ih, Array.size_modify]

/-- The gains at the outputs are known for the nodes of the network and no others. -/
structure Knows (net : Network) (f : Nat → Bool) (p : InverterPass) : Prop extends Tracks net f p where
  size : p.outputGain.size = net.size

namespace Knows

theorem start (consed : net.HashConsed) (stats : InverterStats) :
    Knows net (fun _ => false) { InverterPass.start net with stats } where
  toTracks := (Tracks.start consed).withStats stats
  size := by rw [InverterPass.start, size_foldl_flipGain, Array.size_replicate]

theorem flip_run (knows : Knows net f p) (family : net.family = .mig) (hn : n ∈ net.liveGates) :
    ∃ q, (flip n).run p = .ok () q ∧ Knows net (toggled f n) q ∧ q.stats = p.stats := by
  obtain ⟨q, run, tracks, stats⟩ := knows.toTracks.flip_run family hn
  refine ⟨q, run, ⟨tracks, ?_⟩, stats⟩
  rw [flip, Edit.run_get_bind] at run
  split at run
  · cases run
  · cases run
    rw [Array.size_modify, knows.size]

/-- Where the same gates are inverted, the pass is in the same state. -/
theorem restored (knows : Knows net f p) (knows' : Knows net f q) (stats : q.stats = p.stats) :
    Restored p q := by
  have store := knows.polarities.sameStore knows'.polarities
  refine ⟨store, Array.ext_getElem? fun m => ?_, stats⟩
  by_cases hm : m < net.size
  · rw [knows'.outputGain m hm, knows.outputGain m hm, store.graph.outputs]
  · rw [Array.getElem?_eq_none (knows'.size ▸ Nat.not_lt.1 hm),
      Array.getElem?_eq_none (knows.size ▸ Nat.not_lt.1 hm)]

end Knows

theorem toggledAll_append_reverse (f : Nat → Bool) (l : List Nat) : toggledAll f (l ++ l.reverse) = f := by
  induction l generalizing f with
  | nil => rfl
  | cons n rest ih =>
    -- The first gate is the last one too, and in between the others undo themselves.
    have inner : toggledAll f (rest ++ (rest.reverse ++ [n])) = toggled f n := by
      rw [← List.append_assoc, toggledAll, List.foldr_append]
      exact ih (toggled f n)
    rw [List.reverse_cons, List.cons_append, toggledAll_cons, inner, toggled_toggled]

/-- Live gates can be inverted in every order, and the gains are right on the way. -/
theorem Optimizable.exists_flips (ready : Optimizable net index) (knows : Knows net f p)
    (gates : ∀ n ∈ l, n ∈ net.liveGates) :
    ∃ q, Flips index p l q ∧ Knows net (toggledAll f l.reverse) q ∧ q.stats = p.stats := by
  induction l generalizing f p with
  | nil => exact ⟨p, .nil p, knows, rfl⟩
  | cons n rest ih =>
    obtain ⟨hn, others⟩ := List.forall_mem_cons.1 gates
    obtain ⟨p₁, first, knows₁, stats₁⟩ := knows.flip_run ready.family hn
    obtain ⟨q, more, knows', stats⟩ := ih knows₁ others
    have gain := ready.gain_eq_ok knows.toTracks hn
    rw [knows.polarities.edgesRemoved_sub knows₁.polarities] at gain
    refine ⟨q, .cons gain first more, ?_, stats.trans stats₁⟩
    rw [List.reverse_cons, toggledAll, List.foldr_append]
    exact knows'

/-- Inverting gates and then inverting them in the opposite order changes nothing. -/
theorem Optimizable.undone (ready : Optimizable net index) (knows : Knows net f p)
    (gates : ∀ n ∈ l, n ∈ net.liveGates) : ∃ q, Flips index p (l ++ l.reverse) q ∧ Restored p q := by
  have all : ∀ n ∈ l ++ l.reverse, n ∈ net.liveGates := fun n hn =>
    gates n ((List.mem_append.1 hn).elim id List.mem_reverse.1)
  obtain ⟨q, flips, knows', stats⟩ := ready.exists_flips knows all
  rw [List.reverse_append, List.reverse_reverse, toggledAll_append_reverse] at knows'
  exact ⟨q, flips, knows.restored knows' stats⟩

section trial

theorem forM_flip_append (run : (l.forM flip).run p = .ok () q) (run' : (l'.forM flip).run q = .ok () r) :
    ((l ++ l').forM flip).run p = .ok () r := by
  induction l generalizing p with
  | nil =>
    cases run
    exact run'
  | cons n rest ih =>
    obtain ⟨_, p₁, first, more⟩ := Edit.run_bind_eq_ok.1 run
    exact (Edit.run_bind_ok first _).trans (ih more)

/-- A parent is inverted and noted, or passed over. -/
theorem flipParent_run_eq_ok {state state' : Int × List Nat}
    (run : (flipParent index state n).run p = .ok state' q) :
    (state'.2 = state.2 ∧ q = p) ∨ (state'.2 = n :: state.2 ∧ (flip n).run p = .ok () q) := by
  rw [flipParent, Edit.run_get_bind] at run
  cases computed : p.gain index n with
  | error e =>
    rw [computed] at run
    cases run
  | ok gain =>
    rw [computed, Edit.lift_ok_fault, pure_bind] at run
    split at run
    · obtain ⟨_, p₁, first, run⟩ := Edit.run_bind_eq_ok.1 run
      cases run
      exact .inr ⟨rfl, first⟩
    · cases run
      exact .inl ⟨rfl, rfl⟩

/-- The parents that were inverted, in the order of the trial. -/
theorem flipParents_run_eq_ok {parents : List Nat} {state state' : Int × List Nat}
    (run : (parents.foldlM (flipParent index) state).run p = .ok state' q) :
    ∃ tried : List Nat, tried.Sublist parents ∧ state'.2 = tried.reverse ++ state.2 ∧
      (tried.forM flip).run p = .ok () q := by
  induction parents generalizing state p with
  | nil =>
    cases run
    exact ⟨[], .slnil, rfl, rfl⟩
  | cons m rest ih =>
    rw [List.foldlM_cons] at run
    obtain ⟨state₁, p₁, first, run⟩ := Edit.run_bind_eq_ok.1 run
    obtain ⟨tried, sublist, noted, more⟩ := ih run
    rcases flipParent_run_eq_ok first with ⟨same, rfl⟩ | ⟨new, flipped⟩
    · exact ⟨tried, sublist.cons m, by rw [noted, same], more⟩
    · exact ⟨m :: tried, sublist.cons_cons m, by simp [noted, new], (Edit.run_bind_ok flipped _).trans more⟩

/-- A move that is given up has inverted its gate and some of the parents, and all of these once more in the
opposite order. -/
theorem twoLevelMove_run_false {nd : Node} {own : Int} (found : p.net.node n = .ok nd)
    (alive : nd.dead = false) (computed : p.gain index n = .ok own)
    (run : (twoLevelMove index n).run p = .ok false q) :
    ∃ tried : List Nat, tried.Sublist (index.fanout n) ∧
      ((n :: tried ++ (n :: tried).reverse).forM flip).run p = .ok () q := by
  rw [twoLevelMove, Edit.run_get_bind, found] at run
  simp only [Edit.lift_ok_fault, pure_bind, alive, Bool.false_eq_true, if_false, computed] at run
  obtain ⟨_, p₁, first, run⟩ := Edit.run_bind_eq_ok.1 run
  obtain ⟨⟨total, flipped⟩, p₂, trial, run⟩ := Edit.run_bind_eq_ok.1 run
  obtain ⟨tried, sublist, noted, parents⟩ := flipParents_run_eq_ok trial
  refine ⟨tried, sublist, ?_⟩
  dsimp only at run noted
  split at run
  · obtain ⟨_, p₃, -, run⟩ := Edit.run_bind_eq_ok.1 run
    cases run
  · obtain ⟨_, p₃, back, run⟩ := Edit.run_bind_eq_ok.1 run
    obtain ⟨_, p₄, last, run⟩ := Edit.run_bind_eq_ok.1 run
    cases run
    rw [noted, List.append_nil] at back
    have there : ((n :: tried).forM flip).run p = .ok () p₂ := (Edit.run_bind_ok first _).trans parents
    rw [List.reverse_cons]
    exact forM_flip_append there (forM_flip_append back ((Edit.run_bind_ok last _).trans rfl))

end trial

end InverterPass

open InverterPass

variable {w : Workspace} {id : Nat} {net : Network} {index : FanoutIndex}

/-- Trials of a pass over a network with a current fanout index, whichever gates it has inverted `earlier`.
After a live gate `n`, parents of it in any order, and all of them once more in the opposite order are
inverted, the pass is in the state that it was in, and the gain that was computed before each of the
inversions is what it has removed.  A two-level move that is given up is such a trial. -/
theorem Workspace.Reachable.trial_undone (reachable : w.Reachable) (hnet : w.networks[id]? = some net)
    (family : net.family = .mig) (current : index.Current net) {earlier : List Nat}
    (gates : ∀ m ∈ earlier, m ∈ net.liveGates) (stats : InverterStats) {p : InverterPass}
    (reached : (earlier.forM flip).run { InverterPass.start net with stats } = .ok () p) {n : Nat}
    (hn : n ∈ net.liveGates) :
    (∀ parents : List Nat, (∀ m ∈ parents, m ∈ index.fanout n) →
      ∃ q, Flips index p (n :: parents ++ parents.reverse ++ [n]) q ∧ Restored p q) ∧
    ∀ q, (twoLevelMove index n).run p = .ok false q →
      ∃ parents : List Nat, parents.Sublist (index.fanout n) ∧
        Flips index p (n :: parents ++ parents.reverse ++ [n]) q ∧ Restored p q := by
  have consed : net.HashConsed := (reachable.sound _ net hnet).hashConsed
  have ready : Optimizable net index := ⟨consed, family, current⟩
  obtain ⟨_, flips, knows, -⟩ := ready.exists_flips (Knows.start consed stats) gates
  cases reached.symm.trans flips.run
  have trial (parents : List Nat) (members : ∀ m ∈ parents, m ∈ index.fanout n) :
      ∃ q, Flips index p (n :: parents ++ parents.reverse ++ [n]) q ∧ Restored p q := by
    have live : ∀ m ∈ n :: parents, m ∈ net.liveGates :=
      List.forall_mem_cons.2 ⟨hn, fun m hm => ready.live_parents hn m (members m hm)⟩
    simpa using ready.undone knows live
  -- The run of the move only tells which parents it tried; the rest is known of every list of them.
  refine ⟨trial, fun q run => ?_⟩
  obtain ⟨nd, found, alive⟩ := knows.toTracks.node_eq_ok hn
  obtain ⟨parents, sublist, ran⟩ :=
    twoLevelMove_run_false found alive (ready.gain_eq_ok knows.toTracks hn) run
  obtain ⟨_, undone, restored⟩ := trial parents fun m hm => sublist.subset hm
  rw [List.reverse_cons, ← List.append_assoc] at ran
  cases ran.symm.trans undone.run
  exact ⟨parents, sublist, undone, restored⟩

open Workspace in
/-- Once the inverted gate of the sample is as it was made, inverting it again is a loss, with its parent or
without. -/
theorem sample_trial_undone : sample.Reachable ∧ sample.networks[0]? = some sampleNetwork ∧
    sampleNetwork.family = .mig ∧ (FanoutIndex.ofNetwork sampleNetwork).Current sampleNetwork ∧
    ∃ p q r, ([4].forM flip).run { InverterPass.start sampleNetwork with stats := {} } = .ok () p ∧
      Flips (.ofNetwork sampleNetwork) p [4, 5, 5, 4] q ∧ Restored p q ∧
      (twoLevelMove (.ofNetwork sampleNetwork) 4).run p = .ok false r ∧ Restored p r := by
  have family : sampleNetwork.family = .mig := by decide +kernel
  have current := FanoutIndex.current_ofNetwork sampleNetwork
  have gates : ∀ n ∈ [4], n ∈ sampleNetwork.liveGates := by decide +kernel
  have parents : ∀ m ∈ [5], m ∈ (FanoutIndex.ofNetwork sampleNetwork).fanout 4 := by decide +kernel
  have abandoned : Edit.endsWith ([4].forM flip) { InverterPass.start sampleNetwork with stats := {} }
      (fun p => match (twoLevelMove (.ofNetwork sampleNetwork) 4).run p with
        | .ok kept _ => !kept
        | .error .. => false) = true := by
    decide +kernel
  obtain ⟨_, p, reached, ends⟩ := Edit.exists_run_of_endsWith abandoned
  cases run : (twoLevelMove (.ofNetwork sampleNetwork) 4).run p with
  | error e r => simp [run] at ends
  | ok kept r =>
    obtain rfl : kept = false := by simpa [run] using ends
    obtain ⟨trial, moves⟩ := reachable_sample.trial_undone getElem?_sample family current gates {} reached
      (gates 4 List.mem_cons_self)
    obtain ⟨q, flips, restored⟩ := trial [5] parents
    obtain ⟨_, -, -, restored'⟩ := moves r run
    exact ⟨reachable_sample, getElem?_sample, family, current, p, q, r, reached, flips, restored, run,
      restored'⟩

end LogicNet
