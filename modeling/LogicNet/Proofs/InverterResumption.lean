import LogicNet.Proofs.InverterConvergence

/-! # Interrupting the pass over inverters

A run that stops after some number of rounds and is taken up again ends where a run without a limit does,
although the gains at the outputs are then counted anew.
-/

namespace LogicNet

variable {net net' : Network} {index : FanoutIndex} {f g : Nat → Bool} {w : Workspace} {v : View}

open Network

namespace InverterPass

variable {options : InverterOptions} {gates : List Nat} {p p' q q' r : InverterPass} {twoLevel : Bool}

/-- A run of rounds and where it ends, without a bound on their number. -/
inductive Ends (index : FanoutIndex) (options : InverterOptions) (gates : List Nat) :
    InverterPass → InverterPass → Prop
  | limit {p : InverterPass} (used : options.maxRounds.any (· ≤ p.stats.rounds) = true) :
      Ends index options gates p p
  | idle {p q : InverterPass} (left : ¬ options.maxRounds.any (· ≤ p.stats.rounds) = true)
      (last : (round index options.twoLevel gates).run p = .ok false q) : Ends index options gates p q
  | next {p p₁ q : InverterPass} (left : ¬ options.maxRounds.any (· ≤ p.stats.rounds) = true)
      (first : (round index options.twoLevel gates).run p = .ok true p₁)
      (rest : Ends index options gates p₁ q) : Ends index options gates p q

theorem ends_of_runRounds {fuel : Nat}
    (run : (runRounds index options gates fuel).run p = .ok () q) : Ends index options gates p q := by
  induction fuel generalizing p with
  | zero => cases run
  | succ fuel ih =>
    rw [runRounds, Edit.run_get_bind] at run
    split at run
    · next used =>
      cases run
      exact .limit used
    · next left =>
      cases first : (round index options.twoLevel gates).run p with
      | error e p₁ =>
        rw [Edit.run_bind_error first] at run
        cases run
      | ok changed p₁ =>
        rw [Edit.run_bind_ok first] at run
        cases changed with
        | false =>
          cases run
          exact .idle left first
        | true => exact .next left first (ih run)

/-- A run with a limit is the beginning of the run without one, if it is not all of it. -/
theorem Ends.resume {k : Nat} (bounded : Ends index { twoLevel, maxRounds := some k } gates p q)
    (single : Ends index { twoLevel, maxRounds := none } gates p r) :
    q = r ∨ Ends index { twoLevel, maxRounds := none } gates q r := by
  -- Both runs make the rounds of the bounded one, at whose end the single run stops too or goes on.
  induction bounded with
  | limit => exact .inr single
  | idle _ last =>
    cases single with
    | limit used => cases used
    | idle _ last' =>
      cases last.symm.trans last'
      exact .inl rfl
    | next _ first' => cases last.symm.trans first'
  | next _ first _ ih =>
    cases single with
    | limit used => cases used
    | idle _ last' => cases first.symm.trans last'
    | next _ first' rest' =>
      cases first.symm.trans first'
      exact ih rest'

/-- Where the same gates are inverted, a round inverts the same gates and counts the same moves. -/
theorem Optimizable.round_agrees (ready : Optimizable net index) {changed : Bool}
    (tracks : Tracks net f p) (tracks' : Tracks net f q)
    (run : (round index twoLevel net.liveGates).run p = .ok changed p') :
    ∃ g d q', (round index twoLevel net.liveGates).run q = .ok changed q' ∧ Tracks net g p' ∧
      Tracks net g q' ∧ p'.stats = p.stats + d ∧ q'.stats = q.stats + d := by
  obtain ⟨_, g, d, moves, -⟩ := ready.round_moves twoLevel tracks
  obtain ⟨_, run₁, moved, stats⟩ := moves p tracks
  obtain ⟨q', run', moved', stats'⟩ := moves q tracks'
  cases run.symm.trans run₁
  exact ⟨g, _, q', run', moved, moved', stats, stats'⟩

/-- So do unlimited runs, however the gains at the outputs came to be known. -/
theorem Optimizable.ends_agree (ready : Optimizable net index) (tracks : Tracks net f p)
    (tracks' : Tracks net f q)
    (ends : Ends index { twoLevel, maxRounds := none } net.liveGates p p')
    (ends' : Ends index { twoLevel, maxRounds := none } net.liveGates q q') :
    ∃ g d, Tracks net g p' ∧ Tracks net g q' ∧ p'.stats = p.stats + d ∧ q'.stats = q.stats + d := by
  induction ends generalizing f q with
  | limit used => cases used
  | idle _ last =>
    obtain ⟨g, d, q₁, run, moved⟩ := ready.round_agrees tracks tracks' last
    cases ends' with
    | limit used => cases used
    | idle _ last' =>
      cases last'.symm.trans run
      exact ⟨g, d, moved⟩
    | next _ first' => cases first'.symm.trans run
  | next _ first _ ih =>
    obtain ⟨g, d, q₁, run, tracks₁, tracks₁', stats, stats'⟩ := ready.round_agrees tracks tracks' first
    cases ends' with
    | limit used => cases used
    | idle _ last' => cases last'.symm.trans run
    | next _ first' rest' =>
      cases first'.symm.trans run
      obtain ⟨h, e, end₁, end₂, rest, rest'⟩ := ih tracks₁ tracks₁' rest'
      refine ⟨h, d + e, end₁, end₂, ?_, ?_⟩
      · rw [rest, stats, InverterStats.add_assoc]
      · rw [rest', stats', InverterStats.add_assoc]

/-- The gates of the beginning are those of now, with the same parents. -/
theorem Optimizable.repolarized (ready : Optimizable net index) (same : Repolarized net f net') :
    Optimizable net' index where
  consed := same.consed
  family := same.family.trans ready.family
  current n hn := by
    rw [same.parents]
    exact ready.current n (same.size ▸ hn)

end InverterPass

namespace Network

open InverterPass

/-- The pass as a whole is a run of rounds from the start. -/
theorem optimizeInverters_ends (ready : Optimizable net index) (options : InverterOptions) :
    ∃ f p, (optimizeInverters index options).run net = .ok p.stats p.net ∧
      Ran net index options (fun _ => false) (.start net) f p ∧
      Ends index options net.liveGates (.start net) p := by
  obtain ⟨f, p, run, ran⟩ := ready.runRounds_run options _ (.start ready.consed) (.start net options)
  exact ⟨f, p, optimizeInverters_of_ran ready.family run (totalGain_of_ran ran), ran,
    ends_of_runRounds run⟩

/-- The runs did the same, up to the number of rounds. -/
structure SameMoves (stats stats' : InverterStats) : Prop where
  totalGain : stats'.totalGain = stats.totalGain
  numInvertedGates : stats'.numInvertedGates = stats.numInvertedGates
  oneLevelMoves : stats'.oneLevelMoves = stats.oneLevelMoves
  twoLevelMoves : stats'.twoLevelMoves = stats.twoLevelMoves

theorem optimizeInverters_resume (ready : Optimizable net index) (twoLevel : Bool) (k : Nat) :
    ∃ stats net' stats₁ net₁ stats₂ net₂,
      (optimizeInverters index { twoLevel, maxRounds := none }).run net = .ok stats net' ∧
      (optimizeInverters index { twoLevel, maxRounds := some k }).run net = .ok stats₁ net₁ ∧
      (optimizeInverters index { twoLevel, maxRounds := none }).run net₁ = .ok stats₂ net₂ ∧
      SameStore net' net₂ ∧ SameMoves stats (stats₁ + stats₂) := by
  obtain ⟨g, r, single, ran, ends⟩ := optimizeInverters_ends ready { twoLevel, maxRounds := none }
  obtain ⟨f, q, first, ran₁, ends₁⟩ := optimizeInverters_ends ready { twoLevel, maxRounds := some k }
  have same := ran₁.tracks.polarities
  rcases ends₁.resume ends with rfl | rest
  · -- The limit was not reached, so the second run has one idle round.
    obtain ⟨net₂, second, unchanged⟩ :=
      optimizeInverters_of_settled (ran.settled rfl) rfl ran.tracks.polarities ready.family
    exact ⟨_, _, _, _, _, _, single, first, second, unchanged, ⟨Int.add_zero _, rfl, rfl, rfl⟩⟩
  · obtain ⟨-, s, second, -, ends₂⟩ :=
      optimizeInverters_ends (ready.repolarized same) { twoLevel, maxRounds := none }
    rw [same.liveGates] at ends₂
    obtain ⟨h, d, end₁, end₂, stats, stats₂⟩ := ready.ends_agree ran₁.tracks same.tracks_start rest ends₂
    have sum : r.stats = q.stats + s.stats := by
      rw [stats, stats₂]
      exact congrArg _ (InverterStats.zero_add d).symm
    refine ⟨_, _, _, _, _, _, single, first, second, end₁.polarities.sameStore end₂.polarities, ?_⟩
    rw [sum]
    exact ⟨rfl, rfl, rfl, rfl⟩

end Network

/-- A view runs the pass on its network. -/
theorem View.optimizeInverters_run {options : InverterOptions} {stats : InverterStats} {id : Nat}
    (hnet : w.networks[v.networkId]? = some net) (hid : v.indexIds.getLast? = some id)
    (hindex : w.indexes[id]? = some index)
    (run : (Network.optimizeInverters index options).run net = .ok stats net') :
    (v.optimizeInverters options).run w
      = .ok stats { w with networks := w.networks.setIfInBounds v.networkId net' } := by
  rw [View.optimizeInverters, Edit.run_bind_ok (View.currentIndex_run hid hindex)]
  exact View.edit_run hnet run

/-- Through a view whose fanout index is current, a run of at most `k` rounds followed by an unlimited one
leaves the store that one unlimited run leaves, and together they gain as much by as many moves. -/
theorem Workspace.Reachable.inverters_resume (reachable : w.Reachable) (twoLevel : Bool) (k : Nat)
    {id : Nat} (hnet : w.networks[v.networkId]? = some net) (family : net.family = .mig)
    (hid : v.indexIds.getLast? = some id) (hindex : w.indexes[id]? = some index)
    (current : index.Current net) : ∃ stats net' stats₁ net₁ stats₂ net₂,
      (v.optimizeInverters { twoLevel, maxRounds := none }).run w
        = .ok stats { w with networks := w.networks.setIfInBounds v.networkId net' } ∧
      (v.optimizeInverters { twoLevel, maxRounds := some k }).run w
        = .ok stats₁ { w with networks := w.networks.setIfInBounds v.networkId net₁ } ∧
      (v.optimizeInverters { twoLevel, maxRounds := none }).run
          { w with networks := w.networks.setIfInBounds v.networkId net₁ }
        = .ok stats₂ { w with networks := w.networks.setIfInBounds v.networkId net₂ } ∧
      SameStore net' net₂ ∧
      stats₁.totalGain + stats₂.totalGain = stats.totalGain ∧
      stats₁.numInvertedGates + stats₂.numInvertedGates = stats.numInvertedGates ∧
      stats₁.oneLevelMoves + stats₂.oneLevelMoves = stats.oneLevelMoves ∧
      stats₁.twoLevelMoves + stats₂.twoLevelMoves = stats.twoLevelMoves := by
  have consed : net.HashConsed := (reachable.sound _ net hnet).hashConsed
  obtain ⟨stats, net', stats₁, net₁, stats₂, net₂, single, first, second, same, moves⟩ :=
    optimizeInverters_resume ⟨consed, family, current⟩ twoLevel k
  have inBounds : v.networkId < w.networks.size := (Array.getElem?_eq_some_iff.1 hnet).1
  refine ⟨stats, net', stats₁, net₁, stats₂, net₂, ?_, ?_, ?_, same, moves.totalGain,
    moves.numInvertedGates, moves.oneLevelMoves, moves.twoLevelMoves⟩
  · exact View.optimizeInverters_run hnet hid hindex single
  · exact View.optimizeInverters_run hnet hid hindex first
  · let w' : Workspace := { w with networks := w.networks.setIfInBounds v.networkId net₁ }
    have hnet' : w'.networks[v.networkId]? = some net₁ := by simp [w', inBounds]
    refine (View.optimizeInverters_run (w := w') hnet' hid hindex second).trans ?_
    simp only [w', Array.setIfInBounds_setIfInBounds]

section sample

open Workspace

/-- The pass over the sample is interrupted after its first round. -/
theorem sample_inverters_resume : sampleIndexed.Reachable ∧
    sampleIndexed.networks[0]? = some sampleNetwork ∧ sampleNetwork.family = .mig ∧
    sampleIndexed.indexes[0]? = some (.ofNetwork sampleNetwork) ∧
    (FanoutIndex.ofNetwork sampleNetwork).Current sampleNetwork ∧
    ∃ stats net' stats₁ net₁ stats₂ net₂,
      ((View.fanout (.network 0) 0).optimizeInverters { twoLevel := true, maxRounds := none }).run
          sampleIndexed
        = .ok stats { sampleIndexed with networks := sampleIndexed.networks.setIfInBounds 0 net' } ∧
      ((View.fanout (.network 0) 0).optimizeInverters { twoLevel := true, maxRounds := some 1 }).run
          sampleIndexed
        = .ok stats₁ { sampleIndexed with networks := sampleIndexed.networks.setIfInBounds 0 net₁ } ∧
      ((View.fanout (.network 0) 0).optimizeInverters { twoLevel := true, maxRounds := none }).run
          { sampleIndexed with networks := sampleIndexed.networks.setIfInBounds 0 net₁ }
        = .ok stats₂ { sampleIndexed with networks := sampleIndexed.networks.setIfInBounds 0 net₂ } ∧
      SameStore net' net₂ ∧
      stats₁.totalGain + stats₂.totalGain = stats.totalGain ∧
      stats₁.numInvertedGates + stats₂.numInvertedGates = stats.numInvertedGates ∧
      stats₁.oneLevelMoves + stats₂.oneLevelMoves = stats.oneLevelMoves ∧
      stats₁.twoLevelMoves + stats₂.twoLevelMoves = stats.twoLevelMoves := by
  have family : sampleNetwork.family = .mig := by decide +kernel
  have indexed : sampleIndexed.indexes[0]? = some (.ofNetwork sampleNetwork) := by decide +kernel
  have current := FanoutIndex.current_ofNetwork sampleNetwork
  exact ⟨reachable_sampleIndexed, getElem?_sampleIndexed, family, indexed, current,
    reachable_sampleIndexed.inverters_resume (v := .fanout (.network 0) 0) true 1 getElem?_sampleIndexed
      family rfl indexed current⟩

end sample

end LogicNet
