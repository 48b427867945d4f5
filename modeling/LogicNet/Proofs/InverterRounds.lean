import LogicNet.Proofs.InverterPass
import Mathlib.Data.Finset.Powerset

/-! # Rounds of the pass over inverters

A round that changes anything removes complemented edges, so the rounds come to an end, after at most one
more than there are edges to be removed.  The last round of an unlimited run has changed nothing, and it
changes nothing if it is repeated.
-/

namespace LogicNet.InverterPass

open Network

variable {net : Network} {fanout : FanoutIndex} {f g : Nat → Bool} {p p' : InverterPass}
  {options : InverterOptions} {fuel : Nat}

/-- Sets of gates whose inversion removes more edges than that of `f`. -/
def better (net : Network) (f : Nat → Bool) : Finset (Finset Nat) :=
  net.liveGates.toFinset.powerset.filter fun S => net.edgesRemoved f < net.edgesRemoved (· ∈ S)

theorem card_better_le (net : Network) (f : Nat → Bool) :
    (better net f).card ≤ 2 ^ net.liveGates.length := by
  have sets : net.liveGates.toFinset.powerset.card = 2 ^ net.liveGates.length := by
    rw [Finset.card_powerset, List.toFinset_card_of_nodup (nodup_liveGates net)]
  exact sets ▸ Finset.card_filter_le _ _

/-- Removing more edges leaves fewer sets that are better still. -/
theorem card_better_lt {net' : Network} (same : Repolarized net g net')
    (more : net.edgesRemoved f < net.edgesRemoved g) : (better net g).card < (better net f).card := by
  -- The gates that are inverted now are better than those before, but not better than themselves.
  let S : Finset Nat := net.liveGates.toFinset.filter fun n => g n = true
  have hS : (fun n => decide (n ∈ S)) = g := by
    funext n
    rw [Bool.eq_iff_iff, decide_eq_true_iff, Finset.mem_filter, List.mem_toFinset, mem_liveGates]
    exact and_iff_right_of_imp (same.gates n)
  refine Finset.card_lt_card (Finset.ssubset_iff_of_subset ?_ |>.2 ⟨S, ?_, ?_⟩)
  · refine Finset.monotone_filter_right _ fun T _ hT => ?_
    exact more.trans hT
  · rw [better, Finset.mem_filter, hS]
    exact ⟨Finset.mem_powerset.2 (Finset.filter_subset _ _), more⟩
  · rw [better, Finset.mem_filter, hS]
    exact fun h => absurd h.2 (lt_irrefl _)

/-- The fuel is enough for the rounds that are left. -/
def Fueled (net : Network) (options : InverterOptions) (fuel : Nat) (f : Nat → Bool)
    (p : InverterPass) : Prop :=
  match options.maxRounds with
  | some k => p.stats.rounds ≤ k ∧ k < fuel + p.stats.rounds
  | none => (better net f).card < fuel

/-- The rounds that are allowed from the start are enough. -/
theorem Fueled.start (net : Network) (options : InverterOptions) :
    Fueled net options (roundBound options net.liveGates) (fun _ => false) (.start net) := by
  unfold Fueled
  split
  · next k hk =>
    simp only [roundBound, hk, InverterPass.start]
    omega
  · next hk =>
    have le := card_better_le net fun _ => false
    simp only [roundBound, hk]
    omega

/-- A round that removes edges uses up one unit of the fuel. -/
theorem Fueled.next (fueled : Fueled net options (fuel + 1) f p) (same : Repolarized net g p'.net)
    (rounds : p'.stats.rounds = p.stats.rounds + 1) (more : net.edgesRemoved f < net.edgesRemoved g)
    (limit : ¬ options.maxRounds.any (· ≤ p.stats.rounds) = true) : Fueled net options fuel g p' := by
  unfold Fueled at fueled ⊢
  split
  · next k hk =>
    simp only [hk, Option.any_some, decide_eq_true_eq] at fueled limit
    omega
  · next hk =>
    simp only [hk] at fueled
    have fewer := card_better_lt same more
    omega

/-- A round from here changes nothing, and no inversion of a single gate would remove edges. -/
structure Settled (net : Network) (fanout : FanoutIndex) (twoLevel : Bool) (f : Nat → Bool) : Prop where
  idle : Moves net f (round fanout twoLevel net.liveGates) false f { rounds := 1 }
  optimal : LocallyOptimal net f

/-- What the rounds of a run come to. -/
structure Ran (net : Network) (fanout : FanoutIndex) (options : InverterOptions) (f : Nat → Bool)
    (p : InverterPass) (g : Nat → Bool) (p' : InverterPass) : Prop where
  tracks : Tracks net g p'
  reported : p'.stats.totalGain - p.stats.totalGain = net.edgesRemoved g - net.edgesRemoved f
  le : net.edgesRemoved f ≤ net.edgesRemoved g
  rounds : (p'.stats.rounds : Int) ≤ p.stats.rounds + (net.edgesRemoved g - net.edgesRemoved f) + 1
  settled : options.maxRounds = none → Settled net fanout options.twoLevel g

/-- With enough fuel the rounds come to an end, and all of what they remove is reported. -/
theorem Optimizable.runRounds_run (ready : Optimizable net fanout) (options : InverterOptions)
    (fuel : Nat) : ∀ {f : Nat → Bool} {p : InverterPass}, Tracks net f p →
      Fueled net options fuel f p → ∃ g p',
        (runRounds fanout options net.liveGates fuel).run p = .ok () p' ∧
          Ran net fanout options f p g p' := by
  induction fuel with
  | zero =>
    intro f p tracks fueled
    unfold Fueled at fueled
    split at fueled <;> omega
  | succ fuel ih =>
    intro f p tracks fueled
    rw [runRounds, Edit.run_get_bind]
    split
    · next limit =>
      refine ⟨f, p, rfl, tracks, by omega, Int.le_refl _, by omega, fun none => ?_⟩
      rw [none] at limit
      cases limit
    · next more =>
      obtain ⟨changed, g, d, moves, gains, optimal⟩ := ready.round_moves options.twoLevel tracks
      obtain ⟨p₁, run, tracks₁, stats⟩ := moves p tracks
      have reported : p₁.stats.totalGain = p.stats.totalGain + (0 + d.totalGain) := by
        rw [stats]
        rfl
      have rounds : p₁.stats.rounds = p.stats.rounds + (1 + d.rounds) := by
        rw [stats]
        rfl
      have gain := gains.reported
      rw [gains.rounds] at rounds
      rw [Edit.run_bind_ok run]
      cases changed with
      | false =>
        obtain ⟨rfl, rfl⟩ := gains.idle rfl
        rw [InverterStats.add_zero] at moves
        exact ⟨g, p₁, rfl, tracks₁, by omega, Int.le_refl _, by omega, fun _ => ⟨moves, optimal rfl⟩⟩
      | true =>
        have strict := gains.removed rfl
        obtain ⟨h, p', run', ran⟩ :=
          ih tracks₁ (fueled.next tracks₁.polarities (by omega) strict more)
        have reported' := ran.reported
        have le := ran.le
        have rounds' := ran.rounds
        exact ⟨h, p', run', ran.tracks, by omega, by omega, by omega, ran.settled⟩

/-- A run that begins where a round changes nothing ends after that round. -/
theorem Settled.runRounds_run (settled : Settled net fanout options.twoLevel f)
    (unlimited : options.maxRounds = none) (tracks : Tracks net f p) (fuel : Nat) : ∃ p',
      (runRounds fanout options net.liveGates (fuel + 1)).run p = .ok () p' ∧ Tracks net f p' ∧
        p'.stats = p.stats + { rounds := 1 } := by
  obtain ⟨p', run, moved⟩ := settled.idle p tracks
  refine ⟨p', ?_, moved⟩
  rw [runRounds, Edit.run_get_bind, unlimited]
  simp only [Option.any_none, Bool.false_eq_true, if_false]
  rw [Edit.run_bind_ok run]
  rfl

end LogicNet.InverterPass
