import LogicNet.Proofs.ComplementedEdges

/-! # The pass over inverters

However often gates are inverted and inversions are undone, the pass knows exactly how many complemented
edges it has removed: the gain that is computed before an inversion is the change that the inversion makes.
So what a step does depends only on which gates are inverted, and a step that keeps no inversion leaves
everything as it was.
-/

namespace LogicNet

/-- The index lists the parents of every node, in whatever order. -/
def FanoutIndex.Current (index : FanoutIndex) (net : Network) : Prop :=
  ∀ n < net.size, (index.fanout n).Perm (net.parents n)

namespace InverterStats

/-- What two stretches of a pass did together. -/
def add (s d : InverterStats) : InverterStats where
  totalGain := s.totalGain + d.totalGain
  numInvertedGates := s.numInvertedGates + d.numInvertedGates
  oneLevelMoves := s.oneLevelMoves + d.oneLevelMoves
  twoLevelMoves := s.twoLevelMoves + d.twoLevelMoves
  rounds := s.rounds + d.rounds

instance : Add InverterStats := ⟨add⟩

theorem add_zero (s : InverterStats) : s + {} = s := by
  change s.add {} = s
  simp [add]

theorem zero_add (s : InverterStats) : {} + s = s := by
  change add {} s = s
  simp [add]

theorem add_assoc (s d e : InverterStats) : s + d + e = s + (d + e) := by
  change (s.add d).add e = s.add (d.add e)
  simp only [add, Int.add_assoc, Nat.add_assoc]

end InverterStats

open Network

namespace InverterPass

variable {net : Network} {fanout : FanoutIndex} {f g : Nat → Bool} {p p' p'' : InverterPass}
  {n : Nat} {changed : Bool}

/-- The pass has inverted the gates of `f` and knows the gains at the outputs. -/
structure Tracks (net : Network) (f : Nat → Bool) (p : InverterPass) : Prop where
  polarities : Repolarized net f p.net
  outputGain : ∀ n < net.size, p.outputGain[n]? = some (referenceGain p.net.outputs n)

theorem getElem?_foldl_flipGain (outputs : List Signal) (gains : Array Int) (n : Nat) :
    (outputs.foldl (fun gains s => gains.modify s.node (· + flipGain s)) gains)[n]?
      = gains[n]?.map (· + referenceGain outputs n) := by
  induction outputs generalizing gains with
  | nil => simp [referenceGain]
  | cons s rest ih =>
    rw [List.foldl_cons, ih, Array.getElem?_modify]
    by_cases h : s.node = n
    · simp [h, referenceGain, Function.comp_def, Int.add_assoc]
    · simp [h, referenceGain]

theorem Tracks.start (consed : net.HashConsed) : Tracks net (fun _ => false) (.start net) where
  polarities := .refl consed
  outputGain n hn := by
    rw [InverterPass.start, getElem?_foldl_flipGain]
    simp [hn]

/-- The statistics are no part of what is tracked. -/
theorem Tracks.withStats (tracks : Tracks net f p) (stats : InverterStats) :
    Tracks net f { p with stats } :=
  ⟨tracks.polarities, tracks.outputGain⟩

theorem flipGain_complement (s : Signal) : flipGain s.complement = - flipGain s := by
  unfold flipGain Signal.complement
  cases s.complemented <;> rfl

theorem referenceGain_map_flipped (l : List Signal) (n m : Nat) :
    referenceGain (l.map (flipped n)) m = if n = m then - referenceGain l n else referenceGain l m := by
  induction l with
  | nil => simp [referenceGain]
  | cons s rest ih =>
    simp only [referenceGain, List.map_cons, List.filter_cons, flipped_node] at ih ⊢
    by_cases hs : s.node = m <;> by_cases hn : n = m
    · subst hs hn
      simp_all [flipped, flipGain_complement]
      omega
    · simp_all [flipped, Ne.symm hn]
    · simp_all
    · simp_all

/-- What the pass relies on. -/
structure Optimizable (net : Network) (fanout : FanoutIndex) : Prop where
  consed : net.HashConsed
  family : net.family = .mig
  current : fanout.Current net

/-- Parents of gates are live gates. -/
theorem Optimizable.live_parents (ready : Optimizable net fanout) (hn : n ∈ net.liveGates) :
    ∀ q ∈ fanout.fanout n, q ∈ net.liveGates := fun _ hq =>
  List.mem_of_mem_filter ((ready.current n (lt_size_of_isLive (mem_liveGates.1 hn).1)).mem_iff.1 hq)

/-- Inverting a gate. -/
theorem Tracks.flip_run (tracks : Tracks net f p) (family : net.family = .mig)
    (hn : n ∈ net.liveGates) :
    ∃ p', (flip n).run p = .ok () p' ∧ Tracks net (toggled f n) p' ∧ p'.stats = p.stats := by
  obtain ⟨live, gate⟩ := mem_liveGates.1 hn
  have same := tracks.polarities
  obtain ⟨net', run, inverted⟩ := same.consed.invertGate_run (same.family.trans family)
    ((congrFun same.live n).trans live) (same.isGate.2 gate)
  refine ⟨{ p with net := net', outputGain := p.outputGain.modify n (- ·) }, ?_,
    ⟨same.inverted live gate inverted, fun m hm => ?_⟩, rfl⟩
  · have run : invertGate n p.net = .ok () net' := run
    rw [flip, Edit.run_get_bind]
    simp only [run]
    rfl
  · have outputs : net'.outputs = p.net.outputs.map (flipped n) := inverted.graph.outputs
    rw [Array.getElem?_modify, outputs, referenceGain_map_flipped, tracks.outputGain m hm]
    by_cases h : n = m
    · simp [h]
    · simp [h]

/-- The gain of a gate is what inverting it removes, whatever was inverted before. -/
theorem Optimizable.gain_eq_ok (ready : Optimizable net fanout) (tracks : Tracks net f p)
    (hn : n ∈ net.liveGates) :
    p.gain fanout n = .ok (net.edgesRemoved (toggled f n) - net.edgesRemoved f) := by
  obtain ⟨live, gate⟩ := mem_liveGates.1 hn
  have same := tracks.polarities
  have hlt : n < net.size := lt_size_of_isLive live
  have liveNow : p.net.isLive n = true := (congrFun same.live n).trans live
  have gateNow : p.net.IsGate n := same.isGate.2 gate
  obtain ⟨net', -, inverted⟩ := same.consed.invertGate_run (same.family.trans ready.family) liveNow gateNow
  -- Inverting the gate is measured twice: in the network as it is now and from the beginning of the pass.
  have single : p.net.edgesRemoved (toggled (fun _ => false) n)
      = net.edgesRemoved (toggled f n) - net.edgesRemoved f := by
    rw [same.edgesRemoved_sub (same.inverted live gate inverted)]
    exact ((Repolarized.refl same.consed).inverted liveNow gateNow inverted).edgesRemoved_eq
  have atParents : (fanout.fanout n).mapM (fun parent => (do
      return (((← p.net.fanins parent).filter (·.node == n)).map flipGain).sum : Except Fault Int))
      = .ok ((fanout.fanout n).map fun parent => referenceGain (p.net.slots parent) n) := by
    refine mapM_eq_ok fun parent hparent => ?_
    obtain ⟨liveParent, -⟩ := mem_parents.1 ((ready.current n hlt).mem_iff.1 hparent)
    rw [fanins_of_lt (same.size.symm ▸ lt_size_of_isLive liveParent)]
    rfl
  have sums : ((fanout.fanout n).map fun parent => referenceGain (p.net.slots parent) n).sum
      = ((p.net.parents n).map fun parent => referenceGain (p.net.slots parent) n).sum := by
    rw [same.parents]
    exact ((ready.current n hlt).map _).sum_eq
  rw [← single, same.consed.toWellFormed.edgesRemoved_single liveNow gateNow, ← sums, gain,
    tracks.outputGain n hlt, fanins_of_lt (same.size.symm ▸ hlt), atParents]
  rfl

/-- The gates that were live before the pass stay so. -/
theorem Tracks.node_eq_ok (tracks : Tracks net f p) (hn : n ∈ net.liveGates) :
    ∃ nd, p.net.node n = .ok nd ∧ nd.dead = false := by
  have liveNow : p.net.isLive n = true :=
    (congrFun tracks.polarities.live n).trans (mem_liveGates.1 hn).1
  obtain ⟨nd, hnd⟩ := exists_node (lt_size_of_isLive liveNow)
  rw [isLive_of_getElem? hnd] at liveNow
  exact ⟨nd, Network.node_eq_ok.2 hnd, by simpa using liveNow⟩

/-- What a step does depends only on which gates are inverted: where those of `f` are, it ends with the
result `a` and the gates of `g` inverted, and adds `d` to the statistics. -/
def Moves {α : Type} (net : Network) (f : Nat → Bool) (step : Step α) (a : α) (g : Nat → Bool)
    (d : InverterStats) : Prop :=
  ∀ p, Tracks net f p → ∃ p', step.run p = .ok a p' ∧ Tracks net g p' ∧ p'.stats = p.stats + d

namespace Moves

variable {α β : Type} {step : Step α} {next : α → Step β} {a : α} {b : β} {h : Nat → Bool}
  {d e : InverterStats}

theorem pure (net : Network) (f : Nat → Bool) (a : α) : Moves net f (Pure.pure a) a f {} :=
  fun p tracks => ⟨p, rfl, tracks, p.stats.add_zero.symm⟩

theorem bind (first : Moves net f step a g d) (second : Moves net g (next a) b h e) :
    Moves net f (step >>= next) b h (d + e) := by
  intro p tracks
  obtain ⟨p₁, run₁, tracks₁, stats₁⟩ := first p tracks
  obtain ⟨p₂, run₂, tracks₂, stats₂⟩ := second p₁ tracks₁
  refine ⟨p₂, (Edit.run_bind_ok run₁ next).trans run₂, tracks₂, ?_⟩
  rw [stats₂, stats₁, InverterStats.add_assoc]

/-- After a step that adds nothing to the statistics. -/
theorem after (first : Moves net f step a g {}) (second : Moves net g (next a) b h e) :
    Moves net f (step >>= next) b h e := by
  have both := first.bind second
  rwa [InverterStats.zero_add] at both

/-- A result is changed in the end. -/
theorem result (first : Moves net f step a g d) (k : α → β) :
    Moves net f (step >>= fun a => Pure.pure (k a)) (k a) g d := by
  rw [← InverterStats.add_zero d]
  exact first.bind (pure net g (k a))

theorem flip (family : net.family = .mig) (hn : n ∈ net.liveGates) (f : Nat → Bool) :
    Moves net f (InverterPass.flip n) () (toggled f n) {} := by
  intro p tracks
  obtain ⟨p', run, tracks', stats⟩ := tracks.flip_run family hn
  exact ⟨p', run, tracks', stats.trans p.stats.add_zero.symm⟩

theorem recordMove (net : Network) (f : Nat → Bool) (gain : Int) (inverted : Nat) (twoLevel : Bool) :
    Moves net f (InverterPass.recordMove gain inverted twoLevel) () f
      { totalGain := gain, numInvertedGates := inverted, oneLevelMoves := (!twoLevel).toNat,
        twoLevelMoves := twoLevel.toNat } :=
  fun _ tracks => ⟨_, rfl, tracks.withStats _, rfl⟩

/-- A step does one thing only. -/
theorem result_eq {a' : α} {d' : InverterStats} (moves : Moves net f step a g d)
    (moves' : Moves net f step a' h d') (tracks : Tracks net f p) : a = a' := by
  obtain ⟨_, run, -⟩ := moves p tracks
  obtain ⟨_, run', -⟩ := moves' p tracks
  cases run.symm.trans run'
  rfl

end Moves

/-- What is said of a step that may invert gates for good: the edges that it removes are those that it
reports, and there are some unless it changed nothing at all. -/
structure Gains (net : Network) (f : Nat → Bool) (changed : Bool) (g : Nat → Bool)
    (d : InverterStats) : Prop where
  reported : d.totalGain = net.edgesRemoved g - net.edgesRemoved f
  rounds : d.rounds = 0
  removed : changed = true → net.edgesRemoved f < net.edgesRemoved g
  idle : changed = false → g = f ∧ d = {}

namespace Gains

theorem none (net : Network) (f : Nat → Bool) : Gains net f false f {} where
  reported := (Int.sub_self _).symm
  rounds := rfl
  removed h := by cases h
  idle _ := ⟨rfl, rfl⟩

theorem le {d : InverterStats} (gains : Gains net f changed g d) :
    net.edgesRemoved f ≤ net.edgesRemoved g := by
  cases changed with
  | true => exact Int.le_of_lt (gains.removed rfl)
  | false => rw [(gains.idle rfl).1]

theorem trans {h : Nat → Bool} {changed' : Bool} {d e : InverterStats}
    (first : Gains net f changed g d) (second : Gains net g changed' h e) :
    Gains net f (changed' || changed) h (d + e) where
  reported := by
    have := first.reported
    have := second.reported
    change d.totalGain + e.totalGain = _
    omega
  rounds := by
    change d.rounds + e.rounds = 0
    rw [first.rounds, second.rounds]
  removed some := by
    rcases Bool.or_eq_true _ _ ▸ some with some | some
    · exact Int.lt_of_le_of_lt first.le (second.removed some)
    · exact Int.lt_of_lt_of_le (first.removed some) second.le
  idle none := by
    obtain ⟨none', none⟩ := Bool.or_eq_false_iff.1 none
    obtain ⟨rfl, rfl⟩ := first.idle none
    obtain ⟨rfl, rfl⟩ := second.idle none'
    exact ⟨rfl, InverterStats.add_zero {}⟩

end Gains

/-- A step that succeeds, wherever the pass is. -/
def Decided (net : Network) (step : Step Bool) : Prop :=
  ∀ f, ∃ changed g d, Moves net f step changed g d ∧ Gains net f changed g d

/-- A one-level move is made where it removes edges. -/
theorem Optimizable.oneLevelMove_kept (ready : Optimizable net fanout) (hn : n ∈ net.liveGates)
    (more : net.edgesRemoved f < net.edgesRemoved (toggled f n)) :
    Moves net f (oneLevelMove fanout n) true (toggled f n)
      { totalGain := net.edgesRemoved (toggled f n) - net.edgesRemoved f, numInvertedGates := 1,
        oneLevelMoves := 1 } := by
  intro p tracks
  obtain ⟨nd, found, alive⟩ := tracks.node_eq_ok hn
  have gains := ready.gain_eq_ok tracks hn
  have pos : 0 < net.edgesRemoved (toggled f n) - net.edgesRemoved f := by omega
  rw [oneLevelMove, Edit.run_get_bind, found]
  simp only [Edit.lift_ok_fault, pure_bind, alive, Bool.false_eq_true, if_false, gains, pos, if_true]
  exact Moves.after (Moves.flip ready.family hn f)
    ((Moves.recordMove net (toggled f n) _ 1 false).result fun _ => true) p tracks

theorem Optimizable.oneLevelMove_idle (ready : Optimizable net fanout) (hn : n ∈ net.liveGates)
    (le : net.edgesRemoved (toggled f n) ≤ net.edgesRemoved f) :
    Moves net f (oneLevelMove fanout n) false f {} := by
  intro p tracks
  obtain ⟨nd, found, alive⟩ := tracks.node_eq_ok hn
  have gains := ready.gain_eq_ok tracks hn
  have none : ¬ 0 < net.edgesRemoved (toggled f n) - net.edgesRemoved f := by omega
  rw [oneLevelMove, Edit.run_get_bind, found]
  simp only [Edit.lift_ok_fault, pure_bind, alive, Bool.false_eq_true, if_false, gains, none]
  exact Moves.pure net f false p tracks

theorem Optimizable.oneLevelMove_decided (ready : Optimizable net fanout) (hn : n ∈ net.liveGates) :
    Decided net (oneLevelMove fanout n) := by
  intro f
  by_cases more : net.edgesRemoved f < net.edgesRemoved (toggled f n)
  · exact ⟨true, _, _, ready.oneLevelMove_kept hn more, rfl, rfl, fun _ => more, fun h => by cases h⟩
  · exact ⟨false, _, _, ready.oneLevelMove_idle hn (Int.not_lt.1 more), .none net f⟩

/-- One inversion after another, the first of the list last. -/
def toggledAll (f : Nat → Bool) (flipped : List Nat) : Nat → Bool :=
  flipped.foldr (fun n g => toggled g n) f

theorem toggledAll_cons (f : Nat → Bool) (n : Nat) (flipped : List Nat) :
    toggledAll f (n :: flipped) = toggled (toggledAll f flipped) n := rfl

/-- Inversions are undone in the opposite order. -/
theorem Moves.forM_flip (family : net.family = .mig) {flipped : List Nat}
    (gates : ∀ q ∈ flipped, q ∈ net.liveGates) (f : Nat → Bool) :
    Moves net (toggledAll f flipped) (flipped.forM InverterPass.flip) () f {} := by
  induction flipped with
  | nil => exact .pure net f ()
  | cons q rest ih =>
    obtain ⟨hq, others⟩ := List.forall_mem_cons.1 gates
    have first := Moves.flip family hq (toggledAll f (q :: rest))
    rw [toggledAll_cons, toggled_toggled] at first
    exact first.after (ih others)

/-- One more parent, inverted if that is a gain. -/
theorem Optimizable.flipParent_moves (ready : Optimizable net fanout) {q : Nat}
    (hq : q ∈ net.liveGates) (f : Nat → Bool) (total : Int) {flipped : List Nat}
    (gates : ∀ q ∈ flipped, q ∈ net.liveGates) : ∃ state : Int × List Nat,
      Moves net (toggledAll f flipped) (flipParent fanout (total, flipped) q) state
        (toggledAll f state.2) {} ∧
      state.1 - total = net.edgesRemoved (toggledAll f state.2)
        - net.edgesRemoved (toggledAll f flipped) ∧
      ∀ q ∈ state.2, q ∈ net.liveGates := by
  generalize hgain : net.edgesRemoved (toggled (toggledAll f flipped) q)
    - net.edgesRemoved (toggledAll f flipped) = gain
  by_cases pos : 0 < gain
  · refine ⟨(total + gain, q :: flipped), fun p tracks => ?_, ?_, List.forall_mem_cons.2 ⟨hq, gates⟩⟩
    · have gains := ready.gain_eq_ok tracks hq
      rw [hgain] at gains
      rw [flipParent, Edit.run_get_bind, gains]
      simp only [Edit.lift_ok_fault, pure_bind, pos, if_true]
      exact (Moves.flip ready.family hq _).result (fun _ => (total + gain, q :: flipped)) p tracks
    · change total + gain - total = net.edgesRemoved (toggled (toggledAll f flipped) q) - _
      omega
  · refine ⟨(total, flipped), fun p tracks => ?_, by simp, gates⟩
    have gains := ready.gain_eq_ok tracks hq
    rw [hgain] at gains
    rw [flipParent, Edit.run_get_bind, gains]
    simp only [Edit.lift_ok_fault, pure_bind, pos, if_false]
    exact Moves.pure net _ (total, flipped) p tracks

/-- The parents of a gate that is inverted on trial. -/
theorem Optimizable.flipParents_moves (ready : Optimizable net fanout) (f : Nat → Bool)
    {parents : List Nat} (members : ∀ q ∈ parents, q ∈ net.liveGates) :
    ∀ (total : Int) {flipped : List Nat}, (∀ q ∈ flipped, q ∈ net.liveGates) →
      ∃ state : Int × List Nat,
        Moves net (toggledAll f flipped) (parents.foldlM (flipParent fanout) (total, flipped)) state
          (toggledAll f state.2) {} ∧
        state.1 - total = net.edgesRemoved (toggledAll f state.2)
          - net.edgesRemoved (toggledAll f flipped) ∧
        ∀ q ∈ state.2, q ∈ net.liveGates := by
  induction parents with
  | nil => exact fun total flipped gates => ⟨(total, flipped), .pure net _ _, by simp, gates⟩
  | cons q rest ih =>
    intro total flipped gates
    obtain ⟨hq, others⟩ := List.forall_mem_cons.1 members
    obtain ⟨⟨total₁, flipped₁⟩, moves₁, gain₁, gates₁⟩ := ready.flipParent_moves hq f total gates
    obtain ⟨state, moves, gain, gates'⟩ := ih others total₁ gates₁
    refine ⟨state, ?_, ?_, gates'⟩
    · rw [List.foldlM_cons]
      exact moves₁.after moves
    · dsimp only at gain gain₁
      omega

theorem Optimizable.twoLevelMove_decided (ready : Optimizable net fanout) (hn : n ∈ net.liveGates) :
    Decided net (twoLevelMove fanout n) := by
  intro f
  -- The parents are those from before the pass: inversions do not change which gates they are.
  obtain ⟨⟨total, flipped⟩, trial, gain, gates⟩ := ready.flipParents_moves (toggled f n)
    (ready.live_parents hn) (net.edgesRemoved (toggled f n) - net.edgesRemoved f)
    fun q (hq : q ∈ []) => absurd hq List.not_mem_nil
  have total_eq : total = net.edgesRemoved (toggledAll (toggled f n) flipped) - net.edgesRemoved f := by
    change total - _ = net.edgesRemoved (toggledAll (toggled f n) flipped)
      - net.edgesRemoved (toggled f n) at gain
    omega
  -- What is left of the move once the gate and its parents are inverted.
  have begun {changed : Bool} {g : Nat → Bool} {d : InverterStats}
      (rest : Moves net (toggledAll (toggled f n) flipped) (if 0 < total && !flipped.isEmpty then do
          recordMove total (1 + flipped.length) true
          return true
        else do
          flipped.forM flip
          flip n
          return false : Step Bool) changed g d) :
      Moves net f (twoLevelMove fanout n) changed g d := by
    intro p tracks
    obtain ⟨nd, found, alive⟩ := tracks.node_eq_ok hn
    rw [twoLevelMove, Edit.run_get_bind, found]
    simp only [Edit.lift_ok_fault, pure_bind, alive, Bool.false_eq_true, if_false,
      ready.gain_eq_ok tracks hn]
    refine Moves.after (Moves.flip ready.family hn f) ?_ p tracks
    exact trial.after rest
  by_cases kept : (0 < total && !flipped.isEmpty) = true
  · have pos : 0 < total := by simp_all
    have more : net.edgesRemoved f < net.edgesRemoved (toggledAll (toggled f n) flipped) := by omega
    let d : InverterStats :=
      { totalGain := total, numInvertedGates := 1 + flipped.length, twoLevelMoves := 1 }
    refine ⟨true, _, d, begun ?_, total_eq, rfl, fun _ => more, fun h => by cases h⟩
    rw [if_pos kept]
    exact (Moves.recordMove net _ total (1 + flipped.length) true).result fun _ => true
  · refine ⟨false, f, {}, begun ?_, .none net f⟩
    have undone := Moves.flip ready.family hn (toggled f n)
    rw [toggled_toggled] at undone
    rw [if_neg kept]
    exact (Moves.forM_flip ready.family gates (toggled f n)).after (undone.result fun _ => false)

/-- A sweep does what its moves do; without a change, none of them does anything. -/
theorem sweep_moves {move : Nat → Step Bool} {gates : List Nat}
    (decided : ∀ n ∈ gates, Decided net (move n)) (f : Nat → Bool) : ∃ changed g d,
      Moves net f (sweep move gates) changed g d ∧ Gains net f changed g d ∧
      (changed = false → ∀ n ∈ gates, Moves net f (move n) false f {}) := by
  have from_flag (before : Bool) : ∃ changed g d,
      Moves net f (gates.foldlM (fun changed n => return (← move n) || changed) before)
        (changed || before) g d ∧ Gains net f changed g d ∧
      (changed = false → ∀ n ∈ gates, Moves net f (move n) false f {}) := by
    induction gates generalizing f before with
    | nil => exact ⟨false, f, {}, .pure net f before, .none net f, fun _ n hn => by cases hn⟩
    | cons n rest ih =>
      obtain ⟨first, others⟩ := List.forall_mem_cons.1 decided
      obtain ⟨kept, g, d, moves, gains⟩ := first f
      obtain ⟨changed, h, e, moves', gains', idle⟩ := ih others g (kept || before)
      refine ⟨changed || kept, h, d + e, ?_, gains.trans gains', fun none => ?_⟩
      · rw [List.foldlM_cons, Bool.or_assoc]
        exact (moves.result fun kept => kept || before).bind moves'
      · obtain ⟨none', none⟩ := Bool.or_eq_false_iff.1 none
        obtain ⟨rfl, rfl⟩ := gains.idle none
        subst none
        exact List.forall_mem_cons.2 ⟨moves, idle none'⟩
  obtain ⟨changed, g, d, moves, gains, idle⟩ := from_flag false
  rw [Bool.or_false] at moves
  exact ⟨changed, g, d, moves, gains, idle⟩

theorem sweep_decided {move : Nat → Step Bool} {gates : List Nat}
    (decided : ∀ n ∈ gates, Decided net (move n)) : Decided net (sweep move gates) := by
  intro f
  obtain ⟨changed, g, d, moves, gains, -⟩ := sweep_moves decided f
  exact ⟨changed, g, d, moves, gains⟩

/-- No inversion of a single gate removes edges. -/
def LocallyOptimal (net : Network) (f : Nat → Bool) : Prop :=
  ∀ n ∈ net.liveGates, net.edgesRemoved (toggled f n) ≤ net.edgesRemoved f

theorem Optimizable.le_of_idle (ready : Optimizable net fanout) (hn : n ∈ net.liveGates)
    (tracks : Tracks net f p) (idle : Moves net f (oneLevelMove fanout n) false f {}) :
    net.edgesRemoved (toggled f n) ≤ net.edgesRemoved f := by
  by_contra more
  cases (ready.oneLevelMove_kept hn (Int.not_le.1 more)).result_eq idle tracks

theorem round_eq (fanout : FanoutIndex) (twoLevel : Bool) (gates : List Nat) :
    round fanout twoLevel gates = do
      modify fun p => { p with stats := { p.stats with rounds := p.stats.rounds + 1 } }
      let forward ← sweep (oneLevelMove fanout) gates
      let backward ← sweep (oneLevelMove fanout) gates.reverse
      let both ← (if twoLevel then sweep (twoLevelMove fanout) gates else pure false : Step Bool)
      return forward || backward || both := by
  cases twoLevel <;> rfl

/-- A round.  Without a change, no single inversion would have been a gain. -/
theorem Optimizable.round_moves (ready : Optimizable net fanout) (twoLevel : Bool)
    (tracks : Tracks net f p) : ∃ changed g d,
      Moves net f (round fanout twoLevel net.liveGates) changed g ({ rounds := 1 } + d) ∧
      Gains net f changed g d ∧ (changed = false → LocallyOptimal net f) := by
  have oneLevel : ∀ n ∈ net.liveGates, Decided net (oneLevelMove fanout n) :=
    fun n hn => ready.oneLevelMove_decided hn
  have twoLevels : Decided net
      (if twoLevel then sweep (twoLevelMove fanout) net.liveGates else pure false) := by
    split
    · exact sweep_decided fun n hn => ready.twoLevelMove_decided hn
    · exact fun f => ⟨false, f, {}, .pure net f false, .none net f⟩
  obtain ⟨forward, f₁, d₁, moves₁, gains₁, idle⟩ := sweep_moves oneLevel f
  obtain ⟨backward, f₂, d₂, moves₂, gains₂⟩ :=
    sweep_decided (fun n hn => oneLevel n (List.mem_reverse.1 hn)) f₁
  obtain ⟨both, f₃, d₃, moves₃, gains₃⟩ := twoLevels f₂
  have gains := (gains₁.trans gains₂).trans gains₃
  rw [Bool.or_comm backward forward, Bool.or_comm both _] at gains
  refine ⟨forward || backward || both, f₃, d₁ + d₂ + d₃, ?_, gains, fun none n hn => ?_⟩
  · have counted : Moves net f (modify fun p : InverterPass => { p with stats :=
        { p.stats with rounds := p.stats.rounds + 1 } } : Step Unit) () f { rounds := 1 } :=
      fun p tracks => ⟨_, rfl, tracks.withStats _, by
        change _ = p.stats.add { rounds := 1 }
        simp [InverterStats.add]⟩
    rw [InverterStats.add_assoc d₁, round_eq]
    refine counted.bind (moves₁.bind (moves₂.bind ?_))
    exact moves₃.result fun both => forward || backward || both
  · obtain ⟨none, -⟩ := Bool.or_eq_false_iff.1 none
    exact ready.le_of_idle hn tracks (idle (Bool.or_eq_false_iff.1 none).1 n hn)

end InverterPass

end LogicNet
