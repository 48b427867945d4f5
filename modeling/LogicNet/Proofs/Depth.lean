import LogicNet.Proofs.Postorder
import LogicNet.Proofs.Workspaces

/-! # Depth

The depth of a network is the height of its highest output, and the number of gates on the longest path from
a constant or an input to an output.  Levels are entered in topological order, whatever the order of creation
is, so a level is final before it is read.
-/

namespace LogicNet

namespace Network

variable {net net' : Network} {height : Nat → Nat} {nodes : Nat → Prop} {m n k : Nat}

/-- Height of a node over given heights of its fanins: constants and inputs are at the bottom, and a gate is
one above the highest of its fanins. -/
def heightOver (net : Network) (height : Nat → Nat) (n : Nat) : Nat :=
  match net.kind? n with
  | some (.gate _ fanins) => (fanins.map (height ·.node)).max?.getD 0 + 1
  | _ => 0

/-- The heights of some nodes are those over their fanins. -/
def Heights (net : Network) (height : Nat → Nat) (nodes : Nat → Prop) : Prop :=
  ∀ n, nodes n → height n = net.heightOver height n

/-- A path from a constant or an input to a node, with the number of its gates. -/
inductive GatePath (net : Network) : Nat → Nat → Prop
  | source {n : Nat} (noGate : ¬ net.IsGate n) : GatePath net 0 n
  | step {k m n : Nat} (path : GatePath net k m) (fanin : net.IsFanin m n) : GatePath net (k + 1) n

theorem max?_getD_le_iff {l : List Nat} : l.max?.getD 0 ≤ k ↔ ∀ a ∈ l, a ≤ k := by
  constructor
  · exact fun le a ha => Nat.le_trans (List.le_max?_getD_of_mem ha) le
  · intro bound
    cases largest : l.max? with
    | none => exact Nat.zero_le k
    | some a => exact bound a (List.max?_mem largest)

/-- The height only depends on the heights of the fanins. -/
theorem heightOver_congr {height' : Nat → Nat} (h : ∀ m, net.IsFanin m n → height m = height' m) :
    net.heightOver height n = net.heightOver height' n := by
  unfold heightOver
  rcases hkind : net.kind? n with _ | (_ | _ | ⟨g, fanins⟩)
  · rfl
  · rfl
  · rfl
  · have same : fanins.map (height ·.node) = fanins.map (height' ·.node) :=
      List.map_congr_left fun s hs => h s.node ⟨s, (slots_of_kind? hkind).symm ▸ hs, rfl⟩
    simp only [same]

theorem heightOver_of_not_isGate (noGate : ¬ net.IsGate n) : net.heightOver height n = 0 := by
  unfold heightOver
  split
  · next hkind => exact absurd ⟨_, _, hkind⟩ noGate
  · rfl

theorem heightOver_of_isGate (gate : net.IsGate n) :
    net.heightOver height n = ((net.slots n).map (height ·.node)).max?.getD 0 + 1 := by
  obtain ⟨g, fanins, hkind⟩ := gate
  rw [heightOver, hkind, slots_of_kind? hkind]

namespace Heights

/-- A gate is above its fanins. -/
theorem lt_of_isFanin (heights : net.Heights height nodes) (hn : nodes n) (fanin : net.IsFanin m n) :
    height m < height n := by
  obtain ⟨s, hs, rfl⟩ := fanin
  rw [heights n hn, heightOver_of_isGate (isGate_of_mem_slots hs)]
  exact Nat.lt_succ_of_le (List.le_max?_getD_of_mem (List.mem_map_of_mem hs))

/-- No path to a node has more gates than the node is high. -/
theorem le_of_gatePath (heights : net.Heights height nodes)
    (closed : ∀ m n, nodes n → net.IsFanin m n → nodes m) (path : net.GatePath k n) (hn : nodes n) :
    k ≤ height n := by
  induction path with
  | source => exact Nat.zero_le _
  | step _ fanin ih =>
    have below := ih (closed _ _ hn fanin)
    have lt := heights.lt_of_isFanin hn fanin
    omega

/-- Some path has as many. -/
theorem exists_gatePath (heights : net.Heights height nodes) (wf : net.WellFormed)
    (closed : ∀ m n, nodes n → net.IsFanin m n → nodes m) (hn : nodes n) :
    net.GatePath (height n) n := by
  induction hk : height n using Nat.strong_induction_on generalizing n with
  | _ k ih =>
    subst hk
    by_cases gate : net.IsGate n
    · obtain ⟨g, fanins, hkind⟩ := gate
      -- The path goes on from the highest fanin.
      have nonempty : (fanins.map (height ·.node)).max? ≠ none := by
        simpa using (wf.fits n g fanins hkind).nonempty
      obtain ⟨top, largest⟩ := Option.ne_none_iff_exists'.1 nonempty
      obtain ⟨s, hs, rfl⟩ := List.mem_map.1 (List.max?_mem largest)
      have fanin : net.IsFanin s.node n := ⟨s, (slots_of_kind? hkind).symm ▸ hs, rfl⟩
      have above : height n = height s.node + 1 := by
        rw [heights n hn, heightOver, hkind]
        simp only [largest, Option.getD_some]
      rw [above]
      exact .step (ih _ (by omega) (closed _ _ hn fanin) rfl) fanin
    · rw [heights n hn, heightOver_of_not_isGate gate]
      exact .source gate

/-- Nothing in the cone of a node is higher. -/
theorem le_of_inCone (heights : net.Heights height nodes)
    (closed : ∀ m n, nodes n → net.IsFanin m n → nodes m) (cone : net.InCone m n) (hn : nodes n) :
    height m ≤ height n := by
  induction cone with
  | refl => exact Nat.le_refl _
  | tail _ fanin ih =>
    have below := ih (closed _ _ hn fanin)
    have lt := heights.lt_of_isFanin hn fanin
    omega

end Heights

theorem InOutputCone.of_isFanin (h : net.InOutputCone n) (fanin : net.IsFanin m n) :
    net.InOutputCone m := by
  obtain ⟨s, hs, cone⟩ := h
  exact ⟨s, hs, .head fanin cone⟩

theorem inOutputCone_driver {s : Signal} (hs : s ∈ net.outputs) : net.InOutputCone s.node :=
  ⟨s, hs, .refl⟩

section levels

variable {done : List Nat} {levels : Array Nat}

/-- The levels of the nodes that are done have been entered, and no others. -/
structure Leveled (net : Network) (height : Nat → Nat) (done : List Nat) (levels : Array Nat) : Prop where
  size : levels.size = net.size
  level : ∀ n, levels.getD n 0 = if n ∈ done then height n else 0

theorem Leveled.start (net : Network) (height : Nat → Nat) :
    Leveled net height [] (Array.replicate net.size 0) where
  size := Array.size_replicate
  level n := by
    rw [Array.getD_eq_getD_getElem?, Array.getElem?_replicate]
    split <;> rfl

/-- A node is entered at its height once its fanins are. -/
theorem Leveled.enterLevel (leveled : Leveled net height done levels) (hn : n < net.size)
    (right : height n = net.heightOver height n) (fanins : ∀ m, net.IsFanin m n → m ∈ done) :
    ∃ levels', net.enterLevel levels n = .ok levels' ∧ Leveled net height (n :: done) levels' := by
  obtain ⟨nd, hnd⟩ := exists_node hn
  unfold Network.enterLevel
  rw [node_eq_ok.2 hnd, ok_bind]
  by_cases gate : net.IsGate n
  · have read : nd.fanins.map (fun s => levels.getD s.node 0) = (net.slots n).map (height ·.node) := by
      rw [slots_of_getElem? hnd]
      refine List.map_congr_left fun s hs => ?_
      rw [leveled.level, if_pos (fanins s.node ⟨s, (slots_of_getElem? hnd).symm ▸ hs, rfl⟩)]
    have entered : (nd.fanins.map fun s => levels.getD s.node 0).foldl max 0 + 1 = height n := by
      rw [right, heightOver_of_isGate gate, read, List.foldl_max, Nat.max_eq_right (Nat.zero_le _)]
    simp only [(isGate_of_getElem? hnd).1 gate, if_true, entered]
    refine ⟨_, rfl, by rw [Array.size_setIfInBounds, leveled.size], fun m => ?_⟩
    rw [getD_setIfInBounds (leveled.size.symm ▸ hn), leveled.level]
    by_cases hm : m = n <;> simp [hm]
  · rw [if_neg (mt (isGate_of_getElem? hnd).2 gate)]
    refine ⟨levels, rfl, leveled.size, fun m => ?_⟩
    rw [leveled.level]
    by_cases hm : m = n
    · subst hm
      simp [right, heightOver_of_not_isGate gate]
    · simp [hm]

/-- Levels that are entered in topological order are heights. -/
theorem Ordered.exists_leveled (ordered : net.Ordered done) (inRange : ∀ n ∈ done, n < net.size)
    (heights : net.Heights height (· ∈ done)) : ∃ levels,
      done.reverse.foldlM net.enterLevel (Array.replicate net.size 0) = .ok levels ∧
        Leveled net height done levels := by
  induction ordered with
  | nil => exact ⟨_, rfl, .start net height⟩
  | cons fanins _ _ ih =>
    obtain ⟨hn, others⟩ := List.forall_mem_cons.1 inRange
    obtain ⟨right, heights⟩ := List.forall_mem_cons.1 heights
    obtain ⟨levels, run, leveled⟩ := ih others heights
    obtain ⟨levels', step, leveled'⟩ := leveled.enterLevel hn right fanins
    refine ⟨levels', ?_, leveled'⟩
    rw [List.reverse_cons, List.foldlM_append, run, ok_bind, List.foldlM_cons, step]
    rfl

end levels

/-- Heights that are right in the cones of the outputs determine the depth. -/
theorem WellFormed.depth_eq_ok (wf : net.WellFormed) (heights : net.Heights height net.InOutputCone) :
    net.depth = .ok ((net.outputs.map (height ·.node)).max?.getD 0) := by
  obtain ⟨done, order, ordered, listed⟩ := wf.exists_topologicalOrder
  have inRange : ∀ n ∈ done, n < net.size := fun n hn => wf.lt_size_of_inOutputCone ((listed n).1 hn)
  obtain ⟨levels, run, leveled⟩ := ordered.exists_leveled inRange fun n hn => heights n ((listed n).1 hn)
  have highest : levels.toList.max?.getD 0 = (net.outputs.map (height ·.node)).max?.getD 0 := by
    refine Nat.le_antisymm (max?_getD_le_iff.2 fun a ha => ?_) (max?_getD_le_iff.2 fun a ha => ?_)
    · obtain ⟨n, hn⟩ := List.mem_iff_getElem?.1 ha
      have level := leveled.level n
      rw [Array.getD_eq_getD_getElem?, ← Array.getElem?_toList, hn, Option.getD_some] at level
      split at level
      · next hdone =>
        obtain ⟨s, hs, cone⟩ := (listed n).1 hdone
        have le := heights.le_of_inCone (fun _ _ => .of_isFanin) cone (inOutputCone_driver hs)
        rw [level]
        exact Nat.le_trans le (List.le_max?_getD_of_mem (List.mem_map_of_mem hs))
      · rw [level]
        exact Nat.zero_le _
    · obtain ⟨s, hs, rfl⟩ := List.mem_map.1 ha
      have hdone := (listed s.node).2 (inOutputCone_driver hs)
      have level := leveled.level s.node
      have hlt : s.node < levels.size := leveled.size.symm ▸ inRange _ hdone
      rw [if_pos hdone, Array.getD_eq_getD_getElem?, Array.getElem?_eq_getElem hlt] at level
      rw [← level]
      exact List.le_max?_getD_of_mem (by simp)
  rw [depth, order, ok_bind, run, ok_bind, List.foldl_max, highest, Nat.max_eq_right (Nat.zero_le _)]
  rfl

/-- Networks with the same outputs and the same nodes in the cones of the outputs have the same heights
there. -/
theorem Heights.of_cones (heights : net.Heights height net.InOutputCone)
    (outputs : net'.outputs = net.outputs)
    (cones : ∀ n, net.InOutputCone n → net'.kind? n = net.kind? n) :
    net'.Heights height net'.InOutputCone := by
  intro n hn
  have here : net.InOutputCone n := by
    obtain ⟨s, hs, cone⟩ := hn
    induction cone using Relation.ReflTransGen.head_induction_on with
    | refl => exact inOutputCone_driver (outputs ▸ hs)
    | @head m k fanin _ ih =>
      have same : net'.slots k = net.slots k := by rw [slots, slots, cones k ih]
      obtain ⟨u, hu, rfl⟩ := fanin
      exact ih.of_isFanin ⟨u, same ▸ hu, rfl⟩
  rw [heights n here, heightOver, heightOver, cones n here]

end Network

open Network Workspace

variable {w : Workspace} {id : Nat} {net : Network}

/-- The depth is the largest height of an output's driver, and zero without outputs.  Heights are determined
by the equations of the nodes in the cones of the outputs, and nothing outside the cones has an influence.  As
many gates as the depth tells are on the longest path from a constant or an input to an output. -/
theorem Workspace.Reachable.depth_exact (hw : w.Reachable) (hnet : w.networks[id]? = some net) :
    ∃ d, net.depth = .ok d ∧
      (∃ height, net.Heights height fun _ => True) ∧
      (∀ height, net.Heights height net.InOutputCone →
        d = (net.outputs.map (height ·.node)).max?.getD 0) ∧
      (∀ s ∈ net.outputs, ∀ k, net.GatePath k s.node → k ≤ d) ∧
      (net.outputs ≠ [] → ∃ s ∈ net.outputs, net.GatePath d s.node) ∧
      ∀ (w' : Workspace) (id' : Nat) net', w'.Reachable → w'.networks[id']? = some net' →
        net'.outputs = net.outputs → (∀ n, net.InOutputCone n → net'.kind? n = net.kind? n) →
          net'.depth = .ok d := by
  have wf := (hw.sound id net hnet).hashConsed.toWellFormed
  obtain ⟨height, solves⟩ := wf.acyclic.exists_recursion wf.closed heightOver_congr
  have heights : net.Heights height net.InOutputCone := fun n _ => solves n
  have closed : ∀ m n, net.InOutputCone n → net.IsFanin m n → net.InOutputCone m :=
    fun _ _ => InOutputCone.of_isFanin
  refine ⟨_, wf.depth_eq_ok heights, ⟨height, fun n _ => solves n⟩, fun height' heights' => ?_,
    fun s hs k path => ?_, fun nonempty => ?_, fun w' id' net' hw' hnet' outputs cones => ?_⟩
  · exact Except.ok.inj ((wf.depth_eq_ok heights).symm.trans (wf.depth_eq_ok heights'))
  · have le := heights.le_of_gatePath closed path (inOutputCone_driver hs)
    exact Nat.le_trans le (List.le_max?_getD_of_mem (List.mem_map_of_mem hs))
  · have some : (net.outputs.map (height ·.node)).max? ≠ none := by simpa using nonempty
    obtain ⟨top, largest⟩ := Option.ne_none_iff_exists'.1 some
    obtain ⟨s, hs, rfl⟩ := List.mem_map.1 (List.max?_mem largest)
    rw [largest]
    exact ⟨s, hs, heights.exists_gatePath wf closed (inOutputCone_driver hs)⟩
  · have wf' := (hw'.sound id' net' hnet').hashConsed.toWellFormed
    rw [wf'.depth_eq_ok (heights.of_cones outputs cones), outputs]

/-- In the sample the conjunction of two inputs is made after the output gate and put in the place of the
majority below it. -/
theorem sample_depth : ∃ (w : Workspace) (net : Network), w.Reachable ∧ w.networks[0]? = some net ∧
    net.slots 5 = [⟨0, false⟩, ⟨1, false⟩, ⟨6, true⟩] ∧ net.depth = .ok 2 ∧
    ∀ s ∈ net.outputs, ∀ k, net.GatePath k s.node → k ≤ 2 := by
  let v := View.network 0
  have done : (sample.run? [.call v (.and (.ofNode 2) (.ofNode 3)), .call v (.substitute 4 (.ofNode 6))]).any
      (fun w => w.networks[0]?.any fun net =>
        decide (net.slots 5 = [⟨0, false⟩, ⟨1, false⟩, ⟨6, true⟩] ∧ net.depth = .ok 2)) = true := by
    decide +kernel
  obtain ⟨w, run, ends⟩ := (Option.any_eq_true _ _).1 done
  obtain ⟨net, hnet, ends⟩ := (Option.any_eq_true _ _).1 ends
  obtain ⟨slots, depth⟩ := of_decide_eq_true ends
  have hw : w.Reachable := .of_run? reachable_sample run
  obtain ⟨d, ok, -, -, paths, -⟩ := hw.depth_exact hnet
  cases ok.symm.trans depth
  exact ⟨w, net, hw, hnet, slots, depth, paths⟩

end LogicNet
