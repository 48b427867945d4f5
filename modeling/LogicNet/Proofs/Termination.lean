import LogicNet.Proofs.CascadeSteps
import LogicNet.Proofs.Workspaces

/-! # Substitutions end

None of the loops of a substitution needs the bound that it is run with.  The search for a cycle, the
cascade, the chains of replacements that the cascade follows and the releases that it starts end on their
own, and none of them comes to a node that is not there.
-/

namespace LogicNet

namespace Network

variable {net net' : Network} {old n p : Nat} {s t u new : Signal} {c : Cascade}
  {replaced items : List (Nat × Signal)}

/-- Following replacements from the node of one signal to the next ends at the second signal. -/
inductive Resolves (replaced : List (Nat × Signal)) : Signal → Signal → Prop where
  | last {s : Signal} (unreplaced : replaced.lookup s.node = none) : Resolves replaced s s
  | link {s next t : Signal} (found : replaced.lookup s.node = some next)
    (rest : Resolves replaced (next.complementIf s.complemented) t) : Resolves replaced s t

theorem Resolves.unique (h : Resolves replaced s t) (h' : Resolves replaced s u) : t = u := by
  induction h with
  | last unreplaced =>
    cases h' with
    | last => rfl
    | link found => cases unreplaced.symm.trans found
  | link found _ ih =>
    cases h' with
    | last unreplaced => cases unreplaced.symm.trans found
    | link found' rest =>
      cases found.symm.trans found'
      exact ih rest

theorem resolves_of_resolve {fuel : Nat} (ok : resolve replaced fuel s = .ok t) :
    Resolves replaced s t := by
  induction fuel generalizing s with
  | zero => cases ok
  | succ fuel ih =>
    rw [resolve] at ok
    cases found : replaced.lookup s.node with
    | none =>
      rw [found] at ok
      cases ok
      exact .last found
    | some next =>
      rw [found] at ok
      exact .link found (ih ok)

/-- Visiting the transitive fanin of a node ends. -/
theorem WellFormed.search_ends (wf : net.WellFormed) (inRange : n < net.size) :
    ∃ seen k, Worklist.Ends net.faninStep k .empty [n] seen := by
  obtain ⟨found, search, -⟩ := wf.dependsOn_eq_ok inRange n
  obtain ⟨seen, drained, -⟩ := bind_eq_ok.1 search
  obtain ⟨k, -, ends⟩ := Worklist.drain_eq_ok_iff.1 drained
  exact ⟨seen, k, ends⟩

/-- The release of a gate without references ends. -/
theorem Coherent.release_ends (coherent : net.Coherent) (gate : net.IsGate n)
    (unused : net.references n = 0) : ∃ released k, Worklist.Ends releaseStep k net [n] released := by
  obtain ⟨released, drained, -⟩ := coherent.release_eq_ok gate unused
  obtain ⟨k, -, ends⟩ := Worklist.drain_eq_ok_iff.1 drained
  exact ⟨released, k, ends⟩

/-- Number of the places that can refer to a node. -/
def numPlaces (net : Network) : Nat := net.numSlots + net.numOutputs

theorem Coherent.fanout_le (coherent : net.Coherent) (n : Nat) : net.fanout n ≤ net.numPlaces := by
  have slots : net.slotSum (·.countP (·.node == n)) ≤ net.slotSum List.length := by
    refine Finset.sum_le_sum fun p _ => ?_
    split
    · exact List.countP_le_length
    · exact Nat.le_refl 0
  have outputs : net.outputs.countP (·.node == n) ≤ net.numOutputs := List.countP_le_length
  rw [coherent.counted, references_eq]
  exact Nat.add_le_add (Nat.le_trans slots (slotSum_length_le net)) outputs

/-- The shape of a node says how many fanins it has. -/
theorem length_slots (net : Network) (n : Nat) : (net.slots n).length = match net.shape? n with
    | some (.gate _ numFanins) => numFanins
    | _ => 0 := by
  unfold slots shape?
  rcases net.kind? n with _ | (_ | _ | _) <;> rfl

theorem Reworked.numPlaces (h : Reworked net net') : net'.numPlaces = net.numPlaces := by
  have slots : net'.numSlots = net.numSlots := by
    simp only [numSlots_eq, h.size, length_slots, h.shape?]
  rw [Network.numPlaces, slots, h.numOutputs, Network.numPlaces]

theorem Rewired.reworked (h : Rewired net old new net') : Reworked net net' := by
  refine (reworked_mapReferences net _).trans (h.graph.reworked fun n live => ?_)
  rwa [isLive_mapReferences, ← h.live]

/-- The loops inside one step of a cascade end, and no count goes past a bound. -/
structure StepEnds (bound : Nat) (c : Cascade) (p : Nat) (r : Signal) : Prop where
  counts : ∀ n, c.net.fanout n ≤ bound
  chain : ∃ t, Resolves c.replaced r t
  release : ∀ t, Resolves c.replaced r t → t.node ≠ p → c.net.isLive p = true →
    c.net.isLive t.node = true → ∃ rewired, c.net.rewire p t = .ok rewired ∧
      (∀ n, rewired.fanout n ≤ bound) ∧
      (rewired.IsGate p → ∃ released k, Worklist.Ends releaseStep k rewired [p] released)

section visits

variable (consed : net.HashConsed) (substitutable : net.Substitutable old new) (typed : net.Typed new)
  (acyclic : ¬ net.InCone old new.node)

include consed substitutable typed acyclic

theorem HashConsed.reworked_of_visits
    (visits : Worklist.Visits cascadeStep (⟨net, []⟩, [(old, new)]) (c, items)) :
    Reworked net c.net := by
  rcases consed.visits_induction substitutable typed acyclic (fun c _ => Reworked net c.net)
    (fun _ _ redirected _ _ => redirected.reworked)
    (fun _ _ _ _ _ _ _ _ reworked handled => reworked.trans handled.reworked) visits with ⟨rfl, -⟩ | h
  · exact .refl net
  · exact h

theorem HashConsed.resolve_of_visits
    (visits : Worklist.Visits cascadeStep (⟨net, []⟩, [(old, new)]) (c, items)) (s : Signal) :
    ∃ t, resolve c.replaced (c.replaced.length + 1) s = .ok t := by
  rcases consed.visits_cases substitutable typed acyclic visits with ⟨rfl, -⟩ | ⟨net₁, cascading⟩
  · exact ⟨s, rfl⟩
  · exact ⟨_, cascading.chained.resolve_eq_ok s⟩

/-- Wherever a substitution comes, its next step ends. -/
theorem HashConsed.stepEnds_of_visits
    (visits : Worklist.Visits cascadeStep (⟨net, []⟩, [(old, new)]) (c, (p, s) :: items)) :
    StepEnds net.numPlaces c p s := by
  have reworked := consed.reworked_of_visits substitutable typed acyclic visits
  have coherent := consed.coherent_of_visits substitutable typed acyclic visits
  obtain ⟨t, resolve⟩ := consed.resolve_of_visits substitutable typed acyclic visits s
  refine ⟨fun n => reworked.numPlaces ▸ coherent.fanout_le n, ⟨t, resolves_of_resolve resolve⟩, ?_⟩
  intro t' resolves ne live liveTarget
  obtain rfl := (resolves_of_resolve resolve).unique resolves
  have redirectable :=
    consed.redirectable_of_visits substitutable typed acyclic visits live resolve ne liveTarget
  obtain ⟨net', rewire, rewired⟩ := coherent.rewire_eq_ok redirectable
  have places := (reworked.trans rewired.reworked).numPlaces
  have unused := (rewired.references p).trans ((references_redirected ne).trans (if_pos rfl))
  exact ⟨net', rewire, fun n => places ▸ rewired.coherent.fanout_le n,
    fun gate => rewired.coherent.release_ends gate unused⟩

end visits

end Network

open Network Workspace

variable {w : Workspace} {id : Nat} {net : Network}

/-- A substitution is refused, or faults for a cycle, or its cascade ends without any bound on the steps and
it succeeds.  The search for a cycle ends, and wherever the cascade comes, all loops inside its next step do
and no count is higher than the number of places that can refer to a node. -/
theorem Workspace.Reachable.substitution_ends (hw : w.Reachable) (hnet : w.networks[id]? = some net)
    (old : Nat) (new : Signal)
    (polarity : new.complemented = true → net.family.hasComplementedEdges = true) :
    ((∃ cause, net.checkSubstitution old new = .error cause ∧
        (substitute old new).run net = .error (.refused cause) net) ∨
      (net.Substitutable old new ∧ net.InCone old new.node ∧
        (substitute old new).run net = .error (.fault (.createsCycle old new)) net) ∨
      ∃ c k, k ≤ net.cascadeBound ∧ Worklist.Ends cascadeStep k ⟨net, []⟩ [(old, new)] c ∧
        (substitute old new).run net = .ok () c.net) ∧
    (new.node < net.size → ∃ seen k, Worklist.Ends net.faninStep k .empty [new.node] seen) ∧
    (net.Substitutable old new → ¬ net.InCone old new.node → ∀ c p s items,
      Worklist.Visits cascadeStep (⟨net, []⟩, [(old, new)]) (c, (p, s) :: items) →
        StepEnds net.numPlaces c p s) := by
  have consed := (hw.sound id net hnet).hashConsed
  refine ⟨?_, consed.search_ends, fun substitutable acyclic c p s items visits => ?_⟩
  · cases consed.substitute_outcome old polarity with
    | refused checked run => exact .inl ⟨_, checked, run⟩
    | cycle checked cycle run => exact .inr (.inl ⟨checked, cycle, run⟩)
    | done _ _ run =>
      obtain ⟨-, c, rfl, drained⟩ := drain_of_substitute run
      obtain ⟨k, bound, ends⟩ := Worklist.drain_eq_ok_iff.1 drained
      exact .inr (.inr ⟨c, k, bound, ends, run⟩)
  · have typed : net.Typed new := ⟨lt_size_of_isLive substitutable.liveTarget, polarity⟩
    exact consed.stepEnds_of_visits substitutable typed acyclic visits

/-- The cascade that folds the output gate of the sample ends. -/
theorem sample_cascade_ends : ∃ c k, k ≤ sampleNetwork.cascadeBound ∧
    Worklist.Ends cascadeStep k ⟨sampleNetwork, []⟩ [(4, .ofNode 1)] c ∧
    (substitute 4 (.ofNode 1)).run sampleNetwork = .ok () c.net := by
  have done : Edit.endsWith (substitute 4 (.ofNode 1)) sampleNetwork (fun _ => true) = true := by
    decide +kernel
  obtain ⟨⟨⟩, net', run, -⟩ := Edit.exists_run_of_endsWith done
  obtain ⟨outcome, -, -⟩ := reachable_sample.substitution_ends getElem?_sample 4 (.ofNode 1)
    (fun h => by cases h)
  rcases outcome with ⟨cause, -, refused⟩ | ⟨-, -, faults⟩ | ends
  · cases run.symm.trans refused
  · cases run.symm.trans faults
  · exact ends

end LogicNet
