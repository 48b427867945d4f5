import LogicNet.Proofs.Substitution
import LogicNet.Proofs.Valuation

/-! # Values under substitution

A redirection leaves the live nodes with the equations of the network in which the references to the
old node are read as the new signal.  Every later step of the cascade replaces a gate by a signal of the
same value, so the solution of these equations stays one until the end.
-/

namespace LogicNet.Network

variable {net net' : Network} {x v : Nat → Bool} {old : Nat} {new : Signal}
  {queue : List (Nat × Signal)}

theorem value_redirected (h : v old = new.value v) (s : Signal) :
    (redirected old new s).value v = s.value v := by
  unfold redirected
  split
  · next heq => rw [Signal.value_complementIf, ← h, Signal.value, heq]
  · rfl

/-- The values solve the equations of all live nodes. -/
def Solves (net : Network) (x v : Nat → Bool) : Prop := net.Satisfies x v (net.isLive · = true)

/-- A live node of the redirected network has the equation of the network that is read anew. -/
theorem Redirected.equation (h : Redirected net old new net' queue) {n : Nat}
    (live : net'.isLive n = true) :
    net'.equation x v n = (net.reading (redirected old new)).equation x v n := by
  unfold Network.equation
  rw [h.graph.kind?, kind?_mapReferences, if_pos (h.live n live), kind?_reading, h.graph.functions,
    h.graph.inputs]
  rfl

/-- Replacing a gate by a signal of the same value keeps a solution. -/
theorem Advance.solves (h : Advance net net') (solves : net.Solves x v) :
    net'.Solves x v ∧ net'.outputs.map (Signal.value v) = net.outputs.map (Signal.value v) := by
  cases h with
  | enters enters =>
    refine ⟨fun n live => ?_, by rw [enters.graph.outputs]⟩
    rw [enters.graph.equation]
    exact solves n ((congrFun enters.live n).symm.trans live)
  | @redirected p t queue coherent gate live redundant redirectable redirected =>
    have same : v p = t.value v := redundant.value_eq coherent.toWellFormed solves live
      redirectable.live fun m value hm => coherent.isLive_of_constant hm
    have values := value_redirected same
    refine ⟨fun n hn => ?_, ?_⟩
    · have kinds : net'.kind? n = (net.kind? n).map (NodeKind.mapFanins (Network.redirected p t)) := by
        rw [redirected.graph.kind?, kind?_mapReferences, if_pos (redirected.live n hn)]
      rw [equation_of_map kinds redirected.graph.functions redirected.graph.inputs values]
      exact solves n (redirected.live n hn)
    · rw [redirected.graph.outputs]
      simp [mapReferences, Function.comp_def, values]

theorem solves_of_advance (h : Relation.ReflTransGen Advance net net') (solves : net.Solves x v) :
    net'.Solves x v ∧ net'.outputs.map (Signal.value v) = net.outputs.map (Signal.value v) := by
  induction h with
  | refl => exact ⟨solves, rfl⟩
  | tail _ last ih =>
    obtain ⟨solves', outputs⟩ := last.solves ih.1
    exact ⟨solves', outputs.trans ih.2⟩

/-- Reading references anew makes no cycle if redirecting them makes none. -/
theorem WellFormed.reading (wf : net.WellFormed) (h : net.Redirectable old new) :
    (net.reading (redirected old new)).Acyclic ∧ (net.reading (redirected old new)).Closed := by
  have edges : ∀ m n, (net.reading (redirected old new)).IsFanin m n →
      net.IsFanin m n ∨ m = new.node ∧ net.IsFanin old n := by
    rintro m n ⟨s, hs, rfl⟩
    rw [slots_reading] at hs
    obtain ⟨t, ht, rfl⟩ := List.mem_map.1 hs
    rw [redirected_node]
    split
    · next heq => exact .inr ⟨rfl, t, ht, heq⟩
    · exact .inl ⟨t, ht, rfl⟩
  refine ⟨wf.acyclic.redirect wf.closed h.not_inCone edges, fun m n hfanin => ?_⟩
  have hsize : (net.reading (redirected old new)).size = net.size := size_mapNodes ..
  rw [hsize]
  rcases edges m n hfanin with hfanin | ⟨rfl, -⟩
  · exact wf.closed m n hfanin
  · exact h.typed.inRange

/-- In a coherent network a solution gives every live node its value. -/
theorem Coherent.eval_eq_of_solves (coherent : net.Coherent) (solves : net.Solves x v) {n : Nat}
    (live : net.isLive n = true) : net.eval x n = v n := by
  refine Satisfies.unique coherent.acyclic coherent.closed ?_
    (fun n _ => eval_eq_equation coherent.acyclic coherent.closed x n) solves n live
  rintro m n hn ⟨s, hs, rfl⟩
  exact coherent.live_fanins n hn s hs

/-- After a substitution the live nodes and the outputs have the values of the network read anew. -/
theorem Substituted.values (h : Substituted net old new net') (wf : net.WellFormed)
    (redirectable : net.Redirectable old new) (x : Nat → Bool) :
    (∀ n, net'.isLive n = true → net'.eval x n = (net.reading (redirected old new)).eval x n) ∧
      net'.outputValues x = (net.reading (redirected old new)).outputValues x := by
  obtain ⟨acyclic, closed⟩ := wf.reading redirectable
  obtain ⟨net₁, queue, redirection, advance⟩ := h.steps
  have solves₁ : net₁.Solves x ((net.reading (redirected old new)).eval x) := by
    intro n live
    rw [redirection.equation live]
    exact eval_eq_equation acyclic closed x n
  obtain ⟨solves, outputs⟩ := solves_of_advance advance solves₁
  have values : ∀ n, net'.isLive n = true →
      net'.eval x n = (net.reading (redirected old new)).eval x n :=
    fun n => h.consed.eval_eq_of_solves solves
  refine ⟨values, ?_⟩
  calc net'.outputValues x
      = net'.outputs.map (Signal.value ((net.reading (redirected old new)).eval x)) := by
        apply List.map_congr_left
        intro s hs
        rw [Signal.value, Signal.value, values s.node (h.consed.live_outputs s hs)]
    _ = net₁.outputs.map (Signal.value ((net.reading (redirected old new)).eval x)) := outputs
    _ = (net.reading (redirected old new)).outputValues x := by
        rw [redirection.graph.outputs]
        rfl

/-- Reading a node as a signal of the same function changes no value. -/
theorem WellFormed.eval_reading (wf : net.WellFormed) (redirectable : net.Redirectable old new)
    (same : net.eval x old = new.value (net.eval x)) :
    (net.reading (redirected old new)).eval x = net.eval x := by
  obtain ⟨acyclic, closed⟩ := wf.reading redirectable
  funext n
  have everywhere : (net.reading (redirected old new)).Satisfies x (net.eval x) fun _ => True := by
    intro n _
    rw [equation_of_map (kind?_reading net _ n) rfl rfl (value_redirected same)]
    exact eval_eq_equation wf.acyclic wf.closed x n
  exact Satisfies.unique acyclic closed (fun _ _ _ _ => trivial)
    (fun n _ => eval_eq_equation acyclic closed x n) everywhere n trivial

theorem WellFormed.outputValues_reading (wf : net.WellFormed)
    (redirectable : net.Redirectable old new) (same : net.eval x old = new.value (net.eval x)) :
    (net.reading (redirected old new)).outputValues x = net.outputValues x := by
  unfold outputValues
  rw [wf.eval_reading redirectable same]
  change (net.outputs.map (redirected old new)).map _ = _
  rw [List.map_map]
  exact List.map_congr_left fun s _ => value_redirected same s

end LogicNet.Network
