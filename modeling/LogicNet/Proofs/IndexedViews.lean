import LogicNet.Proofs.Conversations
import LogicNet.Proofs.HeldViews

/-! # Views with an index

A fanout view brings its index up to date in three ways: it makes the index anew after a substitution,
lists the new gates after a creation, and leaves it alone after an inversion.  As long as nobody substitutes
behind its back, the index describes the network as it was at some earlier time since when nothing but new
nodes has changed, so that all three ways lead to the index of the network as it is.
-/

namespace LogicNet

open Network (Call Steady)

namespace Network

variable {net net' : Network} {n p : Nat}

theorem parents_eq_filter (net : Network) (n : Nat) : net.parents n =
    (List.range net.size).filter fun p => net.isLive p && (net.slots p).any (·.node == n) := by
  rw [parents_eq, liveGates, List.filter_filter]
  refine List.filter_congr fun p _ => ?_
  cases huses : (net.slots p).any (·.node == n) with
  | false => simp
  | true =>
    obtain ⟨s, hs, -⟩ := List.any_eq_true.1 huses
    rw [Bool.eq_iff_iff]
    simp [isLiveGate_iff, isGate_of_mem_slots hs]

theorem WellFormed.parents_eq_nil (wf : net.WellFormed) (h : net.size ≤ n) : net.parents n = [] := by
  refine List.eq_nil_iff_forall_not_mem.2 fun p hp => ?_
  obtain ⟨-, s, hs, rfl⟩ := mem_parents.1 hp
  exact absurd (wf.typed_slots hs).inRange (Nat.not_lt.2 h)

/-- New gates come after the old parents, which are what they were. -/
theorem Steady.parents (h : Steady net net') (n : Nat) : net'.parents n = net.parents n ++
    FanoutIndex.usersAmong net' (net'.liveGates.filter (net.size ≤ ·)) n := by
  obtain ⟨k, hk⟩ := Nat.exists_eq_add_of_le h.size
  have old : ∀ p ∈ List.range net.size, (net'.isLive p && (net'.slots p).any (·.node == n))
      = (net.isLive p && (net.slots p).any (·.node == n)) := by
    intro p hp
    have drivers := congrArg (List.any · (· == n)) (h.drivers p (List.mem_range.1 hp))
    simp only [List.any_map, Function.comp_def] at drivers
    rw [h.live p (List.mem_range.1 hp), drivers]
  have new : FanoutIndex.usersAmong net' (net'.liveGates.filter (net.size ≤ ·)) n
      = (net'.parents n).filter (net.size ≤ ·) := List.filter_comm ..
  rw [new, parents_eq_filter net', hk, List.range_add, List.filter_append, List.filter_congr old,
    ← parents_eq_filter net, List.filter_append]
  have none : (net.parents n).filter (fun p => decide (net.size ≤ p)) = [] := by
    rw [parents_eq_filter, List.filter_eq_nil_iff]
    intro p hp
    simpa using (List.mem_filter.1 hp).1
  have all : ∀ p ∈ ((List.range k).map (net.size + ·)).filter
      (fun p => net'.isLive p && (net'.slots p).any (·.node == n)), decide (net.size ≤ p) = true := by
    intro p hp
    obtain ⟨i, -, rfl⟩ := List.mem_map.1 (List.mem_filter.1 hp).1
    simp
  rw [none, List.nil_append, List.filter_eq_self.2 all]

end Network

namespace FanoutIndex

open Network

variable {net net' : Network} {n : Nat}

theorem size_ofNetwork (net : Network) : (ofNetwork net).size = net.size := by
  have size : ∀ n, (ofNetwork net).size ≤ n ↔ net.size ≤ n := fun n => by
    rw [size, ← Array.getElem?_eq_none_iff, getElem?_ofNetwork]
    simp
  exact Nat.le_antisymm ((size _).2 (Nat.le_refl _)) ((size _).1 (Nat.le_refl _))

/-- An index that knows the nodes up to some time is brought up to date as if it were made anew. -/
theorem catchUp_ofNetwork (wf : net.WellFormed) (steady : Steady net net') :
    (ofNetwork net).catchUp net' = ofNetwork net' := by
  unfold catchUp
  rw [size_ofNetwork]
  split
  · next upToDate =>
    have size : net.size = net'.size := Nat.le_antisymm steady.size upToDate
    have none : net'.liveGates.filter (net.size ≤ ·) = [] := by
      rw [List.filter_eq_nil_iff]
      intro p hp
      simpa [size] using lt_size_of_isLive (mem_liveGates.1 hp).1
    have same : (ofNetwork net).parents = (ofNetwork net').parents := by
      refine Array.ext_getElem? fun n => ?_
      rw [getElem?_ofNetwork, getElem?_ofNetwork, steady.parents, none, size]
      simp [usersAmong]
    exact congrArg FanoutIndex.mk same
  · next behind =>
    have same : (net'.liveGates.filter (net.size ≤ ·)).foldl (register net')
        ((ofNetwork net).parents ++ Array.replicate (net'.size - net.size) [])
          = (ofNetwork net').parents := by
      refine Array.ext_getElem? fun n => ?_
      have known : ((ofNetwork net).parents ++ Array.replicate (net'.size - net.size) [])[n]?
          = if n < net'.size then some (net.parents n) else none := by
        have parentsSize : (ofNetwork net).parents.size = net.size := size_ofNetwork net
        rw [Array.getElem?_append, parentsSize, getElem?_ofNetwork, Array.getElem?_replicate]
        grind [wf.parents_eq_nil]
      rw [getElem?_foldl_register net' ((nodup_liveGates net').filter _), known, getElem?_ofNetwork,
        steady.parents]
      · split <;> rfl
      · -- A known list ends with an old gate, so no new one is taken for listed already.
        intro listed hlisted p hp last
        rw [known] at hlisted
        split at hlisted
        · cases hlisted
          have old := lt_size_of_isLive (mem_parents.1 (List.mem_of_getLast? last)).1
          have new := (List.mem_filter.1 hp).2
          simp at new
          omega
        · cases hlisted
    exact congrArg FanoutIndex.mk same

theorem ofNetwork_of_size_eq (wf : net.WellFormed) (steady : Steady net net')
    (size : net'.size = net.size) : ofNetwork net' = ofNetwork net := by
  rw [← catchUp_ofNetwork wf steady, catchUp, size_ofNetwork, if_pos (Nat.le_of_eq size)]

end FanoutIndex

/-- A view, or don't-care views on top of it. -/
inductive View.Over (v : View) : View → Prop
  | refl : v.Over v
  | dontCare {u : View} (dontCares : View) (above : v.Over u) : v.Over (.dontCare u dontCares)

namespace View.Over

variable {v u : View}

theorem networkId (h : v.Over u) : u.networkId = v.networkId := by
  induction h with
  | refl => rfl
  | dontCare _ _ ih => exact ih

theorem indexIds (h : v.Over u) : u.indexIds = v.indexIds := by
  induction h with
  | refl => rfl
  | dontCare _ _ ih => exact ih

end View.Over

namespace Network.Call

/-- Whether a call brings the indexes of a view up to date when it is carried out. -/
def updatesIndexes : Call → Bool
  | output _ | invert _ | setValue .. | setVisited .. | clearValues | clearVisited | xor3 .. | table .. => false
  | _ => true

variable {net₀ net net' : Network} {c : Call}

/-- An index of some earlier time is one of the present after a call that updates it. -/
theorem maintain_ofNetwork (updates : c.updatesIndexes = true) (wf : net₀.WellFormed)
    (steady : c.substitutes = false → Steady net₀ net') :
    c.maintain (.ofNetwork net₀) net' = .ofNetwork net' := by
  cases c with
  | substitute => rfl
  | input | not | and | or | nand | xor | maj | clone =>
    exact FanoutIndex.catchUp_ofNetwork wf (steady rfl)
  | output | invert | setValue | setVisited | clearValues | clearVisited | xor3 | table =>
    cases updates

theorem substitutes_of_updatesIndexes (h : c.updatesIndexes = false) : c.substitutes = false := by
  cases c with
  | substitute => cases h
  | _ => rfl

theorem updatesIndexes_eq_false (adds : c.addsNodes = false) (keeps : c.substitutes = false) :
    c.updatesIndexes = false := by
  cases c with
  | output | invert | setValue | setVisited | clearValues | clearVisited => rfl
  | substitute => cases keeps
  | _ => cases adds

theorem maintain_eq_self (h : c.updatesIndexes = false) (index : FanoutIndex) (net : Network) :
    c.maintain index net = index := by
  cases c with
  | input | not | and | or | nand | xor | maj | clone | substitute => cases h
  | output | invert | setValue | setVisited | clearValues | clearVisited | xor3 | table => rfl

end Network.Call

/-- No call that is refused changes what an index says. -/
theorem Network.HashConsed.steady_of_refused {net net' : Network} (consed : net.HashConsed) {c : Call}
    (admissible : c.Admissible net) {cause : NetworkError}
    (run : c.edit.run net = .error (.refused cause) net') : Steady net net' := by
  cases keeps : c.substitutes with
  | false => exact (consed.ensures_edit admissible _ (.refused run)).steady keeps
  | true =>
    cases c with
    | substitute old new =>
      cases consed.substitute_outcome old (admissible.polarity new rfl) with
      | refused _ unchanged =>
        cases unchanged.symm.trans run
        exact .refl net
      | cycle _ _ fails => cases fails.symm.trans run
      | done _ _ ok => cases ok.symm.trans run
    | _ => cases keeps

namespace View

variable {v u : View} {i : Nat} {f : FanoutIndex → FanoutIndex} {indexes : Array FanoutIndex}

theorem getElem?_reindexed_of_not_mem (h : i ∉ v.indexIds) :
    (v.reindexed f indexes)[i]? = indexes[i]? := by
  unfold reindexed
  generalize v.indexIds = ids at h
  induction ids generalizing indexes with
  | nil => rfl
  | cons id ids ih =>
    obtain ⟨ne, rest⟩ := not_or.1 (List.mem_cons.not.1 h)
    rw [List.foldl_cons, ih rest, Array.getElem?_modify, if_neg (Ne.symm ne)]

theorem getElem?_reindexed_singleton (h : v.indexIds = [i]) :
    (v.reindexed f indexes)[i]? = indexes[i]?.map f := by
  rw [reindexed, h, List.foldl_cons, List.foldl_nil, Array.getElem?_modify, if_pos rfl]

/-- A copy of a view without an index has none. -/
theorem deepClone_indexIds {w w' : Workspace} (plain : v.indexIds = [])
    (run : v.deepClone.run w = .ok u w') : u.indexIds = [] := by
  induction v generalizing w w' u with
  | network id =>
    cases hnet : w.networks[id]? with
    | none =>
      rw [deepClone, Edit.run_get_bind, Workspace.network, hnet] at run
      cases run
    | some net =>
      cases (deepClone_network_run hnet).symm.trans run
      rfl
  | fanout base index => simp [indexIds] at plain
  | dontCare base dontCares ih =>
    obtain ⟨copy, w₁, run₁, rest⟩ := Edit.run_bind_eq_ok.1 run
    obtain ⟨copy', w₂, -, last⟩ := Edit.run_bind_eq_ok.1 rest
    cases last
    have same : copy.indexIds = [] := ih plain run₁
    exact same

end View

open Workspace

namespace Workspace

variable {w w' : Workspace} {base u : View} {i : Nat} {a : Action} {c : Call} {net : Network}

/-- An action that a fanout view may keep up with: it is made through the view, or does neither touch its
index nor substitute in its network. -/
def Action.Respects (v : View) (i : Nat) : Action → Prop
  | .call u c => v.Over u ∨ i ∉ u.indexIds ∧ (u.networkId = v.networkId → c.substitutes = false)
  | .refresh u => v.Over u ∨ i ∉ u.indexIds
  | _ => True

/-- The workspaces with a fanout view, made over a view without an index, that everybody respects. -/
inductive Indexed (base : View) (i : Nat) : Workspace → Prop
  | made {w w' : Workspace} (before : w.Reachable) (plain : base.indexIds = [])
    (run : base.addFanout.run w = .ok (.fanout base i) w') : Indexed base i w'
  | act {w w' : Workspace} {a : Action} (before : Indexed base i w)
    (respects : a.Respects (.fanout base i) i) (admissible : a.Admissible w)
    (leads : Leads a.run w w') : Indexed base i w'

/-- The index is that of the network. -/
def UpToDate (base : View) (i : Nat) (w : Workspace) : Prop :=
  ∃ net, w.networks[base.networkId]? = some net ∧ w.indexes[i]? = some (.ofNetwork net)

/-- The index is that of some network to which nothing but new nodes has been added since. -/
def Behind (base : View) (i : Nat) (w : Workspace) : Prop :=
  ∃ net₀ net, w.networks[base.networkId]? = some net ∧ w.indexes[i]? = some (.ofNetwork net₀) ∧
    net₀.WellFormed ∧ Steady net₀ net

/-- An old index stays one of an earlier time if the network is only changed in what it leaves open. -/
theorem Behind.set (h : Behind base i w) {id : Nat} {net' : Network} {indexes : Array FanoutIndex}
    (hnet : w.networks[id]? = some net) (steady : id = base.networkId → Steady net net')
    (same : indexes[i]? = w.indexes[i]?) :
    Behind base i { networks := w.networks.setIfInBounds id net', indexes } := by
  obtain ⟨net₀, before, hbefore, hindex, wf, steady₀⟩ := h
  have inBounds := (Array.getElem?_eq_some_iff.1 hnet).1
  by_cases there : id = base.networkId
  · subst there
    cases hbefore.symm.trans hnet
    refine ⟨net₀, net', ?_, same.trans hindex, wf, steady₀.trans (steady rfl)⟩
    rw [Array.getElem?_setIfInBounds_self, if_pos inBounds]
  · refine ⟨net₀, before, ?_, same.trans hindex, wf, steady₀⟩
    rw [Array.getElem?_setIfInBounds, if_neg there, hbefore]

theorem UpToDate.behind (sound : w.Sound) (h : UpToDate base i w) : Behind base i w := by
  obtain ⟨net, hnet, hindex⟩ := h
  exact ⟨net, net, hnet, hindex, (sound _ net hnet).hashConsed.toWellFormed, .refl net⟩

namespace Indexed

theorem plain (h : Indexed base i w) : base.indexIds = [] := by
  induction h with
  | made _ plain _ => exact plain
  | act _ _ _ _ ih => exact ih

theorem indexIds (h : Indexed base i w) (above : (View.fanout base i).Over u) : u.indexIds = [i] := by
  rw [above.indexIds, View.indexIds, h.plain]
  rfl

theorem reachable (h : Indexed base i w) : w.Reachable := by
  induction h with
  | @made w w' before _ run =>
    have leads : Leads (Action.addFanout base).run w w' := .done (by
      rw [Action.run, Edit.run_discard, run])
    exact .act (a := .addFanout base) before trivial leads
  | act _ _ admissible leads ih => exact .act ih admissible leads

/-- A copy of a fanout view has an index of its own. -/
theorem of_deepClone {source v : View} {j : Nat} (reachable : w.Reachable) (plain : source.indexIds = [])
    (run : (View.fanout source j).deepClone.run w = .ok v w') :
    ∃ base i, v = .fanout base i ∧ Indexed base i w' := by
  obtain ⟨copy, w₁, run₁, run₂⟩ := Edit.run_bind_eq_ok.1 run
  obtain ⟨i, rfl, -⟩ := View.addFanout_eq_ok run₂
  have leads : Leads (Action.deepClone source).run w w₁ := .done (by
    rw [Action.run, Edit.run_discard, run₁])
  exact ⟨copy, i, rfl, .made (.act (a := .deepClone source) reachable trivial leads)
    (View.deepClone_indexIds plain run₁) run₂⟩

/-- A call that is carried out and updates the index leaves it up to date. -/
theorem upToDate (h : Indexed base i w) (behind : Behind base i w)
    (above : (View.fanout base i).Over u) (updates : c.updatesIndexes = true)
    (admissible : (Action.call u c).Admissible w) {net' : Network}
    (hnet : w.networks[u.networkId]? = some net) (run : c.edit.run net = .ok () net') :
    UpToDate base i
      { networks := w.networks.setIfInBounds u.networkId net'
        indexes := u.reindexed (c.maintain · net') w.indexes } := by
  obtain ⟨net₀, before, hbefore, hindex, wf, steady⟩ := behind
  have id : u.networkId = base.networkId := above.networkId
  cases (id ▸ hbefore).symm.trans hnet
  have effect := (h.reachable.sound _ net hnet).effect (admissible net hnet) (.done run)
  refine ⟨net', id ▸ View.networks_set hnet net', ?_⟩
  rw [View.getElem?_reindexed_singleton (h.indexIds above), hindex, Option.map_some]
  exact congrArg some
    (Call.maintain_ofNetwork updates wf fun keeps => steady.trans (effect.steady keeps))

/-- However far the network has gone on, the index is one of an earlier time. -/
theorem behind (h : Indexed base i w) : Behind base i w := by
  -- Up to date would be no invariant: others may create nodes, and an output leaves the index alone.
  induction h with
  | @made w w' before _ run =>
    obtain ⟨net, w₁, current, -⟩ := Edit.run_bind_eq_ok.1 run
    obtain ⟨hnet, -⟩ := View.run_current_eq_ok.1 current
    cases (View.addFanout_run hnet).symm.trans run
    exact UpToDate.behind before.sound ⟨net, hnet, Array.getElem?_push_size⟩
  | @act w w' a before respects admissible leads ih =>
    have sound' := (before.act respects admissible leads).reachable.sound
    cases Action.step leads with
    | added _ ext =>
      obtain ⟨net₀, net, hnet, hindex, wf, steady⟩ := ih
      exact ⟨net₀, net, ext.networks _ _ hnet, ext.indexes _ _ hindex, wf, steady⟩
    | @refreshed u net' hnet' =>
      obtain ⟨net₀, net, hnet, hindex, wf, steady⟩ := ih
      rcases respects with above | other
      · have id : u.networkId = base.networkId := above.networkId
        refine UpToDate.behind sound' ⟨net', id ▸ hnet', ?_⟩
        rw [View.getElem?_reindexed_singleton (before.indexIds above), hindex, Option.map_some]
      · exact ⟨net₀, net, hnet, (View.getElem?_reindexed_of_not_mem other).trans hindex, wf, steady⟩
    | @called u c net net' hnet run =>
      have effect := (before.reachable.sound _ net hnet).effect (admissible net hnet) (.done run)
      rcases respects with above | ⟨other, keeps⟩
      · cases updates : c.updatesIndexes with
        | true => exact UpToDate.behind sound' (before.upToDate ih above updates admissible hnet run)
        | false =>
          refine ih.set hnet (fun _ => effect.steady (Call.substitutes_of_updatesIndexes updates)) ?_
          simp [View.getElem?_reindexed_singleton (before.indexIds above), Call.maintain_eq_self updates]
      · exact ih.set hnet (fun there => effect.steady (keeps there))
          (View.getElem?_reindexed_of_not_mem other)
    | @refused u c net net' cause hnet run =>
      have consed := (before.reachable.sound _ net hnet).hashConsed
      exact ih.set hnet (fun _ => consed.steady_of_refused (admissible net hnet) run) rfl

end Indexed

/-- Calls that neither make nodes nor substitute, through whichever views: outputs are made and gates are
inverted, for one. -/
def Quiet (w w' : Workspace) : Prop :=
  ∃ u c, Call.addsNodes c = false ∧ c.substitutes = false ∧ (Action.call u c).Admissible w ∧
    Leads (u.perform c) w w'

theorem Quiet.upToDate (quiet : Quiet w w') (reachable : w.Reachable) (h : UpToDate base i w) :
    w'.Reachable ∧ UpToDate base i w' := by
  obtain ⟨u, c, adds, keeps, admissible, leads⟩ := quiet
  refine ⟨.act (a := .call u c) reachable admissible leads, ?_⟩
  obtain ⟨before, hbefore, hindex⟩ := h
  have kept {net net' : Network} (hnet : w.networks[u.networkId]? = some net)
      (edit : Leads c.edit net net') : UpToDate base i
        { w with networks := w.networks.setIfInBounds u.networkId net' } := by
    have inBounds := (Array.getElem?_eq_some_iff.1 hnet).1
    by_cases there : u.networkId = base.networkId
    · rw [there] at hnet inBounds ⊢
      cases hbefore.symm.trans hnet
      have consed := (reachable.sound _ before hbefore).hashConsed
      have effect := consed.ensures_edit (admissible before (there ▸ hbefore)) _ edit
      refine ⟨net', by rw [Array.getElem?_setIfInBounds_self, if_pos inBounds], ?_⟩
      rw [FanoutIndex.ofNetwork_of_size_eq consed.toWellFormed (effect.steady keeps) (effect.size adds)]
      exact hindex
    · exact ⟨before, by rw [Array.getElem?_setIfInBounds, if_neg there, hbefore], hindex⟩
  cases Action.step (a := .call u c) leads with
  | added other => exact absurd rfl (other u c)
  | called hnet run =>
    have updates := Call.updatesIndexes_eq_false adds keeps
    simp only [Call.maintain_eq_self updates, View.reindexed_id]
    exact kept hnet (.done run)
  | refused hnet run => exact kept hnet (.refused run)

end Workspace

open Workspace

variable {w : Workspace} {base u : View} {i : Nat} {c : Call}

end LogicNet
