import LogicNet.Proofs.Workspaces

/-! # Identities of nodes

Callers hold the numbers of nodes, however the network is changed afterwards and through whichever view.
No action takes back what was told about a node, and only calls on the network itself change it.
-/

namespace LogicNet

namespace Network

variable {net net' : Network} {n : Nat}

/-- Every gate that was ever made, dead ones included. -/
def gates (net : Network) : List Nat :=
  (List.range net.size).filter fun n => net.nodes[n]?.any (·.isGate)

theorem mem_gates : n ∈ net.gates ↔ net.IsGate n := by
  rw [gates, List.mem_filter, List.mem_range]
  cases hnd : net.nodes[n]? with
  | none => simp [IsGate, kind?, hnd]
  | some nd => simp [isGate_of_getElem? hnd, lt_size_of_getElem? hnd]

theorem nodup_gates (net : Network) : net.gates.Nodup := List.nodup_range.filter _

namespace WellFormed

variable (wf : net.WellFormed)

include wf

theorem kind?_cases (h : n < net.size) :
    n < net.family.constants.length ∨ n ∈ net.inputs ∨ net.IsGate n := by
  obtain ⟨nd, hnd⟩ := exists_node h
  have hkind := kind?_of_getElem? hnd
  cases kind : nd.kind with
  | constant value =>
    rw [kind, wf.constant_iff] at hkind
    exact .inl (List.getElem?_eq_some_iff.1 hkind).1
  | input =>
    rw [kind, wf.input_iff] at hkind
    exact .inr (.inl hkind)
  | gate g fanins =>
    rw [kind] at hkind
    exact .inr (.inr ⟨g, fanins, hkind⟩)

/-- The nodes are the constants, the inputs and the gates, and none is counted twice. -/
theorem perm_nodes :
    (List.range net.size).Perm (List.range net.family.constants.length ++ (net.inputs ++ net.gates)) := by
  have constant {n : Nat} (h : n < net.family.constants.length) :
      net.kind? n = some (.constant net.family.constants[n]) :=
    (wf.constant_iff n _).2 (List.getElem?_eq_getElem h)
  have gateNotInput : ∀ n ∈ net.inputs, n ∉ net.gates := by
    intro n input gate
    obtain ⟨g, fanins, hkind⟩ := mem_gates.1 gate
    cases ((wf.input_iff n).2 input).symm.trans hkind
  have notConstant : ∀ n ∈ List.range net.family.constants.length, n ∉ net.inputs ++ net.gates := by
    intro n hn other
    have hkind := constant (List.mem_range.1 hn)
    rcases List.mem_append.1 other with input | gate
    · cases ((wf.input_iff n).2 input).symm.trans hkind
    · obtain ⟨g, fanins, hgate⟩ := mem_gates.1 gate
      cases hgate.symm.trans hkind
  have nodup : (List.range net.family.constants.length ++ (net.inputs ++ net.gates)).Nodup := by
    refine List.nodup_append'.2 ⟨List.nodup_range, List.nodup_append'.2 ⟨wf.nodup_inputs,
      nodup_gates net, gateNotInput⟩, notConstant⟩
  refine (List.perm_ext_iff_of_nodup List.nodup_range nodup).2 fun n => ?_
  simp only [List.mem_append, List.mem_range, mem_gates]
  constructor
  · exact wf.kind?_cases
  · rintro (h | h | h)
    · exact lt_size_of_kind? (constant h)
    · exact lt_size_of_kind? ((wf.input_iff n).2 h)
    · exact h.lt_size

/-- The number of gates is what is left of the nodes without the inputs and constants. -/
theorem size_eq : net.size = net.family.constants.length + net.numInputs + net.gates.length := by
  have length := wf.perm_nodes.length_eq
  simp only [List.length_append, List.length_range] at length
  rw [length, numInputs, Nat.add_assoc]

end WellFormed

end Network

open Network

namespace Workspace

variable {w w' : Workspace} {a : Action} {id : Nat} {net : Network}

namespace Action

/-- The call that an action makes on a network, if it does. -/
def callOn (a : Action) (id : Nat) : Option Call :=
  match a with
  | call v c => if v.networkId = id then some c else none
  | _ => none

/-- Number of inputs that an action makes in a network. -/
def newInputs (a : Action) (id : Nat) : Nat := (a.callOn id).elim 0 Call.newInputs

/-- Number of outputs that an action makes in a network. -/
def newOutputs (a : Action) (id : Nat) : Nat := (a.callOn id).elim 0 Call.newOutputs

end Action

/-- A network is what it was, or what the call that the action makes on it leads to. -/
theorem Step.network (h : Step w a w') (hnet : w.networks[id]? = some net) :
    ∃ net', w'.networks[id]? = some net' ∧
      (a.callOn id = none ∧ net' = net ∨ ∃ c, a.callOn id = some c ∧ Leads c.edit net net') := by
  have changed {v : View} {c : Call} {before after : Network}
      (hbefore : w.networks[v.networkId]? = some before) (leads : Leads c.edit before after) :
      ∃ net', (w.networks.setIfInBounds v.networkId after)[id]? = some net' ∧
        ((Action.call v c).callOn id = none ∧ net' = net ∨
          ∃ c', (Action.call v c).callOn id = some c' ∧ Leads c'.edit net net') := by
    by_cases same : v.networkId = id
    · subst same
      cases hbefore.symm.trans hnet
      exact ⟨after, View.networks_set hnet after, .inr ⟨c, if_pos rfl, leads⟩⟩
    · refine ⟨net, ?_, .inl ⟨if_neg same, rfl⟩⟩
      rw [Array.getElem?_setIfInBounds, if_neg same, hnet]
  cases h with
  | added other ext =>
    refine ⟨net, ext.networks id net hnet, .inl ⟨?_, rfl⟩⟩
    cases a with
    | call v c => exact absurd rfl (other v c)
    | make | addFanout | deepClone | withDontCares | refresh => rfl
  | refreshed => exact ⟨net, hnet, .inl ⟨rfl, rfl⟩⟩
  | called hbefore run => exact changed hbefore (.done run)
  | refused hbefore run => exact changed hbefore (.refused run)

theorem Action.Admissible.callOn (admissible : a.Admissible w) (hnet : w.networks[id]? = some net)
    {c : Call} (h : a.callOn id = some c) : c.Admissible net := by
  cases a with
  | call v c' =>
    simp only [Action.callOn] at h
    split at h
    · next same =>
      cases h
      exact admissible net (same ▸ hnet)
    · cases h
  | make | addFanout | deepClone | withDontCares | refresh => cases h

/-- Actions done one after another, each carried out or refused. -/
inductive Runs : List Action → Workspace → Workspace → Prop
  | nil (w : Workspace) : Runs [] w w
  | cons {a : Action} {actions : List Action} {w w' w'' : Workspace} (admissible : a.Admissible w)
      (leads : Leads a.run w w') (rest : Runs actions w' w'') : Runs (a :: actions) w w''

/-- Every network of the workspace is hash-consed. -/
def Consed (w : Workspace) : Prop := ∀ (id : Nat) net, w.networks[id]? = some net → net.HashConsed

theorem Sound.consed (sound : w.Sound) : w.Consed := fun id net hnet => (sound id net hnet).hashConsed

theorem Consed.set (consed : w.Consed) {net' : Network} (h : net'.HashConsed) (id : Nat)
    (indexes : Array FanoutIndex) :
    Consed { networks := w.networks.setIfInBounds id net', indexes } := by
  intro id' other hother
  rw [Array.getElem?_setIfInBounds] at hother
  split at hother
  · split at hother
    · cases hother
      exact h
    · cases hother
  · exact consed id' other hother

theorem Consed.push (consed : w.Consed) (h : net.HashConsed) (same : w'.networks = w.networks.push net) :
    w'.Consed := by
  intro id other hother
  rw [same, Array.getElem?_push] at hother
  split at hother
  · cases hother
    exact h
  · exact consed id other hother

theorem Step.consed (h : Step w a w') (consed : w.Consed) (admissible : a.Admissible w) : w'.Consed := by
  cases h with
  | added _ ext =>
    intro id net hnet
    rcases ext.provides id net hnet with ⟨id', hnet'⟩ | ⟨family, rfl⟩
    · exact consed id' net hnet'
    · exact hashConsed_empty family
  | refreshed => exact consed
  | called hnet run =>
    exact consed.set ((consed _ _ hnet).ensures_edit (admissible _ hnet) _ (.done run)).consed _ _
  | refused hnet run =>
    exact consed.set ((consed _ _ hnet).ensures_edit (admissible _ hnet) _ (.refused run)).consed _ _

/-- After any run there are as many more inputs and outputs as the run makes. -/
theorem Runs.network {actions : List Action} (runs : Runs actions w w') (consed : w.Consed)
    (hnet : w.networks[id]? = some net) : w'.Consed ∧ ∃ net', w'.networks[id]? = some net' ∧
      net'.numInputs = net.numInputs + (actions.map (·.newInputs id)).sum ∧
      net'.numOutputs = net.numOutputs + (actions.map (·.newOutputs id)).sum ∧
      ((∀ a ∈ actions, a.callOn id = none) → net' = net) := by
  induction runs generalizing net with
  | nil => exact ⟨consed, net, hnet, rfl, rfl, fun _ => rfl⟩
  | @cons a actions w w' w'' admissible leads _ ih =>
    obtain ⟨net₁, hnet₁, became⟩ := (Action.step leads).network hnet
    have counts : net₁.numInputs = net.numInputs + a.newInputs id ∧
        net₁.numOutputs = net.numOutputs + a.newOutputs id := by
      unfold Action.newInputs Action.newOutputs
      rcases became with ⟨none, rfl⟩ | ⟨c, some, edit⟩
      · simp [none]
      · have effect := (consed id net hnet).ensures_edit (admissible.callOn hnet some) _ edit
        simp [some, effect.inputs, effect.outputs]
    obtain ⟨consed', net', hnet', inputs, outputs, same⟩ :=
      ih ((Action.step leads).consed consed admissible) hnet₁
    refine ⟨consed', net', hnet', ?_, ?_, fun none => ?_⟩
    · rw [inputs, counts.1, List.map_cons, List.sum_cons, Nat.add_assoc]
    · rw [outputs, counts.2, List.map_cons, List.sum_cons, Nat.add_assoc]
    · obtain ⟨first, rest⟩ := List.forall_mem_cons.1 none
      rcases became with ⟨-, rfl⟩ | ⟨c, some, -⟩
      · exact same rest
      · cases first.symm.trans some

end Workspace

open Workspace

end LogicNet
