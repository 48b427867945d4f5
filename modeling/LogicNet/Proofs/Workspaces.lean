import LogicNet.Proofs.Calls
import LogicNet.View.Make

/-! # Workspaces

Several views may share one network, and calls through any of them change it.  Whatever views are made,
and through whichever of them the calls go, every network of the workspace is one that calls on it alone
could have led to.
-/

namespace LogicNet

open Network (Call)

/-- A call through a view.  The indexes of the view take up new signals and substitutions. -/
def View.perform (v : View) : Call → Session Unit
  | .substitute old new => v.substitute old new
  | .output s => v.edit (Call.output s).edit
  | .invert n => v.edit (Call.invert n).edit
  | .setValue n value => v.edit (Call.setValue n value).edit
  | .setVisited n visited => v.edit (Call.setVisited n visited).edit
  | .clearValues => v.edit Call.clearValues.edit
  | .clearVisited => v.edit Call.clearVisited.edit
  | .xor3 a b c => v.edit (Call.xor3 a b c).edit
  | .table nodes t => v.edit (Call.table nodes t).edit
  | c => v.create c.edit

namespace Workspace

/-- What callers do with a workspace. -/
inductive Action where
  | make (family : Family)
  | addFanout (base : View)
  | deepClone (v : View)
  | withDontCares (base dontCares : View)
  | refresh (v : View)
  | call (v : View) (c : Call)

namespace Action

def run : Action → Session Unit
  | make family => discard (View.ofFamily family)
  | addFanout base => discard base.addFanout
  | deepClone v => discard v.deepClone
  | withDontCares base dontCares => discard (base.withDontCares dontCares)
  | refresh v => v.refresh
  | call v c => v.perform c

/-- A call is made over operands that the network of the view may use. -/
def Admissible (w : Workspace) : Action → Prop
  | call v c => ∀ net, w.networks[v.networkId]? = some net → c.Admissible net
  | _ => True

end Action

/-- The workspaces that actions lead to, whatever their number and order, as long as none faults. -/
inductive Reachable : Workspace → Prop
  | empty : Reachable .empty
  | act {w w' : Workspace} {a : Action} (before : Reachable w) (admissible : a.Admissible w)
      (leads : Leads a.run w w') : Reachable w'

/-- Every network is one that calls lead to. -/
def Sound (w : Workspace) : Prop := ∀ (id : Nat) net, w.networks[id]? = some net → net.Reachable

variable {w : Workspace} {net : Network}

theorem network_eq_ok {id : Nat} : w.network id = .ok net ↔ w.networks[id]? = some net := by
  unfold network
  cases w.networks[id]? <;> simp

end Workspace

namespace View

open Workspace

variable {α : Type} {w : Workspace} {net net' : Network} {v : View} {e : Edit α} {a : α}

theorem edit_run (hnet : w.networks[v.networkId]? = some net) (run : e.run net = .ok a net') :
    (v.edit e).run w = .ok a { w with networks := w.networks.setIfInBounds v.networkId net' } := by
  rw [edit, Edit.run_get_bind, network_eq_ok.2 hnet]
  simp only [Edit.lift_ok_fault, pure_bind, run]
  rfl

theorem edit_run_error {failure : Failure} (hnet : w.networks[v.networkId]? = some net)
    (run : e.run net = .error failure net') :
    (v.edit e).run w
      = .error failure { w with networks := w.networks.setIfInBounds v.networkId net' } := by
  rw [edit, Edit.run_get_bind, network_eq_ok.2 hnet]
  simp only [Edit.lift_ok_fault, pure_bind, run]
  rfl

theorem edit_run_none (hnet : w.networks[v.networkId]? = none) (e : Edit α) : (v.edit e).run w
    = .error (.fault (.indexOutOfRange v.networkId w.networks.size)) w := by
  rw [edit, Edit.run_get_bind, Workspace.network, hnet]
  rfl

theorem networks_set (hnet : w.networks[v.networkId]? = some net) (net' : Network) :
    (w.networks.setIfInBounds v.networkId net')[v.networkId]? = some net' := by
  rw [Array.getElem?_setIfInBounds_self, if_pos (Array.getElem?_eq_some_iff.1 hnet).1]

theorem networks_set_self (hnet : w.networks[v.networkId]? = some net) :
    w.networks.setIfInBounds v.networkId net = w.networks := by
  refine Array.ext_getElem? fun i => ?_
  rw [Array.getElem?_setIfInBounds]
  split
  · next same =>
    subst same
    rw [hnet, if_pos (Array.getElem?_eq_some_iff.1 hnet).1]
  · rfl

/-- The indexes of a workspace after every index of the view is changed. -/
def reindexed (v : View) (f : FanoutIndex → FanoutIndex) (indexes : Array FanoutIndex) :
    Array FanoutIndex :=
  v.indexIds.foldl (fun indexes id => indexes.modify id f) indexes

theorem reindexed_id (v : View) (indexes : Array FanoutIndex) :
    v.reindexed (fun index => index) indexes = indexes := by
  unfold reindexed
  induction v.indexIds with
  | nil => rfl
  | cons id ids ih =>
    have same : indexes.modify id (fun index => index) = indexes := by
      apply Array.ext_getElem?
      intro i
      rw [Array.getElem?_modify]
      split <;> simp
    rw [List.foldl_cons, same, ih]

theorem updateIndexes_run (hnet : w.networks[v.networkId]? = some net)
    (f : FanoutIndex → Network → FanoutIndex) :
    (v.updateIndexes f).run w = .ok () { w with indexes := v.reindexed (f · net) w.indexes } := by
  simp only [updateIndexes, current, bind_assoc, Edit.run_get_bind, network_eq_ok.2 hnet,
    Edit.lift_ok_fault, pure_bind]
  rfl

/-- A creation changes the network of the view; its indexes are brought up to date. -/
theorem create_run_ok (hnet : w.networks[v.networkId]? = some net) (run : e.run net = .ok a net') :
    (v.create e).run w = .ok a
      { networks := w.networks.setIfInBounds v.networkId net'
        indexes := v.reindexed (·.catchUp net') w.indexes } := by
  rw [create, Edit.run_bind_ok (edit_run hnet run),
    Edit.run_bind_ok (updateIndexes_run (networks_set hnet net') FanoutIndex.catchUp)]
  rfl

theorem create_run (hnet : w.networks[v.networkId]? = some net) (run : e.run net = .ok a net') :
    ∃ indexes, (v.create e).run w
      = .ok a { networks := w.networks.setIfInBounds v.networkId net', indexes } :=
  ⟨_, create_run_ok hnet run⟩

end View

/-- What a call that is carried out does with the indexes of the view that it is made through. -/
def Network.Call.maintain : Call → FanoutIndex → Network → FanoutIndex
  | substitute .. => fun _ net => .ofNetwork net
  | output _ | invert _ | setValue .. | setVisited .. | clearValues | clearVisited | xor3 .. | table .. =>
    fun index _ => index
  | _ => FanoutIndex.catchUp

namespace View

open Workspace

variable {w : Workspace} {net net' : Network} {v : View} {c : Call}

theorem perform_run (hnet : w.networks[v.networkId]? = some net) (run : c.edit.run net = .ok () net') :
    (v.perform c).run w = .ok ()
      { networks := w.networks.setIfInBounds v.networkId net'
        indexes := v.reindexed (c.maintain · net') w.indexes } := by
  have edited : (v.edit c.edit).run w
      = .ok () { w with networks := w.networks.setIfInBounds v.networkId net' } := edit_run hnet run
  have created := create_run_ok hnet run
  cases c with
  | substitute old new =>
    exact (Edit.run_bind_ok edited _).trans (updateIndexes_run (networks_set hnet net') _)
  | output | invert | setValue | setVisited | clearValues | clearVisited | xor3 | table =>
    simpa only [perform, Network.Call.maintain, reindexed_id] using edited
  | input | not | and | or | nand | xor | maj | clone => exact created

theorem perform_run_error {failure : Failure} (hnet : w.networks[v.networkId]? = some net)
    (run : c.edit.run net = .error failure net') :
    (v.perform c).run w
      = .error failure { w with networks := w.networks.setIfInBounds v.networkId net' } := by
  have edited := edit_run_error hnet run
  cases c with
  | output | invert | setValue | setVisited | clearValues | clearVisited | xor3 | table => exact edited
  | input | not | and | or | nand | xor | maj | clone | substitute =>
    exact Edit.run_bind_error edited _

theorem perform_run_none (hnet : w.networks[v.networkId]? = none) (c : Call) : (v.perform c).run w
    = .error (.fault (.indexOutOfRange v.networkId w.networks.size)) w := by
  have fails := edit_run_none hnet c.edit
  cases c with
  | output | invert | setValue | setVisited | clearValues | clearVisited | xor3 | table => exact fails
  | input | not | and | or | nand | xor | maj | clone | substitute =>
    exact Edit.run_bind_error fails _

end View

namespace Workspace

variable {w w' : Workspace} {net : Network} {v : View} {c : Call}

/-- A network of the workspace, or an empty one. -/
def Provides (w : Workspace) (net : Network) : Prop :=
  (∃ id : Nat, w.networks[id]? = some net) ∨ ∃ family, net = .empty family

/-- The second workspace has all of the first one unchanged, and besides copies of its networks and empty
networks. -/
structure Extends (w w' : Workspace) : Prop where
  networks : ∀ (id : Nat) net, w.networks[id]? = some net → w'.networks[id]? = some net
  indexes : ∀ (i : Nat) index, w.indexes[i]? = some index → w'.indexes[i]? = some index
  provides : ∀ (id : Nat) net, w'.networks[id]? = some net → w.Provides net

namespace Extends

variable {w₀ : Workspace}

theorem refl (w : Workspace) : Extends w w := ⟨fun _ _ => id, fun _ _ => id, fun id _ h => .inl ⟨id, h⟩⟩

theorem sound (ext : Extends w w') (sound : w.Sound) : w'.Sound := by
  intro id net hnet
  rcases ext.provides id net hnet with ⟨id', hnet'⟩ | ⟨family, rfl⟩
  · exact sound id' net hnet'
  · exact .empty family

theorem push (ext : Extends w₀ w) (h : w₀.Provides net) :
    Extends w₀ { w with networks := w.networks.push net } where
  networks id net' hnet := by
    have found := ext.networks id net' hnet
    have hlt := (Array.getElem?_eq_some_iff.1 found).1
    rw [Array.getElem?_push, if_neg (Nat.ne_of_lt hlt), found]
  indexes := ext.indexes
  provides id net' hnet := by
    rw [Array.getElem?_push] at hnet
    split at hnet
    · cases hnet
      exact h
    · exact ext.provides id net' hnet

theorem pushIndex (ext : Extends w₀ w) (index : FanoutIndex) :
    Extends w₀ { w with indexes := w.indexes.push index } where
  networks := ext.networks
  indexes i index' hindex := by
    have found := ext.indexes i index' hindex
    have hlt := (Array.getElem?_eq_some_iff.1 found).1
    rw [Array.getElem?_push, if_neg (Nat.ne_of_lt hlt), found]
  provides := ext.provides

theorem current (ext : Extends w₀ w) (v : View) : Ensures (Extends w₀) w v.current :=
  .get_bind (.lift ext)

theorem addNetwork (ext : Extends w₀ w) (h : w₀.Provides net) :
    Ensures (Extends w₀) w (addNetwork net) :=
  .get_bind (.set_bind (.pure (ext.push h)))

theorem addFanout (ext : Extends w₀ w) (base : View) : Ensures (Extends w₀) w base.addFanout :=
  .bind (ext.current base) fun _ _ ext => .get_bind (.set_bind (.pure (ext.pushIndex _)))

/-- A copy of a view has copies of networks that there are. -/
theorem deepClone (v : View) : ∀ {w : Workspace}, Extends w₀ w → Ensures (Extends w₀) w v.deepClone := by
  induction v with
  | network id =>
    intro w ext
    refine .get_bind (.fault_bind fun net hnet => ext.addNetwork ?_)
    exact ext.provides id net (network_eq_ok.1 hnet)
  | fanout base index ih => exact fun ext => .bind (ih ext) fun v _ ext => ext.addFanout v
  | dontCare base dontCares ih ih' =>
    exact fun ext => .bind (ih ext) fun _ _ ext => .bind (ih' ext) fun _ _ => .pure

theorem withDontCares (ext : Extends w₀ w) (base dontCares : View) :
    Ensures (Extends w₀) w (base.withDontCares dontCares) := by
  refine .bind (ext.current base) fun net _ ext =>
    .bind (ext.current dontCares) fun d _ ext => ?_
  by_cases hinputs : d.numInputs = net.numInputs
  · by_cases houtputs : d.numOutputs = 1
    · simp only [hinputs, houtputs, ne_eq, not_true_eq_false, if_false]
      exact .pure ext
    · simp only [hinputs, houtputs, ne_eq, not_true_eq_false, not_false_eq_true, if_false, if_true]
      exact .refuse_bind ext
  · simp only [hinputs, ne_eq, not_false_eq_true, if_true]
    exact .refuse_bind ext

end Extends

/-- What an action does: it adds to the workspace, makes indexes anew, or is a call that changes the one
network of the view that it goes through. -/
inductive Step (w : Workspace) : Action → Workspace → Prop
  | added {a : Action} {w' : Workspace} (other : ∀ v c, a ≠ .call v c) (ext : Extends w w') : Step w a w'
  | refreshed {v : View} {net : Network} (hnet : w.networks[v.networkId]? = some net) :
      Step w (.refresh v) { w with indexes := v.reindexed (fun _ => .ofNetwork net) w.indexes }
  | called {v : View} {c : Call} {net net' : Network} (hnet : w.networks[v.networkId]? = some net)
      (run : c.edit.run net = .ok () net') :
      Step w (.call v c)
        { networks := w.networks.setIfInBounds v.networkId net'
          indexes := v.reindexed (c.maintain · net') w.indexes }
  | refused {v : View} {c : Call} {net net' : Network} {cause : NetworkError}
      (hnet : w.networks[v.networkId]? = some net)
      (run : c.edit.run net = .error (.refused cause) net') :
      Step w (.call v c) { w with networks := w.networks.setIfInBounds v.networkId net' }

theorem current_fails (h : w.networks[v.networkId]? = none) :
    v.current.run w = .error (.fault (.indexOutOfRange v.networkId w.networks.size)) w := by
  rw [View.current, Edit.run_get_bind, network, h]
  rfl

theorem ensures_refresh (w : Workspace) (v : View) : Ensures (Step w (.refresh v)) w v.refresh := by
  cases hnet : w.networks[v.networkId]? with
  | none => exact .of_fault (Edit.run_bind_error (current_fails hnet) _)
  | some net => exact .of_ok (View.updateIndexes_run hnet _) (.refreshed hnet)

theorem ensures_perform (w : Workspace) (v : View) (c : Call) :
    Ensures (Step w (.call v c)) w (v.perform c) := by
  cases hnet : w.networks[v.networkId]? with
  | none => exact .of_fault (View.perform_run_none hnet c)
  | some net =>
    cases hrun : c.edit.run net with
    | ok a net' => exact .of_ok (View.perform_run hnet hrun) (.called hnet hrun)
    | error e net' =>
      have run := View.perform_run_error hnet hrun
      cases e with
      | refused cause => exact .of_refused run (.refused hnet hrun)
      | fault cause => exact .of_fault run

theorem Action.step {a : Action} (leads : Leads a.run w w') : Step w a w' := by
  cases a with
  | make family =>
    have ext := (Extends.refl w).addNetwork (.inr ⟨family, rfl⟩)
    exact .added (fun _ _ h => by cases h) (Ensures.discard ext w' leads)
  | addFanout base =>
    exact .added (fun _ _ h => by cases h) (Ensures.discard ((Extends.refl w).addFanout base) w' leads)
  | deepClone v =>
    exact .added (fun _ _ h => by cases h) (Ensures.discard (Extends.deepClone v (.refl w)) w' leads)
  | withDontCares base dontCares =>
    have ext := (Extends.refl w).withDontCares base dontCares
    exact .added (fun _ _ h => by cases h) (Ensures.discard ext w' leads)
  | refresh v => exact ensures_refresh w v w' leads
  | call v c => exact ensures_perform w v c w' leads

/-- Every network is one that calls lead to, and those of an earlier workspace have come there by calls. -/
structure Follows (w₀ w : Workspace) : Prop where
  sound : w.Sound
  kept : ∀ (id : Nat) net, w₀.networks[id]? = some net →
    ∃ net', w.networks[id]? = some net' ∧ net.Later net'

namespace Follows

variable {w₀ : Workspace}

theorem refl (sound : w.Sound) : Follows w w := ⟨sound, fun _ net hnet => ⟨net, hnet, .refl⟩⟩

theorem extend (follows : Follows w₀ w) (ext : Extends w w') : Follows w₀ w' where
  sound := ext.sound follows.sound
  kept id net hnet := by
    obtain ⟨net', hnet', later⟩ := follows.kept id net hnet
    exact ⟨net', ext.networks id net' hnet', later⟩

theorem set (follows : Follows w₀ w) {id : Nat} {net' : Network} (hnet : w.networks[id]? = some net)
    (later : net.Later net') :
    Follows w₀ { w with networks := w.networks.setIfInBounds id net' } where
  sound id' net'' hnet' := by
    rw [Array.getElem?_setIfInBounds] at hnet'
    split at hnet'
    · split at hnet'
      · cases hnet'
        exact (follows.sound id net hnet).later later
      · cases hnet'
    · exact follows.sound id' net'' hnet'
  kept id' first hfirst := by
    obtain ⟨before, hbefore, earlier⟩ := follows.kept id' first hfirst
    by_cases heq : id = id'
    · subst heq
      cases hnet.symm.trans hbefore
      have hlt := (Array.getElem?_eq_some_iff.1 hnet).1
      exact ⟨net', by rw [Array.getElem?_setIfInBounds, if_pos rfl, if_pos hlt], earlier.trans later⟩
    · exact ⟨before, by rw [Array.getElem?_setIfInBounds, if_neg heq, hbefore], earlier⟩

theorem step (follows : Follows w₀ w) {a : Action} (admissible : a.Admissible w) (h : Step w a w') :
    Follows w₀ w' := by
  cases h with
  | added _ ext => exact follows.extend ext
  | refreshed => exact ⟨follows.sound, follows.kept⟩
  | called hnet run =>
    have set := follows.set hnet (.single ⟨_, admissible _ hnet, .done run⟩)
    exact ⟨set.sound, set.kept⟩
  | refused hnet run => exact follows.set hnet (.single ⟨_, admissible _ hnet, .refused run⟩)

end Follows

theorem Reachable.sound (h : w.Reachable) : w.Sound := by
  induction h with
  | empty =>
    intro id net hnet
    simp [Workspace.empty] at hnet
  | act _ admissible leads ih => exact ((Follows.refl ih).step admissible (Action.step leads)).sound

/-- What an action leads to follows the workspace before it. -/
theorem Reachable.follows (h : w.Reachable) {a : Action} {w' : Workspace}
    (admissible : a.Admissible w) (leads : Leads a.run w w') : Follows w w' :=
  (Follows.refl h.sound).step admissible (Action.step leads)

section run

instance (w : Workspace) (a : Action) : Decidable (a.Admissible w) :=
  match a with
  | .call v c =>
    match h : w.networks[v.networkId]? with
    | none => isTrue fun net hnet => by cases h.symm.trans hnet
    | some net => decidable_of_iff (c.Admissible net)
        ⟨fun hc net' hnet => Option.some.inj (h.symm.trans hnet) ▸ hc, fun hc => hc net h⟩
  | .make _ | .addFanout _ | .deepClone _ | .withDontCares _ _ | .refresh _ => isTrue trivial

/-- The workspace that admissible actions lead to when none is refused or faults. -/
def run? (w : Workspace) : List Action → Option Workspace
  | [] => some w
  | a :: rest =>
    if a.Admissible w then
      match a.run.run w with
      | .ok _ w' => w'.run? rest
      | .error _ _ => none
    else none

theorem Reachable.of_run? {actions : List Action} : ∀ {w w' : Workspace}, w.Reachable →
    w.run? actions = some w' → w'.Reachable := by
  induction actions with
  | nil =>
    intro w w' h ok
    cases ok
    exact h
  | cons a rest ih =>
    intro w w' h ok
    rw [run?] at ok
    split at ok
    · next admissible =>
      cases hrun : a.run.run w with
      | ok _ w₁ =>
        rw [hrun] at ok
        exact ih (.act h admissible (.done hrun)) ok
      | error _ _ =>
        rw [hrun] at ok
        cases ok
    · cases ok

/-- A majority gate that was inverted, under a conjunction that is the output. -/
def sampleActions : List Action :=
  let v := View.network 0
  [.make .mig, .call v .input, .call v .input, .call v .input,
    .call v (.maj (.ofNode 1) (.ofNode 2) (.ofNode 3)), .call v (.and (.ofNode 1) (.ofNode 4)),
    .call v (.output (.ofNode 5)), .call v (.invert 4)]

theorem isSome_run?_sampleActions : (Workspace.empty.run? sampleActions).isSome = true := by
  decide +kernel

/-- The workspace in which the theorems are applied to an instance. -/
def sample : Workspace := (Workspace.empty.run? sampleActions).get isSome_run?_sampleActions

/-- The network of the sample. -/
def sampleNetwork : Network := sample.networks[0]?.getD (.empty .mig)

theorem reachable_sample : sample.Reachable :=
  .of_run? .empty (Option.some_get isSome_run?_sampleActions).symm

theorem getElem?_sample : sample.networks[0]? = some sampleNetwork := by
  decide +kernel

end run

end Workspace

end LogicNet
