import LogicNet.Proofs.Workspaces

/-! # Views that callers hold

Callers hold the views that they were given.  Whatever is done later on, a held view stands for a network,
and each don't-care function in it has an output.
-/

namespace LogicNet

open Workspace

namespace Workspace

/-- A view that callers were given, here or in an earlier workspace. -/
inductive Holds : Workspace → View → Prop
  | ofFamily {w w' : Workspace} {v : View} {family : Family} (before : w.Reachable)
    (run : (View.ofFamily family).run w = .ok v w') : Holds w' v
  | addFanout {w w' : Workspace} {v base : View} (held : Holds w base)
    (run : base.addFanout.run w = .ok v w') : Holds w' v
  | deepClone {w w' : Workspace} {v source : View} (held : Holds w source)
    (run : source.deepClone.run w = .ok v w') : Holds w' v
  | withDontCares {w w' : Workspace} {v base dontCares : View} (held : Holds w base)
    (heldDontCares : Holds w dontCares)
    (run : (base.withDontCares dontCares).run w = .ok v w') : Holds w' v
  | act {w w' : Workspace} {v : View} {a : Action} (held : Holds w v) (admissible : a.Admissible w)
    (leads : Leads a.run w w') : Holds w' v

end Workspace

variable {w w' : Workspace} {v v' base dontCares : View} {net d : Network} {id : Nat}

namespace View

/-- The network of the view is there, and so are those of its don't-care functions, with an output. -/
def Stands (w : Workspace) : View → Prop
  | network id => ∃ net, w.networks[id]? = some net
  | fanout base _ => base.Stands w
  | dontCare base dontCares => base.Stands w ∧ dontCares.Stands w ∧
      ∃ d, w.networks[dontCares.networkId]? = some d ∧ d.numOutputs ≠ 0

theorem Stands.follow (sound : w.Sound) (follows : Follows w w') (h : v.Stands w) : v.Stands w' := by
  induction v with
  | network id =>
    obtain ⟨net, hnet⟩ := h
    obtain ⟨net', hnet', -⟩ := follows.kept id net hnet
    exact ⟨net', hnet'⟩
  | fanout base index ih => exact ih h
  | dontCare base dontCares ih ih' =>
    obtain ⟨hbase, hdontCares, d, hd, outputs⟩ := h
    obtain ⟨d', hd', later⟩ := follows.kept _ d hd
    have hle := (sound _ d hd).numOutputs_le later
    exact ⟨ih hbase, ih' hdontCares, d', hd', by omega⟩

theorem run_current_eq_ok : v.current.run w = .ok net w' ↔
    w.networks[v.networkId]? = some net ∧ w' = w := by
  rw [← network_eq_ok, current, Edit.run_get_bind]
  cases w.network v.networkId with
  | ok a =>
    constructor
    · rintro ⟨⟩
      exact ⟨rfl, rfl⟩
    · rintro ⟨⟨⟩, rfl⟩
      rfl
  | error e => exact iff_of_false (fun h => by cases h) fun h => by cases h.1

theorem addFanout_run (hnet : w.networks[v.networkId]? = some net) :
    v.addFanout.run w = .ok (.fanout v w.indexes.size)
      { w with indexes := w.indexes.push (.ofNetwork net) } := by
  rw [addFanout, Edit.run_bind_ok (run_current_eq_ok.2 ⟨hnet, rfl⟩)]
  rfl

/-- A fanout view has the network of its base. -/
theorem addFanout_eq_ok (run : base.addFanout.run w = .ok v w') :
    ∃ index, v = .fanout base index ∧ w'.networks = w.networks := by
  obtain ⟨net, w₁, current, rest⟩ := Edit.run_bind_eq_ok.1 run
  obtain ⟨-, rfl⟩ := run_current_eq_ok.1 current
  cases rest
  exact ⟨_, rfl, rfl⟩

/-- Don't-care functions are attached to a view when they have its inputs and one output. -/
theorem withDontCares_eq_ok (run : (base.withDontCares dontCares).run w = .ok v w') :
    v = .dontCare base dontCares ∧ w' = w ∧
      ∃ net d, w.networks[base.networkId]? = some net ∧ w.networks[dontCares.networkId]? = some d ∧
        d.numInputs = net.numInputs ∧ d.numOutputs = 1 := by
  obtain ⟨net, w₁, current, rest⟩ := Edit.run_bind_eq_ok.1 run
  obtain ⟨hnet, rfl⟩ := run_current_eq_ok.1 current
  obtain ⟨d, w₂, current', last⟩ := Edit.run_bind_eq_ok.1 rest
  obtain ⟨hd, rfl⟩ := run_current_eq_ok.1 current'
  by_cases hinputs : d.numInputs = net.numInputs
  · by_cases houtputs : d.numOutputs = 1
    · simp only [hinputs, houtputs, ne_eq, not_true_eq_false, if_false] at last
      cases last
      exact ⟨rfl, rfl, net, d, hnet, hd, hinputs, houtputs⟩
    · simp only [hinputs, houtputs, ne_eq, not_true_eq_false, not_false_eq_true, if_false, if_true]
        at last
      cases last
  · simp only [hinputs, ne_eq, not_false_eq_true, if_true] at last
    cases last

theorem currentIndex_run {index : FanoutIndex} (hid : v.indexIds.getLast? = some id)
    (hindex : w.indexes[id]? = some index) : v.currentIndex.run w = .ok index w := by
  have found : w.index id = .ok index := by rw [Workspace.index, hindex]
  rw [currentIndex, hid, Edit.run_get_bind, found]
  rfl

theorem deepClone_network_run (hnet : w.networks[id]? = some net) :
    (View.network id).deepClone.run w
      = .ok (.network w.networks.size) { w with networks := w.networks.push net } := by
  rw [View.deepClone, Edit.run_get_bind, network_eq_ok.2 hnet]
  rfl

/-- The copy of a view stands for a network with at least the outputs of the one that is copied. -/
theorem Stands.deepClone (v : View) : ∀ {w w' : Workspace} {v' : View}, w.Sound → v.Stands w →
    v.deepClone.run w = .ok v' w' → v'.Stands w' ∧ ∀ net, w.networks[v.networkId]? = some net →
      ∃ net', w'.networks[v'.networkId]? = some net' ∧ net.numOutputs ≤ net'.numOutputs := by
  induction v with
  | network id =>
    intro w w' v' sound stands run
    obtain ⟨net, hnet⟩ := stands
    cases (deepClone_network_run hnet).symm.trans run
    have found : (w.networks.push net)[w.networks.size]? = some net := Array.getElem?_push_size
    refine ⟨⟨net, found⟩, fun net' hnet' => ⟨net, found, ?_⟩⟩
    cases hnet.symm.trans hnet'
    exact Nat.le_refl _
  | fanout base index ih =>
    intro w w' v' sound stands run
    obtain ⟨v₁, w₁, run₁, run₂⟩ := Edit.run_bind_eq_ok.1 run
    obtain ⟨stands₁, copy⟩ := ih sound stands run₁
    have sound₁ := (Extends.deepClone base (.refl w) _ (.done run₁)).sound sound
    have follows := (Follows.refl sound₁).extend ((Extends.refl w₁).addFanout v₁ _ (.done run₂))
    obtain ⟨index', rfl, networks⟩ := addFanout_eq_ok run₂
    refine ⟨stands₁.follow sound₁ follows, ?_⟩
    rw [networks]
    exact copy
  | dontCare base dontCares ih ih' =>
    intro w w' v' sound ⟨standsBase, standsDontCares, d, hd, outputs⟩ run
    obtain ⟨v₁, w₁, run₁, rest⟩ := Edit.run_bind_eq_ok.1 run
    obtain ⟨v₂, w₂, run₂, made⟩ := Edit.run_bind_eq_ok.1 rest
    cases made
    have follows₁ := (Follows.refl sound).extend (Extends.deepClone base (.refl w) _ (.done run₁))
    have follows₂ := (Follows.refl follows₁.sound).extend
      (Extends.deepClone dontCares (.refl w₁) _ (.done run₂))
    obtain ⟨stands₁, copy₁⟩ := ih sound standsBase run₁
    obtain ⟨stands₂, copy₂⟩ := ih' follows₁.sound (standsDontCares.follow sound follows₁) run₂
    obtain ⟨d₁, hd₁, later₁⟩ := follows₁.kept _ d hd
    have hle₁ := (sound _ d hd).numOutputs_le later₁
    obtain ⟨d₂, hd₂, hle₂⟩ := copy₂ d₁ hd₁
    refine ⟨⟨stands₁.follow follows₁.sound follows₂, stands₂, d₂, hd₂, by omega⟩, fun net hnet => ?_⟩
    obtain ⟨net₁, hnet₁, hle⟩ := copy₁ net hnet
    obtain ⟨net₂, hnet₂, later⟩ := follows₂.kept _ net₁ hnet₁
    exact ⟨net₂, hnet₂, Nat.le_trans hle ((follows₁.sound _ net₁ hnet₁).numOutputs_le later)⟩

end View

namespace Workspace.Holds

theorem reachable (held : w.Holds v) : w.Reachable := by
  have discarded {α : Type} {e : Session α} {a : α} {w w' : Workspace} (run : e.run w = .ok a w') :
      Leads (discard e) w w' := .done (by rw [Edit.run_discard, run])
  induction held with
  | @ofFamily _ _ _ family before run =>
    exact .act (a := .make family) before trivial (discarded run)
  | @addFanout _ _ _ base _ run ih => exact .act (a := .addFanout base) ih trivial (discarded run)
  | @deepClone _ _ _ source _ run ih => exact .act (a := .deepClone source) ih trivial (discarded run)
  | @withDontCares _ _ _ base dontCares _ _ run ih _ =>
    exact .act (a := .withDontCares base dontCares) ih trivial (discarded run)
  | act _ admissible leads ih => exact .act ih admissible leads

theorem stands (held : w.Holds v) : v.Stands w := by
  induction held with
  | ofFamily before run =>
    cases run
    exact ⟨_, Array.getElem?_push_size⟩
  | addFanout held run ih =>
    have follows := (Follows.refl held.reachable.sound).extend
      ((Extends.refl _).addFanout _ _ (.done run))
    obtain ⟨index, rfl, -⟩ := View.addFanout_eq_ok run
    exact View.Stands.follow held.reachable.sound follows ih
  | deepClone held run ih => exact (View.Stands.deepClone _ held.reachable.sound ih run).1
  | withDontCares held heldDontCares run ih ih' =>
    obtain ⟨rfl, rfl, net, d, -, hd, -, outputs⟩ := View.withDontCares_eq_ok run
    exact ⟨ih, ih', d, hd, by omega⟩
  | act held admissible leads ih =>
    exact ih.follow held.reachable.sound (held.reachable.follows admissible leads)

/-- A view is still held after further actions. -/
theorem of_run? {actions : List Action} : ∀ {w w' : Workspace}, w.Holds v →
    w.run? actions = some w' → w'.Holds v := by
  induction actions with
  | nil =>
    intro w w' held ok
    cases ok
    exact held
  | cons a rest ih =>
    intro w w' held ok
    rw [run?] at ok
    split at ok
    · next admissible =>
      cases hrun : a.run.run w with
      | ok _ w₁ =>
        rw [hrun] at ok
        exact ih (.act held admissible (.done hrun)) ok
      | error _ _ =>
        rw [hrun] at ok
        cases ok
    · cases ok

end Workspace.Holds

theorem View.withDontCares_run (hnet : w.networks[base.networkId]? = some net)
    (hd : w.networks[dontCares.networkId]? = some d) (hinputs : d.numInputs = net.numInputs)
    (houtputs : d.numOutputs = 1) :
    (base.withDontCares dontCares).run w = .ok (.dontCare base dontCares) w := by
  unfold View.withDontCares
  rw [Edit.run_bind_ok (View.run_current_eq_ok.2 ⟨hnet, rfl⟩),
    Edit.run_bind_ok (View.run_current_eq_ok.2 ⟨hd, rfl⟩)]
  simp only [hinputs, houtputs, ne_eq, not_true_eq_false, if_false]
  rfl

namespace Workspace

section sample

/-- The sample with a fanout index of its network. -/
def sampleIndexed : Workspace := { sample with indexes := sample.indexes.push (.ofNetwork sampleNetwork) }

theorem getElem?_sampleIndexed : sampleIndexed.networks[0]? = some sampleNetwork := by
  rw [sampleIndexed, getElem?_sample]

theorem reachable_sampleIndexed : sampleIndexed.Reachable := by
  have run := View.addFanout_run (v := .network 0) getElem?_sample
  have made : (Action.addFanout (.network 0)).run.run sample = .ok () sampleIndexed :=
    (Edit.run_discard _).trans (by rw [run]; rfl)
  exact .act (a := .addFanout (.network 0)) reachable_sample trivial (.done made)

/-- The sample and a network whose output is its second input. -/
def exclusionActions : List Action :=
  let v := View.network 1
  [.call v .input, .call v .input, .call v .input, .call v (.output (.ofNode 2))]

/-- The sample with one more network. -/
def sampleExtended : Workspace := { sample with networks := sample.networks.push (.empty .mig) }

theorem isSome_run?_exclusionActions : (sampleExtended.run? exclusionActions).isSome = true := by
  decide +kernel

/-- The workspace in which the theorems on don't-care functions are applied to an instance. -/
def sampleExclusion : Workspace :=
  (sampleExtended.run? exclusionActions).get isSome_run?_exclusionActions

/-- The don't-care function of the sample. -/
def sampleDontCares : Network := sampleExclusion.networks[1]?.getD (.empty .mig)

theorem getElem?_sampleExclusion_zero : sampleExclusion.networks[0]? = some sampleNetwork := by
  decide +kernel

theorem getElem?_sampleExclusion_one : sampleExclusion.networks[1]? = some sampleDontCares := by
  decide +kernel

theorem holds_sample : sample.Holds (.network 0) := by
  have first : (View.ofFamily .mig).run Workspace.empty
      = .ok (.network 0) ⟨#[.empty .mig], #[]⟩ := rfl
  have whole : (⟨#[.empty .mig], #[]⟩ : Workspace).run? sampleActions.tail = some sample := by
    decide +kernel
  exact Holds.of_run? (.ofFamily .empty first) whole

theorem holds_sampleExclusion : sampleExclusion.Holds (.dontCare (.network 0) (.network 1)) := by
  have size : sample.networks.size = 1 := by decide +kernel
  have run : (View.ofFamily .mig).run sample = .ok (.network 1) sampleExtended := by
    rw [← size]
    rfl
  have made : (Action.make .mig).run.run sample = .ok () sampleExtended :=
    (Edit.run_discard _).trans (by rw [run])
  have ended : sampleExtended.run? exclusionActions = some sampleExclusion :=
    (Option.some_get isSome_run?_exclusionActions).symm
  have heldBase : sampleExclusion.Holds (.network 0) :=
    Holds.of_run? (.act (a := .make .mig) holds_sample trivial (.done made)) ended
  have heldDontCares : sampleExclusion.Holds (.network 1) :=
    Holds.of_run? (.ofFamily reachable_sample run) ended
  have same : sampleDontCares.numInputs = sampleNetwork.numInputs := by decide +kernel
  have one : sampleDontCares.numOutputs = 1 := by decide +kernel
  exact .withDontCares heldBase heldDontCares
    (View.withDontCares_run getElem?_sampleExclusion_zero getElem?_sampleExclusion_one same one)

end sample

end Workspace

end LogicNet
