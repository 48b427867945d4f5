import LogicNet.Proofs.Simulation
import LogicNet.Proofs.Workspaces

/-! # Building recipes

A recipe is a straight-line program over Boolean values.  While it is built, the signals made so far carry
the values of its lines, whatever gates the family makes of them.  So all families build networks of the
functions that the recipe has when it is evaluated directly.
-/

namespace LogicNet

open Network

/-- Value of a choice among signals with given values. -/
def Choice.value (values : List Bool) (choice : Choice) : Bool :=
  values.getD (choice.index % values.length) false ^^ choice.complemented

namespace RecipeStep

/-- Value of the signal that a step makes, given those of the signals before. -/
def value (values : List Bool) (step : RecipeStep) : Bool :=
  let a := step.first.value values
  let b := step.second.value values
  match step.gate with
  | .and => a && b
  | .or => a || b
  | .xor => a ^^ b
  | .maj => majority a b (step.third.value values)

/-- The gate of a step over its first two choices. -/
def makeGate (signals : List Signal) (step : RecipeStep) (a b : Signal) : Edit Signal :=
  match step.gate with
  | .and => createAnd a b
  | .or => createOr a b
  | .xor => createXor a b
  | .maj => Recipe.pick signals step.third >>= createMaj a b

end RecipeStep

namespace Recipe

theorem runStep_eq (signals : List Signal) (step : RecipeStep) : runStep signals step = do
    let a ← pick signals step.first
    let b ← pick signals step.second
    let s ← step.makeGate signals a b
    return signals ++ [s] := by
  unfold runStep RecipeStep.makeGate
  cases step.gate <;> simp only [bind_assoc]

/-- Values of all signals, the inputs first. -/
def values (r : Recipe) (x : Nat → Bool) : List Bool :=
  r.steps.foldl (fun values step => values ++ [step.value values]) ((List.range r.numInputs).map x)

/-- Values of the outputs. -/
def eval (r : Recipe) (x : Nat → Bool) : List Bool := r.outputs.map (Choice.value (r.values x))

end Recipe

namespace Network

variable {net net' : Network} {s : Signal} {signals : List Signal} {f : (Nat → Bool) → Bool}
  {values : (Nat → Bool) → List Bool}

/-- Signals that may be used and have the values of given functions, in their order. -/
structure Carries (net : Network) (values : (Nat → Bool) → List Bool) (signals : List Signal) : Prop where
  operands : ∀ s ∈ signals, net.Operand s
  values : ∀ x, signals.map (Signal.value (net.eval x)) = values x

namespace Carries

theorem nil (net : Network) : net.Carries (fun _ => []) [] :=
  ⟨fun _ hs => absurd hs List.not_mem_nil, fun _ => rfl⟩

theorem cons (hs : net.Represents f s) (h : net.Carries values signals) :
    net.Carries (fun x => f x :: values x) (s :: signals) :=
  ⟨List.forall_mem_cons.2 ⟨hs.operand, h.operands⟩, fun x => by
    rw [List.map_cons, hs.value, h.values]⟩

theorem append (h : net.Carries values signals) (hs : net.Represents f s) :
    net.Carries (fun x => values x ++ [f x]) (signals ++ [s]) where
  operands t ht := by
    rcases List.mem_append.1 ht with ht | ht
    · exact h.operands t ht
    · exact List.mem_singleton.1 ht ▸ hs.operand
  values x := by rw [List.map_append, h.values, List.map_cons, List.map_nil, hs.value]

theorem grows (h : net.Carries values signals) (grows : Grows net net') (wf : net.WellFormed)
    (wf' : net'.WellFormed) : net'.Carries values signals :=
  ⟨fun s hs => grows.operand (h.operands s hs), fun x =>
    (grows.map_value_eq wf wf' x fun s hs => (h.operands s hs).typed).trans (h.values x)⟩

theorem length_eq (h : net.Carries values signals) (x : Nat → Bool) :
    (values x).length = signals.length := by
  rw [← h.values, List.length_map]

theorem represents (h : net.Carries values signals) {i : Nat} (hs : signals[i]? = some s) :
    net.Represents (fun x => (values x).getD i false) s where
  operand := h.operands s (List.mem_of_getElem? hs)
  value x := by rw [← h.values, List.getD_eq_getElem?_getD, List.getElem?_map, hs]; rfl

end Carries

namespace HashConsed

theorem computes_pick (consed : net.HashConsed) (carries : net.Carries values signals)
    (nonempty : signals ≠ []) (choice : Choice) :
    Computes net (Recipe.pick signals choice) fun x => choice.value (values x) := by
  have inRange : choice.index % signals.length < signals.length :=
    Nat.mod_lt _ (List.length_pos_iff.2 nonempty)
  have picked := List.getElem?_eq_getElem inRange
  have hs : net.Represents (fun x => choice.value (values x) ^^ choice.complemented) _ :=
    (carries.represents picked).congr fun x => by
      rw [Choice.value, carries.length_eq, Bool.xor_assoc, Bool.xor_self, Bool.xor_false]
  rw [Recipe.pick, picked]
  cases complemented : choice.complemented with
  | false =>
    refine .pure consed (hs.congr fun x => ?_)
    rw [complemented, Bool.xor_false]
  | true =>
    refine (consed.computes_createNot hs).congr fun x => ?_
    rw [complemented, Bool.xor_true, Bool.not_not]

theorem computes_makeGate (consed : net.HashConsed) (carries : net.Carries values signals)
    (nonempty : signals ≠ []) {step : RecipeStep} {a b : Signal}
    (ha : net.Represents (fun x => step.first.value (values x)) a)
    (hb : net.Represents (fun x => step.second.value (values x)) b) :
    Computes net (step.makeGate signals a b) fun x => step.value (values x) := by
  unfold RecipeStep.makeGate RecipeStep.value
  cases step.gate with
  | and => exact consed.computes_createAnd ha hb
  | or => exact consed.computes_createOr ha hb
  | xor => exact consed.computes_createXor ha hb
  | maj =>
    refine (consed.computes_pick carries nonempty step.third).bind fun net' c consed' grows hc => ?_
    have wf := consed.toWellFormed
    have wf' := consed'.toWellFormed
    exact consed'.computes_createMaj (ha.grows grows wf wf') (hb.grows grows wf wf') hc

/-- One line of a recipe. -/
theorem adds_runStep (consed : net.HashConsed) (carries : net.Carries values signals)
    (nonempty : signals ≠ []) (step : RecipeStep) :
    Adds net (Recipe.runStep signals step) fun net' signals' => signals' ≠ [] ∧
      net'.Carries (fun x => values x ++ [step.value (values x)]) signals' := by
  rw [Recipe.runStep_eq]
  refine Adds.bind (consed.computes_pick carries nonempty step.first)
    fun net₁ a consed₁ grows₁ ha => ?_
  have wf₁ := consed₁.toWellFormed
  have carries₁ := carries.grows grows₁ consed.toWellFormed wf₁
  refine Adds.bind (consed₁.computes_pick carries₁ nonempty step.second)
    fun net₂ b consed₂ grows₂ hb => ?_
  have wf₂ := consed₂.toWellFormed
  have carries₂ := carries₁.grows grows₂ wf₁ wf₂
  refine Adds.bind (consed₂.computes_makeGate carries₂ nonempty (ha.grows grows₂ wf₁ wf₂) hb)
    fun net₃ s consed₃ grows₃ hs => ?_
  refine Makes.pure consed₃ ⟨rfl, rfl, by simp, ?_⟩
  exact (carries₂.grows grows₃ wf₂ consed₃.toWellFormed).append hs

theorem adds_runSteps (steps : List RecipeStep) : ∀ {net : Network} {signals : List Signal}
    {values : (Nat → Bool) → List Bool}, net.HashConsed → net.Carries values signals → signals ≠ [] →
    Adds net (steps.foldlM Recipe.runStep signals) fun net' signals' => signals' ≠ [] ∧
      net'.Carries (fun x =>
        steps.foldl (fun values step => values ++ [step.value values]) (values x)) signals' := by
  induction steps with
  | nil =>
    intro net signals values consed carries nonempty
    exact Makes.pure consed ⟨rfl, rfl, nonempty, carries⟩
  | cons step rest ih =>
    intro net signals values consed carries nonempty
    rw [List.foldlM_cons]
    exact Adds.bind (consed.adds_runStep carries nonempty step)
      fun net' signals' consed' _ ⟨nonempty', carries'⟩ => ih consed' carries' nonempty'

/-- New inputs have the next values of an assignment. -/
theorem makes_inputs {α : Type} (l : List α) : ∀ {net : Network}, net.HashConsed →
    Makes net (l.mapM fun _ => createInput) fun net' signals =>
      net'.numInputs = net.numInputs + l.length ∧ net'.outputs = net.outputs ∧
      signals.length = l.length ∧
      net'.Carries (fun x => (List.range l.length).map fun i => x (net.numInputs + i)) signals := by
  induction l with
  | nil =>
    intro net consed
    rw [List.mapM_nil]
    exact .pure consed ⟨rfl, rfl, rfl, .nil net⟩
  | cons _ rest ih =>
    intro net consed
    rw [List.mapM_cons]
    refine consed.makes_createInput.bind fun net₁ s consed₁ _ created => ?_
    obtain ⟨inputs₁, outputs₁, hs⟩ := created
    have count₁ : net₁.numInputs = net.numInputs + 1 := by
      rw [numInputs, inputs₁, List.length_append]
      rfl
    refine (ih consed₁).bind fun net₂ signals consed₂ grows₂ others => ?_
    obtain ⟨count₂, outputs₂, length, carries⟩ := others
    refine .pure consed₂ ⟨?_, outputs₂.trans outputs₁, ?_, ?_⟩
    · rw [count₂, count₁, List.length_cons]
      omega
    · rw [List.length_cons, List.length_cons, length]
    · have hs := hs.grows grows₂ consed₁.toWellFormed consed₂.toWellFormed
      refine ⟨(carries.cons hs).operands, fun x => ((carries.cons hs).values x).trans ?_⟩
      rw [List.length_cons, List.range_succ_eq_map, List.map_cons, List.map_map]
      refine congrArg (x net.numInputs :: ·) (List.map_congr_left fun i _ => ?_)
      rw [count₁, Function.comp_apply]
      congr 1
      omega

/-- A new output has the value of its signal; the others keep theirs. -/
theorem makes_output (consed : net.HashConsed) (hs : net.Represents f s) :
    Makes net (createOutput s) fun net' _ => net'.inputs = net.inputs ∧
      ∀ x, net'.outputValues x = net.outputValues x ++ [f x] := by
  obtain ⟨i, net', run, consed', grows, inputs, outputs⟩ := consed.makes_createOutput hs.operand
  have wf := consed.toWellFormed
  refine ⟨i, net', run, consed', grows, inputs, fun x => ?_⟩
  rw [outputValues, outputs, List.map_append, grows.map_value_eq wf consed'.toWellFormed x wf.outputs,
    List.map_cons, List.map_nil, (hs.grows grows wf consed'.toWellFormed).value]
  rfl

theorem makes_outputs (choices : List Choice) : ∀ {net : Network}, net.HashConsed →
    net.Carries values signals → signals ≠ [] →
    Makes net (choices.forM fun choice => do
        let _ ← createOutput (← Recipe.pick signals choice))
      fun net' _ => net'.inputs = net.inputs ∧
        ∀ x, net'.outputValues x = net.outputValues x ++ choices.map (Choice.value (values x)) := by
  induction choices with
  | nil => exact fun consed _ _ => .pure consed ⟨rfl, fun x => by simp⟩
  | cons choice rest ih =>
    intro net consed carries nonempty
    have first : Makes net (do let _ ← createOutput (← Recipe.pick signals choice))
        fun net' _ => net'.inputs = net.inputs ∧
          ∀ x, net'.outputValues x = net.outputValues x ++ [choice.value (values x)] := by
      refine Makes.bind (consed.computes_pick carries nonempty choice)
        fun net₁ s consed₁ grows₁ ⟨inputs₁, outputs₁, hs⟩ => ?_
      refine (consed₁.makes_output hs).bind fun net₂ _ consed₂ _ ⟨inputs₂, values₂⟩ => ?_
      refine .pure consed₂ ⟨inputs₂.trans inputs₁, fun x => ?_⟩
      have wf := consed.toWellFormed
      rw [values₂, outputValues, outputs₁, grows₁.map_value_eq wf consed₁.toWellFormed x wf.outputs]
      rfl
    refine Makes.bind first fun net₁ _ consed₁ grows₁ ⟨inputs₁, values₁⟩ => ?_
    obtain ⟨_, net₂, run, consed₂, grows₂, inputs₂, values₂⟩ :=
      ih consed₁ (carries.grows grows₁ consed.toWellFormed consed₁.toWellFormed) nonempty
    refine ⟨_, net₂, run, consed₂, grows₂, inputs₂.trans inputs₁, fun x => ?_⟩
    rw [values₂, values₁, List.append_assoc]
    rfl

/-- A recipe with an input, built into an empty network. -/
theorem makes_recipe {r : Recipe} (inputs : 0 < r.numInputs) (family : Family) :
    Makes (.empty family) r.build fun net _ =>
      net.numInputs = r.numInputs ∧ ∀ x, net.outputValues x = r.eval x := by
  have made := makes_inputs (List.range r.numInputs) (hashConsed_empty family)
  rw [List.length_range] at made
  refine Makes.bind made fun net₁ signals consed₁ _ ⟨count₁, outputs₁, length, carries₁⟩ => ?_
  have nonempty : signals ≠ [] := List.length_pos_iff.1 (length ▸ inputs)
  refine Makes.bind (adds_runSteps r.steps consed₁ carries₁ nonempty)
    fun net₂ signals₂ consed₂ _ ⟨inputs₂, outputs₂, nonempty₂, carries₂⟩ => ?_
  obtain ⟨_, net₃, run, consed₃, grows₃, inputs₃, values₃⟩ :=
    consed₂.makes_outputs r.outputs carries₂ nonempty₂
  refine ⟨_, net₃, run, consed₃, grows₃, ?_, fun x => ?_⟩
  · rw [numInputs, inputs₃, inputs₂]
    exact count₁.trans (Nat.zero_add _)
  · have noOutputs : net₂.outputValues x = [] := by
      rw [outputValues, outputs₂, outputs₁]
      rfl
    have count : numInputs (.empty family) = 0 := rfl
    rw [values₃, noOutputs, List.nil_append, Recipe.eval, Recipe.values]
    simp only [count, Nat.zero_add]

end HashConsed

end Network

open Workspace in
/-- All families implement a recipe alike.  Through whatever view of an empty network it is built, bare or
with fanout indexes, it gives a network whose outputs are what the recipe evaluates to, also by simulation. -/
theorem Recipe.families_agree (r : Recipe) (inputs : 0 < r.numInputs) : ∃ built : Family → Network,
    (∀ family (w : Workspace) (v : View), w.networks[v.networkId]? = some (.empty family) →
      ∃ indexes, (v.buildRecipe r).run w
        = .ok () { networks := w.networks.setIfInBounds v.networkId (built family), indexes }) ∧
    (∀ family, (∀ x, (built family).outputValues x = r.eval x) ∧
      ∀ pattern : List Bool, pattern.length = r.numInputs →
        (built family).simulate (.ofPattern pattern) = .ok (r.eval (ofPattern pattern))) ∧
    (∀ family, (built family).numInputs = r.numInputs ∧ (built family).numOutputs = r.outputs.length) ∧
    ∀ family family' x, (built family).outputValues x = (built family').outputValues x := by
  choose _ built run consed _ count values using HashConsed.makes_recipe inputs
  refine ⟨built, fun family w v hnet => ?_, fun family => ⟨values family, fun pattern length => ?_⟩,
    fun family => ⟨count family, ?_⟩, fun family family' x => ?_⟩
  · have nonempty : r.isEmpty = false := by
      simp [Recipe.isEmpty, Nat.ne_of_gt inputs]
    rw [View.buildRecipe, nonempty]
    exact View.create_run hnet (run family)
  · rw [← values family]
    exact (consed family).toWellFormed.simulate_eq_ok (length.trans (count family).symm)
  · have length := congrArg List.length (values family fun _ => false)
    simpa only [numOutputs, outputValues, Recipe.eval, List.length_map] using length
  · rw [values, values]

/-- A majority with a complemented operand, whose complement is the output. -/
def sampleRecipe : Recipe where
  numInputs := 3
  steps := [{ gate := .maj, first := ⟨0, false⟩, second := ⟨1, true⟩, third := ⟨2, false⟩ }]
  outputs := [⟨3, true⟩]

/-- The sample built with and without a fanout index. -/
theorem sampleRecipe_families_agree : 0 < sampleRecipe.numInputs ∧ ∃ built : Family → Network,
    (∃ indexes, ((View.network 0).buildRecipe sampleRecipe).run ⟨#[.empty .klut], #[]⟩
      = .ok () { networks := #[built .klut], indexes }) ∧
    (∃ indexes, ((View.fanout (.network 0) 0).buildRecipe sampleRecipe).run
        ⟨#[.empty .mig], #[.ofNetwork (.empty .mig)]⟩
      = .ok () { networks := #[built .mig], indexes }) ∧
    ∀ family x, (built family).outputValues x = [!majority (x 0) (!x 1) (x 2)] := by
  obtain ⟨built, run, values, -⟩ := sampleRecipe.families_agree (by decide)
  refine ⟨by decide, built, run .klut _ (.network 0) rfl, run .mig _ (.fanout (.network 0) 0) rfl,
    fun family x => ((values family).1 x).trans ?_⟩
  simp [sampleRecipe, Recipe.eval, Recipe.values, RecipeStep.value, Choice.value, List.range_succ]

end LogicNet
