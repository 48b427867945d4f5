import LogicNet.Network.Cover
import LogicNet.Proofs.Recipes

/-! # Networks from covers

A term represents that all literals of its cube hold, and a cover that those of some cube do.
-/

namespace LogicNet

namespace Cube

/-- Whether the literals of a cube hold for given values of the inputs.  Positions without a counterpart on
the other side do not count. -/
def covers (values : List Bool) (cube : Cube) : Bool :=
  (values.zip cube).all fun (b, l) => l.all (· == b)

/-- Every literal agrees with the value at its position.  Values without a literal are free, and literals
past the values are ignored. -/
def Covers (values : List Bool) (cube : Cube) : Prop :=
  ∀ (i : Nat) (positive : Bool), cube[i]? = some (some positive) →
    ∀ value, values[i]? = some value → value = positive

variable {values : List Bool} {cube : Cube} {cubes : List Cube}

theorem covers_eq_true_iff : cube.covers values = true ↔ cube.Covers values := by
  rw [covers, List.all_eq_true]
  constructor
  · intro h i positive literal value hvalue
    have paired : (values.zip cube)[i]? = some (value, some positive) :=
      List.getElem?_zip_eq_some.2 ⟨hvalue, literal⟩
    have agrees : (positive == value) = true := h _ (List.mem_of_getElem? paired)
    exact (beq_iff_eq.1 agrees).symm
  · rintro h ⟨value, literal⟩ mem
    obtain ⟨i, paired⟩ := List.mem_iff_getElem?.1 mem
    obtain ⟨hvalue, hliteral⟩ := List.getElem?_zip_eq_some.1 paired
    cases literal with
    | none => rfl
    | some positive => exact beq_iff_eq.2 (h i positive hliteral value hvalue).symm

instance (values : List Bool) (cube : Cube) : Decidable (cube.Covers values) :=
  decidable_of_iff (cube.covers values = true) covers_eq_true_iff

/-- A cube of any length: its third position is free, and so is any value past its end. -/
example : Covers [true, false, true, true] [some true, some false, none] := by decide

theorem not_any_covers_iff :
    (!cubes.any (covers values)) = true ↔ ∀ cube ∈ cubes, ¬ cube.Covers values := by
  simp [← covers_eq_true_iff]

end Cube

namespace Network

variable {net net' : Network} {f : (Nat → Bool) → Bool} {val : Signal → (Nat → Bool) → Bool}
  {inputs : List Signal}

/-- A conjunction that holds everywhere may stand for no signal yet. -/
def RepresentsTerm (net : Network) (f : (Nat → Bool) → Bool) : Option Signal → Prop
  | none => ∀ x, f x = true
  | some s => net.Represents f s

/-- The signals have the values that are wanted of them. -/
def Valued (net : Network) (val : Signal → (Nat → Bool) → Bool) (signals : List Signal) : Prop :=
  ∀ s ∈ signals, net.Represents (val s) s

theorem Valued.grows (h : net.Valued val inputs) (grows : Grows net net') (wf : net.WellFormed)
    (wf' : net'.WellFormed) : net'.Valued val inputs :=
  fun s hs => (h s hs).grows grows wf wf'

theorem createConjunct_some (term : Option Signal) (s : Signal) (positive : Bool) :
    createConjunct term (s, some positive) = (if positive then pure s else createNot s) >>= fun l =>
      match term with
      | none => pure (some l)
      | some t => do return some (← createAnd t l) := by
  cases positive <;> rfl

namespace HashConsed

/-- One literal more. -/
theorem adds_createConjunct (consed : net.HashConsed) {term : Option Signal}
    (hterm : net.RepresentsTerm f term) {s : Signal} (hs : net.Represents (val s) s) (l : Option Bool) :
    Adds net (createConjunct term (s, l)) fun net' term' =>
      net'.RepresentsTerm (fun x => f x && l.all (· == val s x)) term' := by
  cases l with
  | none =>
    refine Makes.pure consed ⟨rfl, rfl, ?_⟩
    simpa using hterm
  | some positive =>
    have literal : Computes net (if positive then Pure.pure s else createNot s)
        fun x => positive == val s x := by
      cases positive with
      | true => exact .pure consed (hs.congr fun x => by simp)
      | false => exact (consed.computes_createNot hs).congr fun x => by simp
    rw [createConjunct_some]
    refine Adds.bind literal fun net₁ t consed₁ grows₁ ht => ?_
    cases term with
    | none =>
      refine Makes.pure consed₁ ⟨rfl, rfl, ht.congr fun x => ?_⟩
      rw [hterm x]
      rfl
    | some u =>
      have hu := Represents.grows hterm grows₁ consed.toWellFormed consed₁.toWellFormed
      refine Adds.bind (consed₁.computes_createAnd hu ht) fun net₂ both consed₂ _ hboth => ?_
      exact Makes.pure consed₂ ⟨rfl, rfl, hboth⟩

theorem adds_conjuncts (literals : List (Signal × Option Bool)) : ∀ {net : Network}
    {f : (Nat → Bool) → Bool} {term : Option Signal}, net.HashConsed → net.RepresentsTerm f term →
    net.Valued val (literals.map Prod.fst) →
    Adds net (literals.foldlM createConjunct term) fun net' term' =>
      net'.RepresentsTerm (fun x => f x && literals.all fun (s, l) => l.all (· == val s x)) term' := by
  induction literals with
  | nil =>
    intro net f term consed hterm _
    refine Makes.pure consed ⟨rfl, rfl, ?_⟩
    simpa using hterm
  | cons literal rest ih =>
    intro net f term consed hterm valued
    obtain ⟨hs, others⟩ := List.forall_mem_cons.1 valued
    rw [List.foldlM_cons]
    refine Adds.bind (consed.adds_createConjunct hterm hs literal.2)
      fun net₁ term₁ consed₁ grows₁ hterm₁ => ?_
    have others₁ := Valued.grows others grows₁ consed.toWellFormed consed₁.toWellFormed
    simpa only [List.all_cons, Bool.and_assoc] using ih consed₁ hterm₁ others₁

theorem computes_createTerm (consed : net.HashConsed) (valued : net.Valued val inputs) (cube : Cube) :
    Computes net (createTerm inputs cube) fun x => cube.covers (inputs.map (val · x)) := by
  have literals : net.Valued val ((inputs.zip cube).map Prod.fst) := fun s hs => by
    obtain ⟨⟨_, l⟩, hl, rfl⟩ := List.mem_map.1 hs
    exact valued _ (List.of_mem_zip hl).1
  have start : net.RepresentsTerm (fun _ => true) none := fun _ => rfl
  refine Adds.bind (adds_conjuncts (inputs.zip cube) consed start literals)
    fun net₁ term consed₁ _ hterm => ?_
  have covers (x : Nat → Bool) : (true && (inputs.zip cube).all fun (s, l) => l.all (· == val s x))
      = cube.covers (inputs.map (val · x)) := by
    rw [Bool.true_and, Cube.covers, List.zip_map_left, List.all_map]
    rfl
  cases term with
  | some t => exact Computes.pure consed₁ (Represents.congr hterm covers)
  | none =>
    have everywhere := (consed₁.represents_constant true).congr fun x => (hterm x).symm.trans (covers x)
    exact Computes.get_bind (.pure consed₁ everywhere)

theorem computes_cover (cubes : List Cube) : ∀ {net : Network} {f : (Nat → Bool) → Bool} {cover : Signal},
    net.HashConsed → net.Valued val inputs → net.Represents f cover →
    Computes net (cubes.foldlM (fun cover cube => do createOr cover (← createTerm inputs cube)) cover)
      fun x => f x || cubes.any (Cube.covers (inputs.map (val · x))) := by
  induction cubes with
  | nil => exact fun consed _ hcover => .pure consed (hcover.congr fun x => by simp)
  | cons cube rest ih =>
    intro net f cover consed valued hcover
    have wf := consed.toWellFormed
    have step : Computes net (do createOr cover (← createTerm inputs cube))
        fun x => f x || cube.covers (inputs.map (val · x)) :=
      (consed.computes_createTerm valued cube).bind fun net₁ term consed₁ grows₁ hterm =>
        consed₁.computes_createOr (hcover.grows grows₁ wf consed₁.toWellFormed) hterm
    rw [List.foldlM_cons]
    refine step.bind fun net₁ cover₁ consed₁ grows₁ hcover₁ => ?_
    refine (ih consed₁ (valued.grows grows₁ wf consed₁.toWellFormed) hcover₁).congr fun x => ?_
    rw [List.any_cons, Bool.or_assoc]

/-- The outputs that there are keep their functions.  The new one is true where no cube covers the values of
the new inputs. -/
theorem makes_createCoverComplement (consed : net.HashConsed) (n : Nat) {cubes : List Cube}
    (nonempty : cubes ≠ []) : Makes net (createCoverComplement n cubes) fun net' _ =>
      net'.numInputs = net.numInputs + n ∧ ∀ x, net'.outputValues x = net.outputValues x
        ++ [!cubes.any (Cube.covers ((List.range n).map fun i => x (net.numInputs + i)))] := by
  obtain ⟨cube, rest, rfl⟩ := List.exists_cons_of_ne_nil nonempty
  have made := makes_inputs (List.range n) consed
  rw [List.length_range] at made
  refine made.bind fun net₁ inputs consed₁ grows₁ ⟨count₁, outputs₁, length, carries⟩ => ?_
  have wf₁ := consed₁.toWellFormed
  have valued : net₁.Valued (fun s x => s.value (net₁.eval x)) inputs :=
    fun s hs => (carries.operands s hs).represents
  have covers (x : Nat → Bool) : inputs.map (fun s => s.value (net₁.eval x))
      = (List.range n).map fun i => x (net.numInputs + i) := carries.values x
  refine Makes.bind (consed₁.computes_createTerm valued cube)
    fun net₂ first consed₂ grows₂ ⟨inputs₂, outputs₂, hfirst⟩ => ?_
  refine Makes.bind (computes_cover rest consed₂ (valued.grows grows₂ wf₁ consed₂.toWellFormed) hfirst)
    fun net₃ cover consed₃ grows₃ ⟨inputs₃, outputs₃, hcover⟩ => ?_
  refine Makes.bind (consed₃.computes_createNot hcover)
    fun net₄ output consed₄ grows₄ ⟨inputs₄, outputs₄, houtput⟩ => ?_
  refine (consed₄.makes_output houtput).bind fun net₅ _ consed₅ grows₅ ⟨inputs₅, values₅⟩ => ?_
  refine .pure consed₅ ⟨?_, fun x => ?_⟩
  · rw [numInputs, inputs₅, inputs₄, inputs₃, inputs₂]
    exact count₁
  · have grows := ((grows₁.trans grows₂).trans grows₃).trans grows₄
    have outputs : net₄.outputs = net.outputs := by rw [outputs₄, outputs₃, outputs₂, outputs₁]
    have old : net₄.outputValues x = net.outputValues x := by
      rw [outputValues, outputs, grows.map_value_eq consed.toWellFormed consed₄.toWellFormed x
        consed.outputs]
      rfl
    rw [values₅, old, List.any_cons, covers]

end HashConsed

theorem length_outputValues (net : Network) (x : Nat → Bool) :
    (net.outputValues x).length = net.numOutputs := List.length_map _

/-- The second network has more inputs, and one more output, which is true where no cube covers them. -/
structure AddsComplement (net : Network) (n : Nat) (cubes : List Cube) (net' : Network) : Prop where
  inputs : net'.numInputs = net.numInputs + n
  outputs : net'.numOutputs = net.numOutputs + 1
  values : ∀ x, ∃ value, net'.outputValues x = net.outputValues x ++ [value] ∧
    (value = true ↔ ∀ cube ∈ cubes, ¬ cube.Covers ((List.range n).map fun i => x (net.numInputs + i)))

theorem HashConsed.addsComplement (consed : net.HashConsed) (n : Nat) (nonempty : cubes ≠ []) :
    ∃ output net', (createCoverComplement n cubes).run net = .ok output net' ∧ net'.HashConsed ∧
      AddsComplement net n cubes net' := by
  obtain ⟨output, net', run, consed', -, inputs, values⟩ :=
    consed.makes_createCoverComplement n nonempty
  refine ⟨output, net', run, consed', inputs, ?_, fun x => ⟨_, values x, Cube.not_any_covers_iff⟩⟩
  have lengths := congrArg List.length (values fun _ => false)
  rwa [length_outputValues, List.length_append, length_outputValues, List.length_singleton] at lengths

end Network

end LogicNet
