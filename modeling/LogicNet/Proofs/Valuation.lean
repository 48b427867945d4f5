import LogicNet.Proofs.Invariants

/-! # Values of nodes

An assignment of the inputs gives every node a value, by recursion from its fanins.  Without cycles
these values solve the equations of all nodes, and on a set of nodes that has their fanins they are the
only solution.
-/

namespace LogicNet.Network

variable {net net' : Network} {x v w : Nat → Bool} {n : Nat}

/-- What the value of a node is to be, given the values of its fanins; `x i` is the value of input
number `i`. -/
def equation (net : Network) (x v : Nat → Bool) (n : Nat) : Bool :=
  match net.kind? n with
  | some (.constant value) => value
  | some .input => x (net.inputs.idxOf n)
  | some (.gate g fanins) => g.value net.functions (fanins.map (Signal.value v))
  | none => false

/-- Value of a node; `fuel` bounds the number of levels. -/
def valueWithin (net : Network) (x : Nat → Bool) : Nat → Nat → Bool
  | 0, _ => false
  | fuel + 1, n => net.equation x (net.valueWithin x fuel) n

/-- Value of a node under an assignment of the inputs. -/
def eval (net : Network) (x : Nat → Bool) (n : Nat) : Bool := net.valueWithin x (net.size + 1) n

/-- Values of the outputs. -/
def outputValues (net : Network) (x : Nat → Bool) : List Bool :=
  net.outputs.map (Signal.value (net.eval x))

/-- The values solve the equations of a set of nodes. -/
def Satisfies (net : Network) (x v : Nat → Bool) (nodes : Nat → Prop) : Prop :=
  ∀ n, nodes n → v n = net.equation x v n

/-- An equation only reads the values of the fanins. -/
theorem equation_congr (h : ∀ m, net.IsFanin m n → v m = w m) :
    net.equation x v n = net.equation x w n := by
  unfold equation
  rcases hkind : net.kind? n with _ | (_ | _ | ⟨g, fanins⟩)
  · rfl
  · rfl
  · rfl
  · refine congrArg (g.value net.functions) (List.map_congr_left fun s hs => ?_)
    unfold Signal.value
    rw [h s.node ⟨s, (slots_of_kind? hkind).symm ▸ hs, rfl⟩]

theorem valueWithin_eq_iterate (net : Network) (x : Nat → Bool) (fuel : Nat) :
    net.valueWithin x fuel = (net.equation x)^[fuel] fun _ => false := by
  induction fuel with
  | zero => rfl
  | succ fuel ih =>
    funext n
    rw [valueWithin, Function.iterate_succ_apply', ih]

theorem Ranked.valueWithin_eq {rank : Nat → Nat} (ranked : net.Ranked rank) {fuel fuel' n : Nat}
    (h : rank n < fuel) (h' : rank n < fuel') : net.valueWithin x fuel n = net.valueWithin x fuel' n := by
  rw [valueWithin_eq_iterate, valueWithin_eq_iterate]
  exact ranked.iterate_eq equation_congr _ _ h h'

/-- The values of all nodes solve all equations. -/
theorem eval_eq_equation (acyclic : net.Acyclic) (closed : net.Closed) (x : Nat → Bool) (n : Nat) :
    net.eval x n = net.equation x (net.eval x) n := by
  obtain ⟨rank, ranked, bounded⟩ := acyclic.exists_ranked closed
  apply equation_congr
  intro m hm
  have hlt := ranked m n hm
  have hle := bounded n
  exact ranked.valueWithin_eq (by omega) (by omega)

theorem WellFormed.eval_constant (wf : net.WellFormed) {value : Bool}
    (h : net.family.constants[n]? = some value) (x : Nat → Bool) : net.eval x n = value := by
  rw [eval_eq_equation wf.acyclic wf.closed, equation, (wf.constant_iff n value).2 h]

/-- Two solutions agree where both solve the equations of all fanins too. -/
theorem Satisfies.unique (acyclic : net.Acyclic) (closed : net.Closed) {nodes : Nat → Prop}
    (fanins : ∀ m n, nodes n → net.IsFanin m n → nodes m) (hv : net.Satisfies x v nodes)
    (hw : net.Satisfies x w nodes) : ∀ n, nodes n → v n = w n := by
  obtain ⟨rank, ranked, -⟩ := acyclic.exists_ranked closed
  intro n hn
  induction hrank : rank n using Nat.strong_induction_on generalizing n with
  | _ k ih =>
    rw [hv n hn, hw n hn]
    apply equation_congr
    intro m hm
    exact ih (rank m) (hrank ▸ ranked m n hm) m (fanins m n hn hm) rfl

/-- The network with every reference changed, those of dead nodes too. -/
def reading (net : Network) (f : Signal → Signal) : Network :=
  { net.mapNodes (·.mapFanins f) with outputs := net.outputs.map f }

theorem kind?_reading (net : Network) (f : Signal → Signal) (n : Nat) :
    (net.reading f).kind? n = (net.kind? n).map (NodeKind.mapFanins f) := by
  have hnode : (net.reading f).nodes[n]? = net.nodes[n]?.map (·.mapFanins f) := getElem?_mapNodes ..
  simp only [kind?, hnode]
  cases net.nodes[n]? with
  | none => rfl
  | some nd => simp [Node.kind_mapFanins]

theorem slots_reading (net : Network) (f : Signal → Signal) (n : Nat) :
    (net.reading f).slots n = (net.slots n).map f := by
  unfold slots
  rw [kind?_reading]
  rcases net.kind? n with _ | (_ | _ | _) <;> rfl

/-- References that are read as signals of the same values leave the equations as they are. -/
theorem equation_of_map {f : Signal → Signal} (kinds : net'.kind? n
      = (net.kind? n).map (NodeKind.mapFanins f)) (functions : net'.functions = net.functions)
    (inputs : net'.inputs = net.inputs) (values : ∀ s, (f s).value v = s.value v) :
    net'.equation x v n = net.equation x v n := by
  unfold equation
  rw [kinds, functions, inputs]
  rcases net.kind? n with _ | (_ | _ | ⟨g, fanins⟩)
  · rfl
  · rfl
  · rfl
  · simp [NodeKind.mapFanins, Function.comp_def, values]

theorem SameGraph.equation (graph : SameGraph net net') : net'.equation x v n = net.equation x v n := by
  unfold Network.equation
  rw [graph.kind?, graph.functions, graph.inputs]

section Redundant

variable {s : Signal}

/-- A gate has the value of each signal that makes it redundant. -/
theorem Redundant.value_eq (wf : net.WellFormed) (h : net.Redundant n s) {nodes : Nat → Prop}
    (satisfies : net.Satisfies x v nodes) (hn : nodes n) (hs : nodes s.node)
    (constants : ∀ m value, net.family.constants[m]? = some value → nodes m) :
    v n = s.value v := by
  rcases h with trivial | ⟨g, fanins, fanins', hkind, hkind', alike⟩
  · obtain ⟨g, fanins, hkind, hc⟩ := canonical_eq_ok.1 trivial
    rw [satisfies n hn, equation, hkind]
    apply Canonical.value_of_trivial hc
    intro hg
    subst hg
    have hconstant := wf.constant_of_and hkind
    rw [satisfies 0 (constants 0 false hconstant), equation, (wf.constant_iff 0 false).2 hconstant]
  · have hvalue := Canonical.value_of_alike wf.functions (wf.fits n g fanins hkind).arity alike v
    rw [satisfies n hn, equation, hkind]
    dsimp only
    rw [hvalue, Signal.value, satisfies s.node hs, equation, hkind']

end Redundant

end LogicNet.Network
