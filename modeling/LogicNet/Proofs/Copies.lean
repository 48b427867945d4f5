import LogicNet.Network.Copy
import LogicNet.Proofs.Postorder
import LogicNet.Proofs.Recipes
import LogicNet.Proofs.Retention

/-! # Copies

Whatever was substituted or inverted in a network, making its gates again one by one in topological order
never fails, and gives outputs with the functions of its outputs.  A gate may fold, be found or come back
complemented, so there are as many new gates as there are gates to be made or fewer.
-/

namespace LogicNet

namespace Network

variable {source net net' : Network} {images : Images} {n : Nat} {s : Signal} {l l' : List Signal}
  {done : List Nat}

section size

/-- At most one node is added. -/
abbrev AddsOne {α : Type} (net : Network) (e : Edit α) : Prop :=
  Ensures (fun net' => net'.size ≤ net.size + 1) net e

theorem addsOne_hashCons (net : Network) (g : GateFunction) (l : List Signal) :
    AddsOne net (hashCons g l) := by
  refine .get_bind (.fault_bind fun c _ => ?_)
  cases c with
  | trivial s => exact .pure (Nat.le_succ _)
  | gate key flip => exact .fault_bind fun _ found => .set_bind (.pure (size_le_of_findOrAdd found))

theorem addsOne_createTable (net : Network) (nodes : List Nat) (t : TruthTable) :
    AddsOne net (createTable nodes t) := by
  refine .requireFamily_bind fun _ => .get_bind (.refusal_bind (Nat.le_succ _) fun _ _ => ?_)
  split
  · exact .pure (Nat.le_succ _)
  · -- The function is interned first, which adds no node.
    exact .of_run_eq (Edit.run_bind_ok rfl _) (addsOne_hashCons _ _ _)

theorem addsOne_cloneGate (net source : Network) (n : Nat) (fanins : List Signal) :
    AddsOne net (cloneGate source n fanins) := by
  refine .refusal_bind (Nat.le_succ _) fun slots _ => ?_
  split
  · exact .refuse_bind (Nat.le_succ _)
  · refine .get_bind ?_
    cases net.family with
    | klut => exact .fault_bind fun t _ => addsOne_createTable net _ t
    | _ => exact addsOne_hashCons net _ _

end size

/-- Where edges have polarities, a complement needs no gate. -/
theorem createNot_run (edges : net.family.hasComplementedEdges = true) (s : Signal) :
    (createNot s).run net = .ok s.complement net := by
  rw [createNot, Edit.run_get_bind]
  revert edges
  cases net.family with
  | klut => exact fun h => by cases h
  | _ => exact fun _ => rfl

/-- Signals of one network that represent the signals of another one, member by member. -/
abbrev Mirrors (source net : Network) (l l' : List Signal) : Prop :=
  List.Forall₂ (fun s t => net.Represents (fun x => s.value (source.eval x)) t) l l'

theorem Mirrors.map_value_eq (mirrors : Mirrors source net l l') (x : Nat → Bool) :
    l'.map (Signal.value (net.eval x)) = l.map (Signal.value (source.eval x)) := by
  induction mirrors with
  | nil => rfl
  | cons h _ ih => rw [List.map_cons, List.map_cons, h.value x, ih]

theorem Mirrors.operands (mirrors : Mirrors source net l l') : ∀ t ∈ l', net.Operand t := by
  induction mirrors with
  | nil => simp
  | cons h _ ih => exact List.forall_mem_cons.2 ⟨h.operand, ih⟩

/-- A gate that is made again over the images of its fanins represents the gate. -/
theorem HashConsed.computes_cloneGate (consed : net.HashConsed) (wf : source.WellFormed)
    (family : net.family = source.family) {g : GateFunction} (hkind : source.kind? n = some (.gate g l))
    (mirrors : Mirrors source net l l') : Computes net (cloneGate source n l') fun x => source.eval x n := by
  have fits := wf.fits n g l hkind
  have length := mirrors.length_eq
  have nonempty : l' ≠ [] := List.ne_nil_of_length_pos (length ▸ List.length_pos_iff.2 fits.nonempty)
  have bounded : l'.length ≤ maxFanins := length ▸ fits.bounded
  have hasGate : net.family.hasGate g = true := family ▸ fits.hasGate
  have value (x : Nat → Bool) :
      g.value source.functions (l'.map (Signal.value (net.eval x))) = source.eval x n := by
    rw [mirrors.map_value_eq, eval_eq_equation wf.acyclic wf.closed, equation, hkind]
  unfold cloneGate
  simp only [checkGate_eq_ok hkind, Edit.lift_ok_refusal, pure_bind, length, ne_eq, not_true_eq_false,
    if_false]
  refine .get_bind ?_
  have arity := fits.arity
  rw [length] at arity
  cases g with
  | and =>
    have aig : net.family = .aig := Family.eq_of_hasGate hasGate
    rw [aig]
    exact (consed.computes_gate hasGate arity nonempty bounded mirrors.operands).congr value
  | maj =>
    have mig : net.family = .mig := Family.eq_of_hasGate hasGate
    rw [mig]
    exact (consed.computes_gate hasGate arity nonempty bounded mirrors.operands).congr value
  | table f =>
    have klut : net.family = .klut := Family.eq_of_hasGate hasGate
    obtain ⟨t, ht, hvars⟩ := FunctionCache.arity?_table.1 arity
    have function : source.nodeFunction n = .ok t := (nodeFunction_of_kind? hkind).trans ht
    rw [klut]
    simp only [function, Edit.lift_ok_fault, pure_bind]
    refine (consed.computes_createTable klut (by rw [hvars, List.length_map])
      (by rwa [List.length_map]) fun m hm => ?_).congr fun x => ?_
    · obtain ⟨u, hu, rfl⟩ := List.mem_map.1 hm
      exact (mirrors.operands u hu).live
    · have plain : (l'.map (·.node)).map (net.eval x) = l'.map (Signal.value (net.eval x)) := by
        rw [List.map_map]
        refine List.map_congr_left fun u hu => ?_
        exact (mirrors.operands u hu).represents.eval_eq klut x
      rw [plain, ← value, GateFunction.value, ht]

/-- What is copied so far: the images represent the functions of their nodes, and all nodes that are no
gates and all that are done have an image. -/
structure Copies (source : Network) (done : List Nat) (images : Images) (net : Network) : Prop where
  family : net.family = source.family
  represents : ∀ p ∈ images, net.Represents (fun x => source.eval x p.1) p.2
  leaves : ∀ n < source.size, ¬ source.IsGate n → n ∈ images.map Prod.fst
  covered : ∀ n ∈ done, n ∈ images.map Prod.fst

namespace Copies

theorem grows (copies : Copies source done images net) (grows : Grows net net') (wf : net.WellFormed)
    (wf' : net'.WellFormed) : Copies source done images net' where
  family := grows.family.trans copies.family
  represents p hp := (copies.represents p hp).grows grows wf wf'
  leaves := copies.leaves
  covered := copies.covered

/-- The image of a signal is there, and looking it up changes nothing. -/
theorem imageOf_run (copies : Copies source done images net) (typed : source.Typed s)
    (known : s.node ∈ images.map Prod.fst) : ∃ t, (imageOf images s).run net = .ok t net ∧
      net.Represents (fun x => s.value (source.eval x)) t := by
  obtain ⟨p, hp, hnode⟩ := List.mem_map.1 known
  obtain ⟨t, found⟩ : ∃ t, images.lookup s.node = some t :=
    Option.isSome_iff_exists.1 (List.lookup_isSome_iff.2 ⟨p, hp, by simp [hnode]⟩)
  have represents : net.Represents (fun x => source.eval x s.node) t := by
    obtain ⟨before, after, rfl, -⟩ := List.lookup_eq_some_iff.1 found
    exact copies.represents (s.node, t) (by simp)
  unfold imageOf
  rw [found]
  cases polarity : s.complemented with
  | false => exact ⟨t, rfl, represents.congr fun x => by rw [Signal.value, polarity, Bool.xor_false]⟩
  | true =>
    have edges : net.family.hasComplementedEdges = true := copies.family ▸ typed.polarity polarity
    refine ⟨t.complement, createNot_run edges t, (represents.complement edges).congr fun x => ?_⟩
    rw [Signal.value, polarity, Bool.xor_true]

theorem mapM_imageOf_run (copies : Copies source done images net) :
    ∀ {l : List Signal}, (∀ s ∈ l, source.Typed s ∧ s.node ∈ images.map Prod.fst) →
      ∃ l', (l.mapM (imageOf images)).run net = .ok l' net ∧ Mirrors source net l l' := by
  intro l
  induction l with
  | nil => exact fun _ => ⟨[], rfl, .nil⟩
  | cons s rest ih =>
    intro known
    obtain ⟨⟨typed, image⟩, others⟩ := List.forall_mem_cons.1 known
    obtain ⟨t, run, represents⟩ := copies.imageOf_run typed image
    obtain ⟨rest', runs, mirrors⟩ := ih others
    refine ⟨t :: rest', ?_, .cons represents mirrors⟩
    rw [List.mapM_cons, Edit.run_bind_ok run, Edit.run_bind_ok runs]
    rfl

/-- A gate gets a new image, which is over the images of its fanins. -/
theorem adds_gate (copies : Copies source done images net) (consed : net.HashConsed)
    (wf : source.WellFormed) {g : GateFunction} {fanins : List Signal}
    (hkind : source.kind? n = some (.gate g fanins)) (covered : ∀ m, source.IsFanin m n → m ∈ done) :
    Adds net (copyNode source images n) fun net' images' =>
      Copies source (n :: done) images' net' ∧ net'.size ≤ net.size + 1 := by
  have known : ∀ s ∈ fanins, source.Typed s ∧ s.node ∈ images.map Prod.fst := fun s hs =>
    ⟨(wf.fits n g fanins hkind).typed s hs,
      copies.covered _ (covered _ ⟨s, (slots_of_kind? hkind).symm ▸ hs, rfl⟩)⟩
  obtain ⟨fanins', looked, mirrors⟩ := copies.mapM_imageOf_run known
  obtain ⟨s, net', run, consed', grows, inputs, outputs, represents⟩ :=
    consed.computes_cloneGate wf copies.family hkind mirrors
  have size := addsOne_cloneGate net source n fanins' net' (.done run)
  have later := copies.grows grows consed.toWellFormed consed'.toWellFormed
  refine ⟨(n, s) :: images, net', ?_, consed', grows, inputs, outputs, ⟨later.family, ?_, ?_, ?_⟩, size⟩
  · obtain ⟨nd, hnd, hnode⟩ := kind?_eq_some.1 hkind
    have gate : nd.isGate = true := (isGate_of_getElem? hnd).1 ⟨g, fanins, hkind⟩
    unfold copyNode
    rw [node_eq_ok.2 hnd, fanins_of_lt (lt_size_of_kind? hkind), slots_of_kind? hkind]
    simp only [Edit.lift_ok_fault, pure_bind, gate, if_true]
    rw [Edit.run_bind_ok looked, Edit.run_bind_ok run]
    rfl
  · exact List.forall_mem_cons.2 ⟨represents, later.represents⟩
  · exact fun m hm noGate => List.mem_cons_of_mem n (later.leaves m hm noGate)
  · exact List.forall_mem_cons.2 ⟨List.mem_cons_self, fun m hm => List.mem_cons_of_mem n (later.covered m hm)⟩

/-- Any other node has its image already. -/
theorem adds_leaf (copies : Copies source done images net) (consed : net.HashConsed)
    (hn : n < source.size) (noGate : ¬ source.IsGate n) :
    Adds net (copyNode source images n) fun net' images' =>
      Copies source (n :: done) images' net' ∧ net'.size = net.size := by
  obtain ⟨nd, hnd⟩ := exists_node hn
  have leaf : nd.isGate = false := Bool.eq_false_iff.2 fun gate => noGate ((isGate_of_getElem? hnd).2 gate)
  refine ⟨images, net, ?_, consed, .refl net, rfl, rfl, ⟨copies.family, copies.represents, copies.leaves, ?_⟩,
    rfl⟩
  · unfold copyNode
    rw [node_eq_ok.2 hnd]
    simp only [Edit.lift_ok_fault, pure_bind, leaf, Bool.false_eq_true, if_false]
    rfl
  · exact List.forall_mem_cons.2 ⟨copies.leaves n hn noGate, copies.covered⟩

theorem adds_copyNode (copies : Copies source done images net) (consed : net.HashConsed)
    (wf : source.WellFormed) (hn : n < source.size) (covered : ∀ m, source.IsFanin m n → m ∈ done) :
    Adds net (copyNode source images n) fun net' images' => Copies source (n :: done) images' net' ∧
      net'.size ≤ net.size + {m | m = n ∧ source.IsGate m}.ncard := by
  by_cases gate : source.IsGate n
  · have one : {m | m = n ∧ source.IsGate m} = {n} := by
      ext m
      exact and_iff_left_of_imp fun same => same ▸ gate
    rw [one, Set.ncard_singleton]
    obtain ⟨g, fanins, hkind⟩ := gate
    exact copies.adds_gate consed wf hkind covered
  · obtain ⟨images', net', run, consed', grows, inputs, outputs, copied, size⟩ :=
      copies.adds_leaf consed hn gate
    exact ⟨images', net', run, consed', grows, inputs, outputs, copied, by omega⟩

/-- All nodes of an order, from the last one of the list to the first. -/
theorem adds_copyNodes (copies : Copies source [] images net) (consed : net.HashConsed)
    (wf : source.WellFormed) (ordered : source.Ordered done) (inRange : ∀ n ∈ done, n < source.size) :
    Adds net (done.reverse.foldlM (copyNode source) images) fun net' images' =>
      Copies source done images' net' ∧
        net'.size ≤ net.size + {n | n ∈ done ∧ source.IsGate n}.ncard := by
  induction ordered with
  | nil => exact Makes.pure consed ⟨rfl, rfl, copies, Nat.le_add_right _ _⟩
  | @cons n done fanins unseen _ ih =>
    obtain ⟨hn, others⟩ := List.forall_mem_cons.1 inRange
    rw [List.reverse_cons, List.foldlM_append]
    refine Adds.bind (ih others) fun net₁ images₁ consed₁ _ ⟨copies₁, size₁⟩ => ?_
    rw [List.foldlM_cons]
    refine Adds.bind (copies₁.adds_copyNode consed₁ wf hn fanins)
      fun net₂ images₂ consed₂ _ ⟨copies₂, size₂⟩ => ?_
    refine Makes.pure consed₂ ⟨rfl, rfl, copies₂, ?_⟩
    rw [ncard_gates_cons unseen]
    omega

/-- The outputs get the functions of the outputs, and no gates are made for them. -/
theorem makes_outputs (l : List Signal) : ∀ {net : Network}, net.HashConsed →
    Copies source done images net → (∀ s ∈ l, source.Typed s ∧ s.node ∈ images.map Prod.fst) →
    Makes net (l.forM fun s => do let _ ← createOutput (← imageOf images s))
      fun net' _ => net'.inputs = net.inputs ∧ net'.size = net.size ∧
        ∀ x, net'.outputValues x = net.outputValues x ++ l.map (Signal.value (source.eval x)) := by
  induction l with
  | nil => exact fun consed _ _ => .pure consed ⟨rfl, rfl, fun x => by simp⟩
  | cons s rest ih =>
    intro net consed copies known
    obtain ⟨⟨typed, image⟩, others⟩ := List.forall_mem_cons.1 known
    obtain ⟨t, looked, represents⟩ := copies.imageOf_run typed image
    obtain ⟨i, net₁, run, consed₁, grows₁, inputs₁, values₁⟩ := consed.makes_output represents
    have size₁ : net₁.size = net.size := by
      cases run.symm.trans represents.operand.createOutput_run
      exact size_withOutput net t
    obtain ⟨u, net₂, run₂, consed₂, grows₂, inputs₂, size₂, values₂⟩ :=
      ih consed₁ (copies.grows grows₁ consed.toWellFormed consed₁.toWellFormed) others
    refine ⟨u, net₂, ?_, consed₂, grows₁.trans grows₂, inputs₂.trans inputs₁, size₂.trans size₁, fun x => ?_⟩
    · have first : (do let _ ← createOutput (← imageOf images s) : Edit PUnit).run net = .ok ⟨⟩ net₁ := by
        rw [Edit.run_bind_ok looked, Edit.run_bind_ok run]
        rfl
      exact (Edit.run_bind_ok first _).trans run₂
    · rw [values₂, values₁, List.append_assoc]
      rfl

end Copies

theorem WellFormed.eval_input (wf : net.WellFormed) {i : Nat} (h : net.inputs[i]? = some n)
    (x : Nat → Bool) : net.eval x n = x i := by
  have hkind := (wf.input_iff n).2 (List.mem_of_getElem? h)
  obtain ⟨hi, rfl⟩ := List.getElem?_eq_some_iff.1 h
  rw [eval_eq_equation wf.acyclic wf.closed, equation, hkind]
  exact congrArg x (wf.nodup_inputs.idxOf_getElem i hi)

/-- An input may be used, and has its value of the assignment. -/
theorem HashConsed.represents_input (consed : net.HashConsed) {i : Nat} (h : net.inputs[i]? = some n) :
    net.Represents (fun x => x i) (.ofNode n) := by
  have hkind := (consed.input_iff n).2 (List.mem_of_getElem? h)
  have live : net.isLive n = true := by
    by_contra dead
    obtain ⟨g, fanins, gate⟩ := consed.dead_isGate n (lt_size_of_kind? hkind) (Bool.eq_false_iff.2 dead)
    cases hkind.symm.trans gate
  refine ⟨⟨live, fun h => by cases h⟩, fun x => ?_⟩
  exact (Bool.xor_false _).trans (consed.toWellFormed.eval_input h x)

/-- Constants and inputs are paired with those that have the same values. -/
theorem HashConsed.copies_firstImages (consed : net.HashConsed) (wf : source.WellFormed)
    (family : net.family = source.family) (inputs : net.numInputs = source.numInputs) :
    Copies source [] (source.firstImages net) net where
  family := family
  represents p hp := by
    rcases List.mem_append.1 hp with hp | hp
    · obtain ⟨n, hn, rfl⟩ := List.mem_mapIdx.1 hp
      have constant : source.family.constants[n]? = some source.family.constants[n] :=
        List.getElem?_eq_getElem hn
      exact (consed.represents_constant _).congr fun x => (wf.eval_constant constant x).symm
    · obtain ⟨i, hi⟩ := List.mem_iff_getElem?.1 hp
      obtain ⟨input, image⟩ := List.getElem?_zip_eq_some.1 hi
      rw [List.getElem?_map, Option.map_eq_some_iff] at image
      obtain ⟨m, hm, image⟩ := image
      rw [← image]
      exact (consed.represents_input hm).congr fun x => (wf.eval_input input x).symm
  leaves n hn noGate := by
    rw [firstImages, List.map_append, List.mem_append]
    rcases hkind : source.kind? n with _ | (value | _ | ⟨g, fanins⟩)
    · exact absurd hn (Nat.not_lt.2 (kind?_eq_none.1 hkind))
    · obtain ⟨hlt, -⟩ := List.getElem?_eq_some_iff.1 ((wf.constant_iff n value).1 hkind)
      exact .inl (List.mem_map_of_mem (List.mem_mapIdx.2 ⟨n, hlt, rfl⟩))
    · refine .inr ?_
      rw [List.map_fst_zip (by rw [List.length_map]; exact Nat.le_of_eq inputs.symm)]
      exact (wf.input_iff n).1 hkind
    · exact absurd ⟨g, fanins, hkind⟩ noGate
  covered n hn := absurd hn List.not_mem_nil

/-- A network that holds no more than constants and inputs. -/
structure Fresh (net : Network) : Prop where
  noGates : net.numGates = 0
  noOutputs : net.outputs = []

/-- Copying adds the outputs, and no more gates than the outputs depend on. -/
theorem HashConsed.makes_copy (consed : net.HashConsed) (wf : source.WellFormed)
    (family : net.family = source.family) (inputs : net.numInputs = source.numInputs) :
    Makes net (copy source) fun net' _ => net'.inputs = net.inputs ∧
      net'.size ≤ net.size + {n | source.InOutputCone n ∧ source.IsGate n}.ncard ∧
      ∀ x, net'.outputValues x = net.outputValues x ++ source.outputValues x := by
  obtain ⟨seen, listed, ordered, hseen⟩ := wf.exists_topologicalOrder
  have inRange : ∀ n ∈ seen, n < source.size := fun n hn => wf.lt_size_of_inOutputCone ((hseen n).1 hn)
  unfold copy
  rw [listed, Edit.lift_ok_fault, pure_bind]
  refine .get_bind ?_
  have start := consed.copies_firstImages wf family inputs
  refine Makes.bind (start.adds_copyNodes consed wf ordered inRange)
    fun net₁ images consed₁ grows₁ ⟨inputs₁, outputs₁, copies₁, size₁⟩ => ?_
  have known : ∀ s ∈ source.outputs, source.Typed s ∧ s.node ∈ images.map Prod.fst := fun s hs =>
    ⟨wf.outputs s hs, copies₁.covered _ ((hseen _).2 ⟨s, hs, .refl⟩)⟩
  obtain ⟨u, net₂, run, consed₂, grows₂, inputs₂, size₂, values₂⟩ :=
    Copies.makes_outputs source.outputs consed₁ copies₁ known
  refine ⟨u, net₂, run, consed₂, grows₂, inputs₂.trans inputs₁, ?_, fun x => ?_⟩
  · simp only [hseen] at size₁
    exact size₂ ▸ size₁
  · have wf₀ := consed.toWellFormed
    have earlier : net₁.outputValues x = net.outputValues x := by
      rw [outputValues, outputs₁, grows₁.map_value_eq wf₀ consed₁.toWellFormed x wf₀.outputs]
      rfl
    rw [values₂, earlier]
    rfl

end Network

open Network

/-- A network of any reachable workspace, whatever became of its gates, is copied into a fresh network of
its family with as many inputs.  The outputs of the copy have the functions of the outputs, and it has at
most as many gates as there are in the cones of the outputs. -/
theorem Workspace.Reachable.copied {w w' : Workspace} (hw : w.Reachable) (hw' : w'.Reachable)
    {id id' : Nat} {source target : Network} (hsource : w.networks[id]? = some source)
    (htarget : w'.networks[id']? = some target) (family : target.family = source.family)
    (inputs : target.numInputs = source.numInputs) (fresh : target.Fresh) :
    ∃ made, (copy source).run target = .ok () made ∧ made.inputs = target.inputs ∧
      (∀ x, made.outputValues x = source.outputValues x) ∧
      made.numGates ≤ {n | source.InOutputCone n ∧ source.IsGate n}.ncard := by
  have wf : source.WellFormed := (hw.sound id source hsource).hashConsed.toWellFormed
  have consed : target.HashConsed := (hw'.sound id' target htarget).hashConsed
  obtain ⟨_, made, run, -, grows, sameInputs, size, values⟩ := consed.makes_copy wf family inputs
  refine ⟨made, run, sameInputs, fun x => ?_, ?_⟩
  · rw [values, outputValues, fresh.noOutputs]
    rfl
  · have noGates := fresh.noGates
    simp only [numGates, numInputs, sameInputs, grows.family] at noGates ⊢
    omega

section sample

open Workspace

/-- A fresh network with three inputs. -/
def freshActions : List Action :=
  let v := View.network 0
  [.make .mig, .call v .input, .call v .input, .call v .input]

theorem isSome_run?_freshActions : (Workspace.empty.run? freshActions).isSome = true := by
  decide +kernel

def freshSample : Workspace := (Workspace.empty.run? freshActions).get isSome_run?_freshActions

def freshNetwork : Network := freshSample.networks[0]?.getD (.empty .mig)

theorem getElem?_freshSample : freshSample.networks[0]? = some freshNetwork := by
  decide +kernel

/-- The inverted gate of the sample is made again in a fresh network. -/
theorem sample_copied : sample.Reachable ∧ sample.networks[0]? = some sampleNetwork ∧
    freshSample.Reachable ∧ freshSample.networks[0]? = some freshNetwork ∧
    freshNetwork.family = sampleNetwork.family ∧ freshNetwork.numInputs = sampleNetwork.numInputs ∧
    freshNetwork.Fresh ∧ ∃ made, (copy sampleNetwork).run freshNetwork = .ok () made ∧
      made.inputs = freshNetwork.inputs ∧
      (∀ x, made.outputValues x = sampleNetwork.outputValues x) ∧
      made.numGates ≤ {n | sampleNetwork.InOutputCone n ∧ sampleNetwork.IsGate n}.ncard := by
  have reachable : freshSample.Reachable := .of_run? .empty (Option.some_get isSome_run?_freshActions).symm
  have family : freshNetwork.family = sampleNetwork.family := by decide +kernel
  have inputs : freshNetwork.numInputs = sampleNetwork.numInputs := by decide +kernel
  have fresh : freshNetwork.Fresh := ⟨by decide +kernel, by decide +kernel⟩
  exact ⟨reachable_sample, getElem?_sample, reachable, getElem?_freshSample, family, inputs, fresh,
    reachable_sample.copied reachable getElem?_sample getElem?_freshSample family inputs fresh⟩

end sample

end LogicNet
