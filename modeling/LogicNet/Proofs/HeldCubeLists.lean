import LogicNet.Proofs.DontCareShape
import LogicNet.Proofs.IndexedViews

/-! # Views with cube lists

The network of a cube list is made in one go, but it is one that calls lead to: inputs are made, signals are
combined, and one output is made.  The indexes that are brought up to date once are those that every single
call would have brought up to date.  So callers hold a view with a cube list like one that they put together
by calls.
-/

namespace LogicNet

open Network Workspace

namespace Network

/-- Whether a call makes an input, a signal for a function of other signals, or an output. -/
def Call.assembles : Call → Bool
  | input | output _ => true
  | c => c.combines

/-- Assembling calls lead from the first network to the second. -/
def Assembles : Network → Network → Prop :=
  Relation.ReflTransGen fun net net' =>
    ∃ c : Call, c.assembles = true ∧ c.Admissible net ∧ c.edit.run net = .ok () net'

/-- The edit does what some assembling calls do, and gives a result with a property. -/
def Assembling {α : Type} (net : Network) (e : Edit α) (post : Network → α → Prop) : Prop :=
  Makes net e fun net' a => Assembles net net' ∧ post net' a

namespace Assembling

variable {α β : Type} {net : Network} {e : Edit α} {f : α → Edit β} {post : Network → α → Prop}
  {post' : Network → β → Prop}

theorem pure (consed : net.HashConsed) {a : α} (h : post net a) :
    Assembling net (Pure.pure a : Edit α) post :=
  Makes.pure consed ⟨.refl, h⟩

theorem bind (h : Assembling net e post) (next : ∀ net' a, net'.HashConsed → Grows net net' → post net' a →
    Assembling net' (f a) post') : Assembling net (e >>= f) post' :=
  Makes.bind h fun net' a consed grows ⟨assembles, ha⟩ => by
    obtain ⟨b, net'', run, consed', grows', assembles', hb⟩ := next net' a consed grows ha
    exact ⟨b, net'', run, consed', grows', assembles.trans assembles', hb⟩

theorem call {c : Call} (edit : c.edit = discard e) (assembles : c.assembles = true)
    (admissible : c.Admissible net) (made : Makes net e post) : Assembling net e post := by
  obtain ⟨a, net', run, consed, grows, ha⟩ := made
  have done : c.edit.run net = .ok () net' := by rw [edit, Edit.run_discard, run]
  exact ⟨a, net', run, consed, grows, .single ⟨c, assembles, admissible, done⟩, ha⟩

end Assembling

variable {net net' : Network} {inputs : List Signal} {s t : Signal}

theorem admissible_of_operands {c : Call} (operands : ∀ s ∈ c.operands, net.Operand s)
    (none : c.target? = none) : c.Admissible net :=
  ⟨operands, fun s hs => by rw [none] at hs; cases hs⟩

theorem Computes.operand {e : Edit Signal} {f : (Nat → Bool) → Bool} (h : Computes net e f) :
    Makes net e Operand := by
  obtain ⟨s, net', run, consed, grows, -, -, hs⟩ := h
  exact ⟨s, net', run, consed, grows, hs.operand⟩

namespace HashConsed

theorem assembling_createNot (consed : net.HashConsed) (hs : net.Operand s) :
    Assembling net (createNot s) Operand := by
  have admissible : (Call.not s).Admissible net :=
    admissible_of_operands (fun u hu => List.mem_singleton.1 hu ▸ hs) rfl
  exact .call rfl rfl admissible (consed.computes_createNot hs.represents).operand

theorem operands_pair (hs : net.Operand s) (ht : net.Operand t) : ∀ u ∈ [s, t], net.Operand u :=
  List.forall_mem_cons.2 ⟨hs, fun _ hu => List.mem_singleton.1 hu ▸ ht⟩

theorem assembling_createAnd (consed : net.HashConsed) (hs : net.Operand s) (ht : net.Operand t) :
    Assembling net (createAnd s t) Operand := by
  have admissible : (Call.and s t).Admissible net := admissible_of_operands (operands_pair hs ht) rfl
  exact .call rfl rfl admissible (consed.computes_createAnd hs.represents ht.represents).operand

theorem assembling_createOr (consed : net.HashConsed) (hs : net.Operand s) (ht : net.Operand t) :
    Assembling net (createOr s t) Operand := by
  have admissible : (Call.or s t).Admissible net := admissible_of_operands (operands_pair hs ht) rfl
  exact .call rfl rfl admissible (consed.computes_createOr hs.represents ht.represents).operand

theorem assembling_createOutput (consed : net.HashConsed) (hs : net.Operand s) :
    Assembling net (createOutput s) fun _ _ => True := by
  have admissible : (Call.output s).Admissible net :=
    admissible_of_operands (fun u hu => List.mem_singleton.1 hu ▸ hs) rfl
  obtain ⟨i, net', run, consed', grows, -⟩ := consed.makes_createOutput hs
  exact .call rfl rfl admissible ⟨i, net', run, consed', grows, trivial⟩

theorem assembling_createInput (consed : net.HashConsed) : Assembling net createInput Operand := by
  have admissible : Call.input.Admissible net := admissible_of_operands (fun _ hu => by cases hu) rfl
  obtain ⟨s, net', run, consed', grows, -, -, hs⟩ := consed.makes_createInput
  exact .call rfl rfl admissible ⟨s, net', run, consed', grows, hs.operand⟩

/-- Signals that may be used. -/
def Usable (net : Network) (signals : List Signal) : Prop := ∀ s ∈ signals, net.Operand s

theorem assembling_inputs (l : List Nat) : ∀ {net : Network}, net.HashConsed →
    Assembling net (l.mapM fun _ => createInput) Usable := by
  induction l with
  | nil => exact fun consed => .pure consed fun _ h => by cases h
  | cons _ rest ih =>
    intro net consed
    rw [List.mapM_cons]
    refine consed.assembling_createInput.bind fun net₁ s consed₁ _ hs => ?_
    refine (ih consed₁).bind fun net₂ signals consed₂ grows₂ others => .pure consed₂ ?_
    exact List.forall_mem_cons.2 ⟨grows₂.operand hs, others⟩

theorem assembling_createConjunct (consed : net.HashConsed) {term : Option Signal}
    (hterm : ∀ t ∈ term, net.Operand t) (hs : net.Operand s) (l : Option Bool) :
    Assembling net (createConjunct term (s, l)) fun net' term' => ∀ t ∈ term', net'.Operand t := by
  cases l with
  | none => exact .pure consed hterm
  | some positive =>
    have literal : Assembling net (if positive then Pure.pure s else createNot s) Operand := by
      cases positive with
      | true => exact .pure consed hs
      | false => exact consed.assembling_createNot hs
    rw [createConjunct_some]
    refine literal.bind fun net₁ l consed₁ grows₁ hl => ?_
    cases term with
    | none => exact .pure consed₁ fun t ht => Option.some.inj ht ▸ hl
    | some u =>
      have hu := grows₁.operand (hterm u rfl)
      refine (consed₁.assembling_createAnd hu hl).bind fun net₂ both consed₂ _ hboth => ?_
      exact .pure consed₂ fun t ht => Option.some.inj ht ▸ hboth

theorem assembling_conjuncts (literals : List (Signal × Option Bool)) :
    ∀ {net : Network} {term : Option Signal}, net.HashConsed → (∀ t ∈ term, net.Operand t) →
    (∀ l ∈ literals, net.Operand l.1) →
    Assembling net (literals.foldlM createConjunct term) fun net' term' => ∀ t ∈ term', net'.Operand t := by
  induction literals with
  | nil => exact fun consed hterm _ => .pure consed hterm
  | cons literal rest ih =>
    intro net term consed hterm usable
    obtain ⟨hs, others⟩ := List.forall_mem_cons.1 usable
    rw [List.foldlM_cons]
    refine (consed.assembling_createConjunct hterm hs literal.2).bind
      fun net₁ term₁ consed₁ grows₁ hterm₁ => ?_
    exact ih consed₁ hterm₁ fun l hl => grows₁.operand (others l hl)

theorem assembling_createTerm (consed : net.HashConsed) (usable : Usable net inputs) (cube : Cube) :
    Assembling net (createTerm inputs cube) Operand := by
  have literals : ∀ l ∈ inputs.zip cube, net.Operand l.1 := fun l hl => usable _ (List.of_mem_zip hl).1
  refine (assembling_conjuncts (inputs.zip cube) consed (fun _ h => by cases h) literals).bind
    fun net₁ term consed₁ _ hterm => ?_
  cases term with
  | some t => exact .pure consed₁ (hterm t rfl)
  | none => exact Assembling.pure consed₁ (consed₁.represents_constant true).operand

theorem assembling_cover (cubes : List Cube) : ∀ {net : Network} {cover : Signal}, net.HashConsed →
    Usable net inputs → net.Operand cover →
    Assembling net (cubes.foldlM (fun cover cube => do createOr cover (← createTerm inputs cube)) cover)
      Operand := by
  induction cubes with
  | nil => exact fun consed _ hcover => .pure consed hcover
  | cons cube rest ih =>
    intro net cover consed usable hcover
    have step : Assembling net (do createOr cover (← createTerm inputs cube)) Operand :=
      (consed.assembling_createTerm usable cube).bind fun net₁ term consed₁ grows₁ hterm =>
        consed₁.assembling_createOr (grows₁.operand hcover) hterm
    rw [List.foldlM_cons]
    refine step.bind fun net₁ cover₁ consed₁ grows₁ hcover₁ => ?_
    exact ih consed₁ (fun s hs => grows₁.operand (usable s hs)) hcover₁

/-- The network of a cover is made by calls. -/
theorem assembling_createCoverComplement (consed : net.HashConsed) (n : Nat) {cubes : List Cube}
    (nonempty : cubes ≠ []) : Assembling net (createCoverComplement n cubes) fun _ _ => True := by
  obtain ⟨cube, rest, rfl⟩ := List.exists_cons_of_ne_nil nonempty
  refine (assembling_inputs (List.range n) consed).bind fun net₁ inputs consed₁ _ usable => ?_
  refine (consed₁.assembling_createTerm usable cube).bind fun net₂ first consed₂ grows₂ hfirst => ?_
  refine (assembling_cover rest consed₂ (fun s hs => grows₂.operand (usable s hs)) hfirst).bind
    fun net₃ cover consed₃ _ hcover => ?_
  refine (consed₃.assembling_createNot hcover).bind fun net₄ output consed₄ _ houtput => ?_
  exact (consed₄.assembling_createOutput houtput).bind fun net₅ _ consed₅ _ _ => .pure consed₅ trivial

end HashConsed

end Network

/-- A change that leads to an index from another one, and leaves it as it is. -/
structure FanoutIndex.Settles (f : FanoutIndex → FanoutIndex) (index index' : FanoutIndex) : Prop where
  changes : f index = index'
  leaves : f index' = index'

section settling

variable {net net' : Network} {c : Call}

theorem FanoutIndex.settles_catchUp (wf : net.WellFormed) (wf' : net'.WellFormed)
    (steady : Steady net net') : Settles (·.catchUp net') (ofNetwork net) (ofNetwork net') :=
  ⟨catchUp_ofNetwork wf steady, catchUp_ofNetwork wf' (.refl net')⟩

/-- An assembling call keeps up an index of the network that it is made on. -/
theorem Network.Call.settles_maintain (assembles : c.assembles = true) (wf : net.WellFormed)
    (effect : c.Effect net net') :
    FanoutIndex.Settles (c.maintain · net') (.ofNetwork net) (.ofNetwork net') := by
  have wf' := effect.consed.toWellFormed
  cases c with
  | output s =>
    have same := FanoutIndex.ofNetwork_of_size_eq wf (effect.steady rfl) (effect.size rfl)
    exact ⟨same.symm, rfl⟩
  | input | not | and | or | nand | xor | maj =>
    exact ⟨maintain_ofNetwork rfl wf effect.steady, maintain_ofNetwork rfl wf' fun _ => .refl net'⟩
  | xor3 | table | clone | substitute | invert | setValue | setVisited | clearValues | clearVisited =>
    cases assembles

theorem Network.Call.substitutes_of_assembles (assembles : c.assembles = true) : c.substitutes = false := by
  cases c with
  | substitute => cases assembles
  | _ => rfl

end settling

namespace View

open FanoutIndex (Settles)

variable {v : View} {f g h : FanoutIndex → FanoutIndex} {indexes : Array FanoutIndex}
  {index index' index'' : FanoutIndex} {i : Nat}

/-- If the indexes of a view are all the same, a change that settles leads all of them to one index. -/
theorem getElem?_reindexed_of_mem (known : ∀ i ∈ v.indexIds, indexes[i]? = some index)
    (settles : Settles f index index') (hi : i ∈ v.indexIds) :
    (v.reindexed f indexes)[i]? = some index' := by
  have each : ∀ (ids : List Nat) (indexes : Array FanoutIndex),
      (∀ j ∈ ids, indexes[j]? = some index ∨ indexes[j]? = some index') →
      (i ∈ ids ∨ indexes[i]? = some index') →
      (ids.foldl (fun indexes id => indexes.modify id f) indexes)[i]? = some index' := by
    intro ids
    induction ids with
    | nil => exact fun _ _ found => found.resolve_left List.not_mem_nil
    | cons id rest ih =>
      intro indexes known found
      obtain ⟨first, others⟩ := List.forall_mem_cons.1 known
      have changed : (indexes.modify id f)[id]? = some index' := by
        rw [Array.getElem?_modify, if_pos rfl]
        rcases first with first | first
        · rw [first, Option.map_some, settles.changes]
        · rw [first, Option.map_some, settles.leaves]
      have kept {j : Nat} (ne : j ≠ id) : (indexes.modify id f)[j]? = indexes[j]? := by
        rw [Array.getElem?_modify, if_neg (Ne.symm ne)]
      rw [List.foldl_cons]
      refine ih _ (fun j hj => ?_) ?_
      · by_cases same : j = id
        · exact .inr (same ▸ changed)
        · exact kept same ▸ others j hj
      · by_cases same : i = id
        · exact .inr (same ▸ changed)
        · exact kept same ▸ found.imp_left fun hi => (List.mem_cons.1 hi).resolve_left same
  exact each v.indexIds indexes (fun j hj => .inl (known j hj)) (.inl hi)

/-- Two changes of all indexes of a view come to a third one that leads to the same index. -/
theorem reindexed_reindexed (known : ∀ i ∈ v.indexIds, indexes[i]? = some index)
    (first : Settles f index index') (second : Settles g index' index'') (both : Settles h index index'') :
    v.reindexed g (v.reindexed f indexes) = v.reindexed h indexes := by
  refine Array.ext_getElem? fun i => ?_
  by_cases hi : i ∈ v.indexIds
  · have known' : ∀ j ∈ v.indexIds, (v.reindexed f indexes)[j]? = some index' :=
      fun j hj => getElem?_reindexed_of_mem known first hj
    rw [getElem?_reindexed_of_mem known' second hi, getElem?_reindexed_of_mem known both hi]
  · simp only [getElem?_reindexed_of_not_mem hi]

end View

namespace Workspace

variable {w w' : Workspace} {v base : View} {net net' : Network}

/-- What callers hold in the first workspace they hold in the second. -/
def Keeps (w w' : Workspace) : Prop := ∀ u, w.Holds u → w'.Holds u

theorem Keeps.act {a : Action} (admissible : a.Admissible w) (run : a.run.run w = .ok () w') : Keeps w w' :=
  fun _ held => .act held admissible (.done run)

/-- The network of the view is this one, and so is that of each of its indexes. -/
structure Tracks (w : Workspace) (v : View) (net : Network) : Prop where
  network : w.networks[v.networkId]? = some net
  indexes : ∀ i ∈ v.indexIds, w.indexes[i]? = some (.ofNetwork net)

/-- The workspace after something is created through a view. -/
def created (w : Workspace) (v : View) (net' : Network) : Workspace where
  networks := w.networks.setIfInBounds v.networkId net'
  indexes := v.reindexed (·.catchUp net') w.indexes

theorem Tracks.created_self (tracks : w.Tracks v net) (wf : net.WellFormed) : w.created v net = w := by
  have settles := FanoutIndex.settles_catchUp wf wf (.refl net)
  have indexes : v.reindexed (·.catchUp net) w.indexes = w.indexes := by
    refine Array.ext_getElem? fun i => ?_
    by_cases hi : i ∈ v.indexIds
    · rw [View.getElem?_reindexed_of_mem tracks.indexes settles hi, tracks.indexes i hi]
    · rw [View.getElem?_reindexed_of_not_mem hi]
  rw [created, View.networks_set_self tracks.network, indexes]

/-- Assembling calls through a view do one by one what is created in one go. -/
theorem Tracks.keeps_created (tracks : w.Tracks v net) (consed : net.HashConsed)
    (assembles : Assembles net net') :
    Keeps w (w.created v net') ∧ net'.HashConsed ∧ Steady net net' := by
  have wf := consed.toWellFormed
  induction assembles with
  | refl =>
    rw [tracks.created_self wf]
    exact ⟨fun _ held => held, consed, .refl net⟩
  | @tail net₁ net₂ _ last ih =>
    obtain ⟨keeps, consed₁, steady₁⟩ := ih
    obtain ⟨c, assembles, admissible, run⟩ := last
    have wf₁ := consed₁.toWellFormed
    have effect := consed₁.ensures_edit admissible _ (.done run)
    have steady := steady₁.trans (effect.steady (Call.substitutes_of_assembles assembles))
    have wf₂ := effect.consed.toWellFormed
    have found : (w.created v net₁).networks[v.networkId]? = some net₁ :=
      View.networks_set tracks.network net₁
    have indexes : v.reindexed (c.maintain · net₂) (v.reindexed (·.catchUp net₁) w.indexes)
        = v.reindexed (·.catchUp net₂) w.indexes :=
      View.reindexed_reindexed tracks.indexes (FanoutIndex.settles_catchUp wf wf₁ steady₁)
        (Call.settles_maintain assembles wf₁ effect) (FanoutIndex.settles_catchUp wf wf₂ steady)
    have done : (Action.call v c).run.run (w.created v net₁) = .ok () (w.created v net₂) := by
      rw [Action.run, View.perform_run found run]
      simp only [created, Array.setIfInBounds_setIfInBounds, indexes]
    have admitted : (Action.call v c).Admissible (w.created v net₁) := by
      intro net hnet
      cases found.symm.trans hnet
      exact admissible
    exact ⟨fun u held => .act (keeps u held) admitted (.done done), effect.consed, steady⟩

/-- A new view without don't-care functions is held, and its indexes are those of its network. -/
theorem Holds.emptyLike (base : View) : ∀ {w w' : Workspace} {v : View}, w.Reachable →
    w.networks[base.networkId]? = some net → base.emptyLike.run w = .ok v w' →
    w'.Holds v ∧ Keeps w w' ∧ w'.Tracks v (.empty net.family) := by
  induction base with
  | network id =>
    intro w w' v hw hnet run
    have found : w.network id = .ok net := network_eq_ok.2 hnet
    have made : (View.ofFamily net.family).run w = .ok v w' := by
      rw [← run, View.emptyLike, Edit.run_get_bind, found]
      rfl
    refine ⟨.ofFamily hw made, Keeps.act (a := .make net.family) trivial ?_, ?_⟩
    · rw [Action.run, Edit.run_discard, made]
    · cases made
      exact ⟨Array.getElem?_push_size, fun i hi => by cases hi⟩
  | fanout base index ih =>
    intro w w' v hw hnet run
    obtain ⟨v₁, w₁, run₁, run₂⟩ := Edit.run_bind_eq_ok.1 run
    obtain ⟨held₁, keeps₁, tracks₁⟩ := ih hw hnet run₁
    have keeps₂ : Keeps w₁ w' := Keeps.act (a := .addFanout v₁) trivial (by
      rw [Action.run, Edit.run_discard, run₂])
    refine ⟨.addFanout held₁ run₂, fun u held => keeps₂ u (keeps₁ u held), ?_⟩
    cases (View.addFanout_run tracks₁.network).symm.trans run₂
    refine ⟨tracks₁.network, fun i hi => ?_⟩
    rcases List.mem_append.1 hi with hi | hi
    · have known := tracks₁.indexes i hi
      rw [Array.getElem?_push, if_neg (Nat.ne_of_lt (Array.getElem?_eq_some_iff.1 known).1), known]
    · rw [List.mem_singleton.1 hi, Array.getElem?_push_size]
  | dontCare base dontCares ih _ => exact ih

/-- A view with a cube list is held like one whose don't-care functions are made by calls. -/
theorem Holds.readDontCares {bytes : List UInt8} (held : w.Holds base)
    (run : (base.readDontCares bytes).run w = .ok v w') : w'.Holds v := by
  obtain ⟨net, w₁, current, afterCurrent⟩ := Edit.run_bind_eq_ok.1 run
  obtain ⟨hnet, rfl⟩ := View.run_current_eq_ok.1 current
  obtain ⟨cubes, w₂, read, afterRead⟩ := Edit.run_bind_eq_ok.1 afterCurrent
  obtain ⟨hcubes, rfl⟩ := Edit.run_lift_refusal_eq_ok.1 read
  obtain ⟨dontCares, w₃, like, afterLike⟩ := Edit.run_bind_eq_ok.1 afterRead
  obtain ⟨heldDontCares, keeps, tracks⟩ := Holds.emptyLike base held.reachable hnet like
  have consed := hashConsed_empty net.family
  obtain ⟨output, d, cover, -, -, assembles, -⟩ :=
    consed.assembling_createCoverComplement net.numInputs (Cube.readList_ne_nil hcubes)
  have keeps' := (tracks.keeps_created consed assembles).1
  rw [Edit.run_bind_ok (View.create_run_ok tracks.network cover)] at afterLike
  exact .withDontCares (keeps' _ (keeps _ held)) (keeps' _ heldDontCares) afterLike

theorem Holds.loadDontCares {file : Except InputFailure (List UInt8)} (held : w.Holds base)
    (run : (base.loadDontCares file).run w = .ok v w') : w'.Holds v := by
  cases file with
  | error cause => cases run
  | ok bytes => exact held.readDontCares run

end Workspace

end LogicNet
