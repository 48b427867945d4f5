import LogicNet.Proofs.CoverFunctions

/-! # Refusals

Every check of an operation is made before its first change, so an operation that is refused leaves the
workspace as it was.  An operation may do what is never refused after its last check, and reads before it.
-/

namespace LogicNet

section laws

variable {σ α β : Type} {e : EStateM Failure σ α} {f : α → EStateM Failure σ β}

/-- A computation that leaves no trace if it is refused. -/
def Traceless (e : EStateM Failure σ α) : Prop :=
  ∀ s cause s', e.run s = .error (.refused cause) s' → s' = s

/-- A computation that is never refused. -/
def Accepting (e : EStateM Failure σ α) : Prop := ∀ s cause s', e.run s ≠ .error (.refused cause) s'

namespace Accepting

theorem traceless (h : Accepting e) : Traceless e := fun s cause s' run => absurd run (h s cause s')

theorem pure (a : α) : Accepting (Pure.pure a : EStateM Failure σ α) := fun _ _ _ run => by cases run

theorem set (s : σ) : Accepting (MonadStateOf.set s : EStateM Failure σ PUnit) :=
  fun _ _ _ run => by cases run

theorem modify (g : σ → σ) : Accepting (modify g : EStateM Failure σ PUnit) := fun _ _ _ run => by cases run

theorem lift (x : Except Fault α) : Accepting (liftM x : EStateM Failure σ α) := by
  intro s cause s' run
  cases x <;> cases run

theorem bind (first : Accepting e) (next : ∀ a, Accepting (f a)) : Accepting (e >>= f) := by
  intro s cause s' run
  rw [Edit.run_bind] at run
  split at run
  · exact next _ _ _ _ run
  · next failure s₁ fails =>
    cases run
    exact first _ _ _ fails

theorem get_bind {f : σ → EStateM Failure σ β} (next : ∀ s, Accepting (f s)) : Accepting (get >>= f) :=
  fun s cause s' run => next s s cause s' run

theorem mapM {γ : Type} {g : γ → EStateM Failure σ α} (each : ∀ c, Accepting (g c)) (l : List γ) :
    Accepting (l.mapM g) := by
  induction l with
  | nil => exact .pure []
  | cons c rest ih =>
    rw [List.mapM_cons]
    exact .bind (each c) fun _ => .bind ih fun _ => .pure _

theorem foldlM {γ : Type} {g : α → γ → EStateM Failure σ α} (each : ∀ a c, Accepting (g a c)) (l : List γ) :
    ∀ a, Accepting (l.foldlM g a) := by
  induction l with
  | nil => exact .pure
  | cons c rest ih => exact fun a => .bind (each a c) ih

end Accepting

namespace Traceless

theorem pure (a : α) : Traceless (Pure.pure a : EStateM Failure σ α) := (Accepting.pure a).traceless

theorem refuse (cause : NetworkError) : Traceless (throw (.refused cause) : EStateM Failure σ α) :=
  fun _ _ _ run => by cases run; rfl

/-- What comes after the last check is never refused. -/
theorem bind (first : Traceless e) (next : ∀ a, Accepting (f a)) : Traceless (e >>= f) := by
  intro s cause s' run
  rw [Edit.run_bind] at run
  split at run
  · exact absurd run (next _ _ _ _)
  · next failure s₁ fails =>
    cases run
    exact first _ _ _ fails

theorem get_bind {f : σ → EStateM Failure σ β} (next : ∀ s, Traceless (f s)) : Traceless (get >>= f) :=
  fun s cause s' run => next s s cause s' run

theorem fault_bind {x : Except Fault α} (next : ∀ a, Traceless (f a)) :
    Traceless ((liftM x : EStateM Failure σ α) >>= f) := by
  intro s cause s' run
  cases x with
  | ok a => exact next a s cause s' run
  | error fault => cases run

theorem refusal_bind {x : Except NetworkError α} (next : ∀ a, x = .ok a → Traceless (f a)) :
    Traceless ((liftM x : EStateM Failure σ α) >>= f) := by
  intro s cause s' run
  cases x with
  | ok a => exact next a rfl s cause s' run
  | error refusal =>
    cases run
    rfl

theorem lift (x : Except Failure α) : Traceless (liftM x : EStateM Failure σ α) := by
  intro s cause s' run
  cases x <;> cases run
  rfl

theorem discard (h : Traceless e) : Traceless (discard e) := by
  intro s cause s' run
  rw [Edit.run_discard] at run
  split at run
  · cases run
  · next failure s₁ fails =>
    cases run
    exact h _ _ _ fails

theorem requireFamily_bind {family : Family} {f : Unit → Edit β} (next : Traceless (f ())) :
    Traceless (Network.requireFamily family >>= f) := by
  intro net cause net' run
  by_cases h : net.family = family
  · rw [Edit.run_bind_ok (Edit.run_requireFamily h)] at run
    exact next net cause net' run
  · rw [Edit.run_bind_error (Edit.run_requireFamily_of_ne h)] at run
    cases run

end Traceless

end laws

namespace Network

variable {inputs : List Signal}

theorem traceless_substitute (old : Nat) (new : Signal) : Traceless (substitute old new) :=
  .get_bind fun _ => .refusal_bind fun _ _ => .fault_bind fun net => (Accepting.set net).traceless

theorem traceless_invertGate (n : Nat) : Traceless (invertGate n) :=
  .requireFamily_bind (.get_bind fun _ => .refusal_bind fun _ _ => .fault_bind fun net =>
    (Accepting.set net).traceless)

theorem accepting_hashCons (g : GateFunction) (fanins : List Signal) : Accepting (hashCons g fanins) := by
  refine .get_bind fun net => .bind (.lift _) fun c => ?_
  cases c with
  | trivial s => exact .pure s
  | gate key flip => exact .bind (.lift _) fun _ => .bind (.set _) fun _ => .pure _

theorem accepting_internFunction (t : TruthTable) : Accepting (internFunction t) :=
  .get_bind fun _ => .bind (.set _) fun _ => .pure _

theorem accepting_wordGate (word : BitVec 64) (operands : List Signal) :
    Accepting (wordGate word operands) :=
  .bind (accepting_internFunction _) fun _ => accepting_hashCons _ _

theorem accepting_createNot (a : Signal) : Accepting (createNot a) := by
  refine .get_bind fun net => ?_
  cases net.family with
  | klut => exact accepting_hashCons _ _
  | _ => exact .pure _

theorem accepting_createAnd (a b : Signal) : Accepting (createAnd a b) := by
  refine .get_bind fun net => ?_
  cases net.family <;> exact accepting_hashCons _ _

theorem accepting_createOr (a b : Signal) : Accepting (createOr a b) := by
  refine .get_bind fun net => ?_
  cases net.family with
  | aig => exact .bind (accepting_hashCons _ _) fun _ => .pure _
  | mig => exact accepting_hashCons _ _
  | klut => exact accepting_wordGate _ _

theorem accepting_createInput : Accepting createInput := .get_bind fun _ => .bind (.set _) fun _ => .pure _

theorem accepting_createOutput (s : Signal) : Accepting (createOutput s) :=
  .get_bind fun _ => .bind (.lift _) fun _ => .bind (.set _) fun _ => .pure _

theorem traceless_createTable (nodes : List Nat) (t : TruthTable) : Traceless (createTable nodes t) := by
  refine .requireFamily_bind (.get_bind fun net => .refusal_bind fun _ _ => ?_)
  split
  · exact .pure _
  · exact (Accepting.bind (accepting_internFunction t) fun _ => accepting_hashCons _ _).traceless

theorem traceless_cloneGate (source : Network) (n : Nat) (fanins : List Signal) :
    Traceless (cloneGate source n fanins) := by
  refine .refusal_bind fun slots _ => ?_
  by_cases length : slots.length = fanins.length
  · simp only [length, ne_eq, not_true_eq_false, if_false]
    refine .get_bind fun net => ?_
    cases net.family with
    | klut => exact .fault_bind fun t => traceless_createTable _ t
    | _ => exact (accepting_hashCons _ _).traceless
  · simp only [length, ne_eq, not_false_eq_true, if_true]
    exact .refuse _

theorem accepting_createConjunct (term : Option Signal) (literal : Signal × Option Bool) :
    Accepting (createConjunct term literal) := by
  obtain ⟨s, l⟩ := literal
  cases l with
  | none => exact .pure term
  | some positive =>
    have first : Accepting (if positive then Pure.pure s else createNot s) := by
      cases positive with
      | true => exact .pure s
      | false => exact accepting_createNot s
    rw [createConjunct_some]
    refine .bind first fun l => ?_
    cases term with
    | none => exact .pure _
    | some t => exact .bind (accepting_createAnd t l) fun _ => .pure _

theorem accepting_createTerm (inputs : List Signal) (cube : Cube) : Accepting (createTerm inputs cube) := by
  refine .bind (.foldlM accepting_createConjunct _ _) fun term => ?_
  cases term with
  | some t => exact .pure t
  | none => exact .get_bind fun net => .pure _

/-- A cover without cubes is refused before an input is made. -/
theorem traceless_createCoverComplement (numInputs : Nat) (cubes : List Cube) :
    Traceless (createCoverComplement numInputs cubes) := by
  cases cubes with
  | nil => exact .refuse .emptyCover
  | cons cube rest =>
    have cover (inputs : List Signal) (first : Signal) : Accepting (rest.foldlM
        (fun cover cube => do createOr cover (← createTerm inputs cube)) first) := by
      refine .foldlM (fun cover cube => ?_) rest first
      exact .bind (accepting_createTerm inputs cube) fun term => accepting_createOr cover term
    exact Accepting.traceless <| .bind (.mapM (fun _ => accepting_createInput) _) fun inputs =>
      .bind (accepting_createTerm inputs cube) fun first => .bind (cover inputs first) fun cover =>
      .bind (accepting_createNot cover) fun output => .bind (accepting_createOutput output) fun _ => .pure _

end Network

namespace View

open Workspace

variable {α : Type} {e : Edit α} {w w' : Workspace} {v base : View} {net : Network} {bytes : List UInt8}

theorem accepting_current (v : View) : Accepting v.current := .get_bind fun _ => .lift _

theorem accepting_updateIndexes (v : View) (f : FanoutIndex → Network → FanoutIndex) :
    Accepting (v.updateIndexes f) :=
  .bind (accepting_current v) fun _ => .modify _

/-- Where an edit leaves no trace in a network, it leaves none in the workspace. -/
theorem traceless_edit (v : View) (h : Traceless e) : Traceless (v.edit e) := by
  intro w cause w' run
  cases hnet : w.networks[v.networkId]? with
  | none =>
    rw [edit_run_none hnet] at run
    cases run
  | some net =>
    cases hrun : e.run net with
    | ok a net' =>
      rw [edit_run hnet hrun] at run
      cases run
    | error failure net' =>
      rw [edit_run_error hnet hrun] at run
      cases run
      rw [h net cause net' hrun, networks_set_self hnet]

theorem traceless_create (v : View) (h : Traceless e) : Traceless (v.create e) :=
  .bind (traceless_edit v h) fun _ => .bind (accepting_updateIndexes v _) fun _ => .pure _

theorem traceless_substitute (v : View) (old : Nat) (new : Signal) : Traceless (v.substitute old new) :=
  .bind (traceless_edit v (Network.traceless_substitute old new)) fun _ => accepting_updateIndexes v _

/-- What is read before a check does not count. -/
theorem traceless_current_bind (v : View) {f : Network → Session α} (next : ∀ net, Traceless (f net)) :
    Traceless (v.current >>= f) := by
  unfold current
  rw [bind_assoc]
  exact .get_bind fun _ => .fault_bind next

theorem traceless_cloneGate (v source : View) (n : Nat) (fanins : List Signal) :
    Traceless (v.cloneGate source n fanins) :=
  traceless_current_bind source fun net => traceless_create v (Network.traceless_cloneGate net n fanins)

theorem traceless_withDontCares (base dontCares : View) : Traceless (base.withDontCares dontCares) := by
  refine traceless_current_bind base fun net => traceless_current_bind dontCares fun d => ?_
  by_cases inputs : d.numInputs = net.numInputs
  · by_cases outputs : d.numOutputs = 1
    · simp only [inputs, outputs, ne_eq, not_true_eq_false, if_false]
      exact .pure _
    · simp only [inputs, outputs, ne_eq, not_true_eq_false, not_false_eq_true, if_false, if_true]
      exact .refuse _
  · simp only [inputs, ne_eq, not_false_eq_true, if_true]
    exact .refuse _

/-- A cube list that can be read is never refused, and the others are before a network is made. -/
theorem traceless_readDontCares (base : View) (bytes : List UInt8) :
    Traceless (base.readDontCares bytes) := by
  intro w cause w' run
  cases hnet : w.networks[base.networkId]? with
  | none =>
    rw [readDontCares, Edit.run_bind_error (current_fails hnet)] at run
    cases run
  | some net =>
    cases read : Cube.readList net.numInputs bytes with
    | ok cubes =>
      obtain ⟨dontCares, w₁, d, ok, -⟩ := readDontCares_run hnet read
      cases ok.symm.trans run
    | error refusal =>
      cases (readDontCares_run_error hnet read).symm.trans run
      rfl

theorem traceless_loadDontCares (base : View) (file : Except InputFailure (List UInt8)) :
    Traceless (base.loadDontCares file) := by
  cases file with
  | error cause => exact .refuse _
  | ok bytes => exact traceless_readDontCares base bytes

end View

namespace Network

variable {net : Network} {n old : Nat} {new : Signal}

/-- The node is there and is dead. -/
def Dead (net : Network) (n : Nat) : Prop := ∃ nd, net.nodes[n]? = some nd ∧ nd.dead = true

theorem isLive_eq_false_iff : net.isLive n = false ↔ net.size ≤ n ∨ net.Dead n := by
  unfold isLive Dead size
  rw [← Array.getElem?_eq_none_iff]
  cases net.nodes[n]? with
  | none => simp
  | some nd => simp

/-- Why a node cannot be substituted by a signal. -/
inductive Unsubstitutable (net : Network) (old : Nat) (new : Signal) : Prop
  | oldOutOfRange (h : net.size ≤ old)
  | newOutOfRange (h : net.size ≤ new.node)
  | same (h : old = new.node)
  | constant {value : Bool} (h : net.kind? old = some (.constant value))
  | oldDead (h : net.Dead old)
  | newDead (h : net.Dead new.node)

theorem unsubstitutable_iff : net.Unsubstitutable old new ↔ ¬ net.Substitutable old new := by
  constructor
  · intro reason able
    have live (n : Nat) (h : net.isLive n = true) : ¬ (net.size ≤ n ∨ net.Dead n) := by
      rw [← isLive_eq_false_iff, h]
      exact Bool.noConfusion
    cases reason with
    | oldOutOfRange h => exact live old able.live (.inl h)
    | newOutOfRange h => exact live new.node able.liveTarget (.inl h)
    | same h => exact able.ne h.symm
    | constant h => exact able.nonconstant _ h
    | oldDead h => exact live old able.live (.inr h)
    | newDead h => exact live new.node able.liveTarget (.inr h)
  · intro unable
    by_contra none
    refine unable ⟨?_, ?_, fun h => none (.same h.symm), fun value h => none (.constant h)⟩
    · refine Bool.of_not_eq_false fun dead => ?_
      rcases isLive_eq_false_iff.1 dead with h | h
      · exact none (.oldOutOfRange h)
      · exact none (.oldDead h)
    · refine Bool.of_not_eq_false fun dead => ?_
      rcases isLive_eq_false_iff.1 dead with h | h
      · exact none (.newOutOfRange h)
      · exact none (.newDead h)

/-- The checks refuse a substitution exactly if there is a reason to. -/
theorem checkSubstitution_eq_error_iff :
    (∃ cause, net.checkSubstitution old new = .error cause) ↔ net.Unsubstitutable old new := by
  rw [unsubstitutable_iff, ← checkSubstitution_eq_ok]
  cases net.checkSubstitution old new <;> simp

end Network

namespace View

variable {w : Workspace} {v : View} {net : Network} {old : Nat} {new : Signal}

/-- A substitution is refused by its checks and by nothing else. -/
theorem substitute_refused_iff (hnet : w.networks[v.networkId]? = some net) :
    (∃ cause w', (v.substitute old new).run w = .error (.refused cause) w') ↔
      net.Unsubstitutable old new := by
  rw [← Network.checkSubstitution_eq_error_iff]
  cases checked : net.checkSubstitution old new with
  | error cause =>
    have refused : (Network.substitute old new).run net = .error (.refused cause) net := by
      rw [Network.substitute, Edit.run_get_bind, checked]
      rfl
    exact iff_of_true ⟨_, _, Edit.run_bind_error (edit_run_error hnet refused) _⟩ ⟨cause, rfl⟩
  | ok =>
    refine iff_of_false ?_ fun h => by cases h.choose_spec
    rintro ⟨cause, w', run⟩
    cases done : net.substituted old new with
    | ok net' =>
      have run' : (Network.substitute old new).run net = .ok () net' := by
        rw [Network.substitute, Edit.run_get_bind, checked, done]
        rfl
      rw [substitute, Edit.run_bind_ok (edit_run hnet run')] at run
      exact accepting_updateIndexes v _ _ _ _ run
    | error fault =>
      have run' : (Network.substitute old new).run net = .error (.fault fault) net := by
        rw [Network.substitute, Edit.run_get_bind, checked, done]
        rfl
      rw [substitute, Edit.run_bind_error (edit_run_error hnet run')] at run
      cases run

end View

/-- What a caller asks for and may be refused. -/
inductive Attempt where
  | substitute (v : View) (old : Nat) (new : Signal)
  | invert (v : View) (n : Nat)
  | table (v : View) (nodes : List Nat) (t : TruthTable)
  | clone (v source : View) (n : Nat) (fanins : List Signal)
  | compute {V : Type} [LaneValue V] (v : View) (n : Nat) (values : List V)
  | coverComplement (v : View) (numInputs : Nat) (cubes : List Cube)
  | withDontCares (base dontCares : View)
  | readDontCares (base : View) (bytes : List UInt8)
  | loadDontCares (base : View) (file : Except InputFailure (List UInt8))

namespace Attempt

open Network

/-- What is done for an attempt, apart from its result. -/
def run : Attempt → Session Unit
  | substitute v old new => v.substitute old new
  | invert v n => v.edit (invertGate n)
  | table v nodes t => discard (v.edit (createTable nodes t))
  | clone v source n fanins => discard (v.cloneGate source n fanins)
  | compute v n values => discard (do
    let net ← v.current
    liftM (net.compute n values) : Session _)
  | coverComplement v numInputs cubes => discard (v.create (createCoverComplement numInputs cubes))
  | withDontCares base dontCares => discard (base.withDontCares dontCares)
  | readDontCares base bytes => discard (base.readDontCares bytes)
  | loadDontCares base file => discard (base.loadDontCares file)

theorem traceless_run (a : Attempt) : Traceless a.run := by
  cases a with
  | substitute v old new => exact v.traceless_substitute old new
  | invert v n => exact v.traceless_edit (traceless_invertGate n)
  | table v nodes t => exact (v.traceless_edit (traceless_createTable nodes t)).discard
  | clone v source n fanins => exact (v.traceless_cloneGate source n fanins).discard
  | compute v n values => exact (v.traceless_current_bind fun net => .lift (net.compute n values)).discard
  | coverComplement v numInputs cubes =>
    exact (v.traceless_create (traceless_createCoverComplement numInputs cubes)).discard
  | withDontCares base dontCares => exact (base.traceless_withDontCares dontCares).discard
  | readDontCares base bytes => exact (base.traceless_readDontCares bytes).discard
  | loadDontCares base file => exact (base.traceless_loadDontCares file).discard

/-- Whatever is attempted in a workspace leaves no trace in its networks and indexes if it is refused.  A
substitution is refused exactly if one of its signals is out of range or dead, they are the same, or the one
to be replaced is constant. -/
theorem refused_without_trace (w : Workspace) :
    (∀ (a : Attempt) (cause : NetworkError) (w' : Workspace),
      a.run.run w = .error (.refused cause) w' → w' = w) ∧
    ∀ (v : View) (net : Network) (old : Nat) (new : Signal), w.networks[v.networkId]? = some net →
      ((∃ cause w', (substitute v old new).run.run w = .error (.refused cause) w') ↔
        net.Unsubstitutable old new) :=
  ⟨fun a cause w' run => a.traceless_run w cause w' run,
    fun _ _ _ _ hnet => View.substitute_refused_iff hnet⟩

section sample

open Workspace

/-- The sample and an empty network of tables. -/
def sampleAttempted : Workspace := { sample with networks := sample.networks.push (.empty .klut) }

/-- One attempt of each sort that is refused in the sample. -/
def sampleAttempts : List Attempt :=
  let v := View.network 0
  [.substitute v 0 (.ofNode 4), .invert v 1, .table (.network 1) [9] (.word 1 1), .clone v v 1 [],
    .compute v 4 [true, false], .coverComplement v 3 [], .withDontCares v (.network 1), .readDontCares v [],
    .loadDontCares v (.error .noSuchFile)]

theorem sampleAttempts_refused : (∀ a ∈ sampleAttempts, ∃ cause,
      a.run.run sampleAttempted = .error (.refused cause) sampleAttempted) ∧
    sampleAttempted.networks[0]? = some sampleNetwork ∧ sampleNetwork.Unsubstitutable 0 (.ofNode 4) ∧
    ∃ cause w', (substitute (.network 0) 0 (.ofNode 4)).run.run sampleAttempted
      = .error (.refused cause) w' := by
  obtain ⟨traceless, refused_iff⟩ := refused_without_trace sampleAttempted
  have refused : ∀ a ∈ sampleAttempts, Edit.refuses a.run sampleAttempted = true :=
    List.all_eq_true.1 (by decide +kernel)
  have hnet : sampleAttempted.networks[0]? = some sampleNetwork := by decide +kernel
  have constant : sampleNetwork.kind? 0 = some (.constant false) := by decide +kernel
  have reason : sampleNetwork.Unsubstitutable 0 (.ofNode 4) := .constant constant
  refine ⟨fun a ha => ?_, hnet, reason, (refused_iff (.network 0) _ _ _ hnet).2 reason⟩
  obtain ⟨cause, w', run⟩ := Edit.exists_run_of_refuses (refused a ha)
  rw [traceless a cause w' run] at run
  exact ⟨cause, run⟩

end sample

end Attempt

end LogicNet
