import LogicNet.Network.Build

/-! # Running edits

An edit that begins with a step that succeeds goes on in the state that the step left.  Edits of
networks and sessions of workspaces are run alike; what either of them ensures is said of the state that
it leads to unless it faults.
-/

namespace LogicNet

namespace Edit

variable {σ α β : Type} {s s' : σ}

@[simp] theorem lift_ok_fault (a : α) :
    (liftM (.ok a : Except Fault α) : EStateM Failure σ α) = pure a := rfl

@[simp] theorem lift_ok_refusal (a : α) :
    (liftM (.ok a : Except NetworkError α) : EStateM Failure σ α) = pure a := rfl

@[simp] theorem lift_ok_failure (a : α) :
    (liftM (.ok a : Except Failure α) : EStateM Failure σ α) = pure a := rfl

theorem run_bind (x : EStateM Failure σ α) (f : α → EStateM Failure σ β) :
    (x >>= f).run s = match x.run s with
      | .ok a s' => (f a).run s'
      | .error e s' => .error e s' := by
  simp only [EStateM.run, bind, EStateM.bind]
  cases x s <;> rfl

theorem run_bind_ok {x : EStateM Failure σ α} {a : α} (h : x.run s = .ok a s')
    (f : α → EStateM Failure σ β) : (x >>= f).run s = (f a).run s' := by
  rw [run_bind, h]

theorem run_bind_eq_ok {x : EStateM Failure σ α} {f : α → EStateM Failure σ β} {b : β} {s'' : σ} :
    (x >>= f).run s = .ok b s'' ↔ ∃ a s', x.run s = .ok a s' ∧ (f a).run s' = .ok b s'' := by
  rw [run_bind]
  cases x.run s with
  | ok a s' =>
    constructor
    · exact fun h => ⟨a, s', rfl, h⟩
    · rintro ⟨_, _, ⟨⟩, h⟩
      exact h
  | error e s' => exact iff_of_false (fun h => by cases h) fun ⟨_, _, h, _⟩ => by cases h

theorem run_lift_refusal_eq_ok {x : Except NetworkError α} {a : α} :
    (liftM x : EStateM Failure σ α).run s = .ok a s' ↔ x = .ok a ∧ s = s' := by
  cases x with
  | ok b =>
    constructor
    · rintro ⟨⟩
      exact ⟨rfl, rfl⟩
    · rintro ⟨⟨⟩, rfl⟩
      rfl
  | error cause => exact iff_of_false (fun h => by cases h) fun h => by cases h.1

theorem run_bind_error {x : EStateM Failure σ α} {e : Failure} (h : x.run s = .error e s')
    (f : α → EStateM Failure σ β) : (x >>= f).run s = .error e s' := by
  rw [run_bind, h]

theorem run_discard (x : EStateM Failure σ α) : (discard x).run s = match x.run s with
    | .ok _ s' => .ok () s'
    | .error e s' => .error e s' := by
  simp only [discard, Functor.discard, Functor.mapConst, EStateM.run, Function.comp, EStateM.map]
  cases x s <;> rfl

@[simp] theorem run_get_bind (f : σ → EStateM Failure σ β) : (get >>= f).run s = (f s).run s := rfl

/-- Whether a computation succeeds, in a state with a given property. -/
def endsWith (x : EStateM Failure σ α) (s : σ) (p : σ → Bool) : Bool :=
  match x.run s with
  | .ok _ s' => p s'
  | .error .. => false

theorem exists_run_of_endsWith {x : EStateM Failure σ α} {p : σ → Bool} (h : endsWith x s p = true) :
    ∃ a s', x.run s = .ok a s' ∧ p s' = true := by
  unfold endsWith at h
  split at h
  · next a s' run => exact ⟨a, s', run, h⟩
  · cases h

/-- Whether a computation is refused. -/
def refuses (x : EStateM Failure σ α) (s : σ) : Bool :=
  match x.run s with
  | .error (.refused _) _ => true
  | _ => false

theorem exists_run_of_refuses {x : EStateM Failure σ α} (h : refuses x s = true) :
    ∃ cause s', x.run s = .error (.refused cause) s' := by
  unfold refuses at h
  split at h
  · next cause s' run => exact ⟨cause, s', run⟩
  · cases h

theorem run_requireFamily {net : Network} {family : Family} (h : net.family = family) :
    (Network.requireFamily family).run net = .ok () net := by
  simp only [Network.requireFamily, run_get_bind, h, if_true]
  rfl

theorem run_requireFamily_of_ne {net : Network} {family : Family} (h : net.family ≠ family) :
    (Network.requireFamily family).run net = .error (.fault .notSupported) net := by
  simp only [Network.requireFamily, run_get_bind, h, if_false]
  rfl

end Edit

/-- Where a computation over a state leads if it is carried out or refused: it does not fault. -/
inductive Leads {σ α : Type} (e : EStateM Failure σ α) (s : σ) : σ → Prop
  | done {a : α} {s' : σ} (run : e.run s = .ok a s') : Leads e s s'
  | refused {cause : NetworkError} {s' : σ} (run : e.run s = .error (.refused cause) s') :
    Leads e s s'

/-- Every state that a computation leads to has a property. -/
def Ensures {σ α : Type} (P : σ → Prop) (s : σ) (e : EStateM Failure σ α) : Prop :=
  ∀ s', Leads e s s' → P s'

namespace Ensures

variable {σ α β : Type} {P : σ → Prop} {s s' : σ} {e : EStateM Failure σ α}
  {f : α → EStateM Failure σ β}

theorem of_ok {a : α} (run : e.run s = .ok a s') (h : P s') : Ensures P s e := by
  intro s'' leads
  cases leads with
  | done run' =>
    cases run.symm.trans run'
    exact h
  | refused run' => cases run.symm.trans run'

theorem of_refused {cause : NetworkError} (run : e.run s = .error (.refused cause) s')
    (h : P s') : Ensures P s e := by
  intro s'' leads
  cases leads with
  | done run' => cases run.symm.trans run'
  | refused run' =>
    cases run.symm.trans run'
    exact h

theorem of_fault {cause : Fault} (run : e.run s = .error (.fault cause) s') : Ensures P s e := by
  intro s'' leads
  cases leads with
  | done run' => cases run.symm.trans run'
  | refused run' => cases run.symm.trans run'

theorem mono {Q : σ → Prop} (h : Ensures P s e) (imp : ∀ {s'}, P s' → Q s') : Ensures Q s e :=
  fun s' leads => imp (h s' leads)

/-- What a computation ensures depends on its run only. -/
theorem of_run_eq {e' : EStateM Failure σ α} (run : e.run s = e'.run s') (h : Ensures P s' e') :
    Ensures P s e := by
  intro s'' leads
  cases leads with
  | done run' => exact h s'' (.done (run.symm.trans run'))
  | refused run' => exact h s'' (.refused (run.symm.trans run'))

theorem pure {a : α} (h : P s) : Ensures P s (Pure.pure a) := of_ok rfl h

theorem set (h : P s') : Ensures P s (MonadStateOf.set s') := of_ok rfl h

theorem refuse {cause : NetworkError} (h : P s) :
    Ensures P s (throw (.refused cause) : EStateM Failure σ α) := of_refused rfl h

theorem refuse_bind {cause : NetworkError} (h : P s) :
    Ensures P s ((throw (.refused cause) : EStateM Failure σ α) >>= f) := of_refused rfl h

theorem bind (first : Ensures P s e) (next : ∀ a s', P s' → Ensures P s' (f a)) :
    Ensures P s (e >>= f) := by
  cases hrun : e.run s with
  | ok a s' =>
    exact of_run_eq (Edit.run_bind_ok hrun f) (next a s' (first s' (.done hrun)))
  | error e s' =>
    cases e with
    | refused cause => exact of_refused (Edit.run_bind_error hrun f) (first s' (.refused hrun))
    | fault cause => exact of_fault (Edit.run_bind_error hrun f)

theorem get_bind {f : σ → EStateM Failure σ β} (h : Ensures P s (f s)) :
    Ensures P s (get >>= f) := by
  refine of_run_eq ?_ h
  rfl

theorem set_bind {f : PUnit → EStateM Failure σ β} (h : Ensures P s' (f ⟨⟩)) :
    Ensures P s (MonadStateOf.set s' >>= f) := by
  refine of_run_eq ?_ h
  rfl

theorem lift {x : Except Fault α} (h : P s) : Ensures P s (liftM x : EStateM Failure σ α) := by
  cases x with
  | ok a => exact of_ok rfl h
  | error cause => exact of_fault rfl

theorem fault_bind {x : Except Fault α} (h : ∀ a, x = .ok a → Ensures P s (f a)) :
    Ensures P s ((liftM x : EStateM Failure σ α) >>= f) := by
  cases x with
  | ok a => exact h a rfl
  | error cause => exact of_fault rfl

theorem refusal_bind {x : Except NetworkError α} (before : P s)
    (h : ∀ a, x = .ok a → Ensures P s (f a)) :
    Ensures P s ((liftM x : EStateM Failure σ α) >>= f) := by
  cases x with
  | ok a => exact h a rfl
  | error cause => exact of_refused rfl before

theorem discard (h : Ensures P s e) : Ensures P s (discard e) := by
  cases hrun : e.run s with
  | ok a s' => exact of_ok (by rw [Edit.run_discard, hrun]) (h s' (.done hrun))
  | error e s' =>
    cases e with
    | refused cause => exact of_refused (by rw [Edit.run_discard, hrun]) (h s' (.refused hrun))
    | fault cause => exact of_fault (by rw [Edit.run_discard, hrun])

theorem requireFamily_bind {P : Network → Prop} {net : Network} {family : Family}
    {f : Unit → Edit β} (h : net.family = family → Ensures P net (f ())) :
    Ensures P net (Network.requireFamily family >>= f) := by
  by_cases hfamily : net.family = family
  · exact of_run_eq (Edit.run_bind_ok (Edit.run_requireFamily hfamily) f) (h hfamily)
  · exact of_fault (Edit.run_bind_error (Edit.run_requireFamily_of_ne hfamily) f)

end Ensures

end LogicNet
