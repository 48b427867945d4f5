import LogicNet.Error
import Mathlib.Data.List.Forall2

/-! # Computations that may fail

Laws by which a computation is taken apart into its steps, and the invariant of a fold whose steps all
succeed.
-/

namespace LogicNet

/-- A map whose steps change nothing. -/
theorem mapM_eq_pure {m : Type → Type} [Monad m] [LawfulMonad m] {α β : Type} {f : α → m β} {g : α → β}
    {l : List α} (h : ∀ a ∈ l, f a = pure (g a)) : l.mapM f = pure (l.map g) := by
  induction l with
  | nil => rfl
  | cons a rest ih =>
    obtain ⟨first, others⟩ := List.forall_mem_cons.1 h
    rw [List.mapM_cons, first, pure_bind, ih others, pure_bind, List.map_cons]

section Except

variable {ε α β : Type}

@[simp] theorem ok_bind (a : α) (f : α → Except ε β) : (Except.ok a >>= f) = f a := rfl

@[simp] theorem error_bind (e : ε) (f : α → Except ε β) : (Except.error e >>= f) = .error e := rfl

@[simp] theorem throw_eq_error (e : ε) : (throw e : Except ε α) = .error e := rfl

@[simp] theorem pure_eq_ok (a : α) : (pure a : Except ε α) = .ok a := rfl

@[simp] theorem map_ok (f : α → β) (a : α) : f <$> (Except.ok a : Except ε α) = .ok (f a) := rfl

theorem bind_eq_ok {x : Except ε α} {f : α → Except ε β} {b : β} :
    (x >>= f) = .ok b ↔ ∃ a, x = .ok a ∧ f a = .ok b := by
  cases x with
  | error e => simp
  | ok a => simp

/-- A check of every member succeeds exactly if it does on each. -/
theorem forM_eq_ok {f : α → Except ε Unit} {l : List α} :
    l.forM f = .ok () ↔ ∀ a ∈ l, f a = .ok () := by
  induction l with
  | nil => exact iff_of_true rfl fun _ h => absurd h List.not_mem_nil
  | cons a rest ih =>
    change (f a >>= fun _ => rest.forM f) = .ok () ↔ _
    rw [bind_eq_ok, List.forall_mem_cons, ← ih]
    constructor
    · rintro ⟨⟨⟩, first, others⟩
      exact ⟨first, others⟩
    · rintro ⟨first, others⟩
      exact ⟨(), first, others⟩

/-- Otherwise it gives the first error. -/
theorem forM_eq_error {f : α → Except ε Unit} {a : α} {e : ε} {before after : List α}
    (earlier : ∀ b ∈ before, f b = .ok ()) (fails : f a = .error e) :
    (before ++ a :: after).forM f = .error e := by
  induction before with
  | nil => exact congrArg (· >>= fun _ => after.forM f) fails
  | cons b rest ih =>
    obtain ⟨first, others⟩ := List.forall_mem_cons.1 earlier
    exact (congrArg (· >>= fun _ => (rest ++ a :: after).forM f) first).trans (ih others)

/-- A map whose steps all succeed. -/
theorem mapM_eq_ok {f : α → Except ε β} {g : α → β} {l : List α} (h : ∀ a ∈ l, f a = .ok (g a)) :
    l.mapM f = .ok (l.map g) :=
  mapM_eq_pure h

/-- A map gives the results of its steps if each of them has one. -/
theorem mapM_eq_ok_iff {f : α → Except ε β} {l : List α} {l' : List β} :
    l.mapM f = .ok l' ↔ List.Forall₂ (fun a b => f a = .ok b) l l' := by
  induction l generalizing l' with
  | nil => cases l' <;> simp
  | cons a rest ih =>
    simp only [List.mapM_cons, bind_eq_ok, List.forall₂_cons_left_iff, ih, pure_eq_ok, Except.ok.injEq]
    constructor
    · rintro ⟨b, first, rest', others, rfl⟩
      exact ⟨b, rest', first, others, rfl⟩
    · rintro ⟨b, rest', first, others, rfl⟩
      exact ⟨b, first, rest', others, rfl⟩

/-- Otherwise it gives the first error. -/
theorem mapM_eq_error_iff {f : α → Except ε β} {l : List α} {e : ε} :
    l.mapM f = .error e ↔ ∃ (i : Nat) (a : α), l[i]? = some a ∧ f a = .error e ∧
      ∀ j < i, ∀ b, l[j]? = some b → ∃ c, f b = .ok c := by
  induction l with
  | nil => simp
  | cons a rest ih =>
    rw [List.mapM_cons]
    cases first : f a with
    | error e' =>
      constructor
      · rintro ⟨⟩
        exact ⟨0, a, rfl, first, fun j hj => absurd hj (Nat.not_lt_zero j)⟩
      · rintro ⟨i, b, hb, fails, earlier⟩
        cases i with
        | zero =>
          cases hb
          rw [first] at fails
          cases fails
          rfl
        | succ i =>
          obtain ⟨c, hc⟩ := earlier 0 (Nat.succ_pos i) a rfl
          cases first.symm.trans hc
    | ok c =>
      have fails : (do let bs ← rest.mapM f; pure (c :: bs)) = .error e ↔ rest.mapM f = .error e := by
        cases rest.mapM f <;> simp
      rw [ok_bind, fails, ih]
      constructor
      · rintro ⟨i, b, hb, fails, earlier⟩
        refine ⟨i + 1, b, hb, fails, fun j hj d hd => ?_⟩
        cases j with
        | zero =>
          cases hd
          exact ⟨c, first⟩
        | succ j => exact earlier j (Nat.lt_of_succ_lt_succ hj) d hd
      · rintro ⟨i, b, hb, fails, earlier⟩
        cases i with
        | zero =>
          cases hb
          cases first.symm.trans fails
        | succ i => exact ⟨i, b, hb, fails, fun j hj d hd => earlier (j + 1) (Nat.succ_lt_succ hj) d hd⟩

/-- A map whose steps all succeed and relate members to their images. -/
theorem exists_mapM_eq_ok {f : α → Except ε β} {R : α → β → Prop} {l : List α}
    (h : ∀ a ∈ l, ∃ b, f a = .ok b ∧ R a b) : ∃ l', l.mapM f = .ok l' ∧ List.Forall₂ R l l' := by
  induction l with
  | nil => exact ⟨[], rfl, .nil⟩
  | cons a rest ih =>
    obtain ⟨⟨b, first, hb⟩, others⟩ := List.forall_mem_cons.1 h
    obtain ⟨rest', run, hrest⟩ := ih others
    exact ⟨b :: rest', by rw [List.mapM_cons, first, ok_bind, run]; rfl, .cons hb hrest⟩

/-- A fold that keeps an invariant at every step succeeds and establishes it. -/
theorem foldlM_ok {f : β → α → Except ε β} (Inv : List α → β → Prop)
    (step : ∀ a rest b, Inv (a :: rest) b → ∃ b', f b a = .ok b' ∧ Inv rest b') :
    ∀ (l : List α) (b : β), Inv l b → ∃ b', l.foldlM f b = .ok b' ∧ Inv [] b' := by
  intro l
  induction l with
  | nil =>
    intro b h
    exact ⟨b, rfl, h⟩
  | cons a rest ih =>
    intro b h
    obtain ⟨b', ok, h'⟩ := step a rest b h
    obtain ⟨b'', ok', h''⟩ := ih b' h'
    exact ⟨b'', by rw [List.foldlM_cons, ok, ok_bind, ok'], h''⟩

end Except

section Failure

variable {α : Type}

@[simp] theorem lift_ok_fault (a : α) :
    (liftM (.ok a : Except Fault α) : Except Failure α) = .ok a := rfl

@[simp] theorem lift_ok_refusal (a : α) :
    (liftM (.ok a : Except NetworkError α) : Except Failure α) = .ok a := rfl

@[simp] theorem lift_error_refusal (cause : NetworkError) :
    (liftM (.error cause : Except NetworkError α) : Except Failure α) = .error (.refused cause) := rfl

end Failure

end LogicNet
