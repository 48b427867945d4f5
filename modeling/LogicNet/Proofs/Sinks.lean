import LogicNet.Proofs.Edit
import LogicNet.Proofs.GateClauses
import LogicNet.Sat.Sink

/-! # What sinks take up

A lawful sink gives out variables that are not in use and keeps its clauses.  What an encoding adds to it
is a list of fresh variables and a list of clauses over variables in use.
-/

namespace LogicNet.Sat

/-- A sink whose new variables have not been in use. -/
class LawfulSink (σ : Type) [ClauseSink σ] where
  /-- The variable is in use. -/
  Allocated : σ → Nat → Prop
  clauses : σ → List Clause
  fresh_newVariable : ∀ s : σ, ¬ Allocated s (ClauseSink.newVariable s).1
  allocated_newVariable : ∀ (s : σ) v, Allocated (ClauseSink.newVariable s).2 v
    ↔ Allocated s v ∨ v = (ClauseSink.newVariable s).1
  clauses_newVariable : ∀ s : σ, clauses (ClauseSink.newVariable s).2 = clauses s
  allocated_addClause : ∀ (s : σ) c, (∀ l ∈ c, Allocated s l.var) →
    ∀ v, Allocated (ClauseSink.addClause s c) v ↔ Allocated s v
  clauses_addClause : ∀ (s : σ) c, clauses (ClauseSink.addClause s c) = clauses s ++ [c]

open LawfulSink (Allocated)

instance : LawfulSink Recorder where
  Allocated r v := v < r.numVars
  clauses r := r.clauses.toList
  fresh_newVariable r := Nat.lt_irrefl r.numVars
  allocated_newVariable r v := by
    change v < r.numVars + 1 ↔ v < r.numVars ∨ v = r.numVars
    omega
  clauses_newVariable _ := rfl
  allocated_addClause _ _ _ _ := Iff.rfl
  clauses_addClause r c := Array.toList_push

/-- A clause over variables in use leaves the number of variables as it is. -/
theorem foldl_max_var {n : Nat} {c : Clause} (h : ∀ l ∈ c, l.var < n) :
    c.foldl (fun n l => max n (l.var + 1)) n = n := by
  induction c with
  | nil => rfl
  | cons l rest ih =>
    obtain ⟨hl, hrest⟩ := List.forall_mem_cons.1 h
    rw [List.foldl_cons, Nat.max_eq_left hl, ih hrest]

instance : LawfulSink Formula where
  Allocated f v := v < f.numVars
  clauses f := f.clauses.toList
  fresh_newVariable f := Nat.lt_irrefl f.numVars
  allocated_newVariable f v := by
    change v < f.numVars + 1 ↔ v < f.numVars ∨ v = f.numVars
    omega
  clauses_newVariable _ := rfl
  allocated_addClause f c h v := by
    change v < c.foldl _ f.numVars ↔ v < f.numVars
    rw [foldl_max_var h]
  clauses_addClause f c := Array.toList_push

theorem satisfies_congr {a b : Nat → Bool} {clauses : List Clause}
    (h : ∀ c ∈ clauses, ∀ l ∈ c, a l.var = b l.var) : satisfies a clauses = satisfies b clauses := by
  induction clauses with
  | nil => rfl
  | cons c rest ih =>
    obtain ⟨hc, hrest⟩ := List.forall_mem_cons.1 h
    have same : c.any (·.eval a) = c.any (·.eval b) := by
      rw [Bool.eq_iff_iff, List.any_eq_true, List.any_eq_true]
      refine exists_congr fun l => and_congr_right fun hl => ?_
      rw [Literal.eval, Literal.eval, hc l hl]
    rw [satisfies_cons, satisfies_cons, same, ih hrest]

theorem values_congr {a b : Nat → Bool} {literals : List Literal}
    (h : ∀ l ∈ literals, a l.var = b l.var) : values a literals = values b literals := by
  refine List.map_congr_left fun l hl => ?_
  rw [Literal.eval, Literal.eval, h l hl]

@[simp] theorem eval_positive (v : Nat) (a : Nat → Bool) : (Literal.positive v).eval a = a v := by
  simp [Literal.eval, Literal.positive]

section

variable {σ : Type} [ClauseSink σ] [LawfulSink σ] {s s' s'' : σ} {fresh fresh' : List Nat}
  {emitted emitted' : List Clause} {a b : Nat → Bool}

/-- A sink takes up fresh variables and clauses. -/
structure Emits (s s' : σ) (fresh : List Nat) (emitted : List Clause) : Prop where
  clauses : LawfulSink.clauses s' = LawfulSink.clauses s ++ emitted
  allocated : ∀ v, Allocated s' v ↔ Allocated s v ∨ v ∈ fresh
  unused : ∀ v ∈ fresh, ¬ Allocated s v
  nodup : fresh.Nodup
  vars : ∀ c ∈ emitted, ∀ l ∈ c, Allocated s' l.var

/-- Two assignments of the variables in use that are the same. -/
def Agree (s : σ) (a b : Nat → Bool) : Prop := ∀ v, Allocated s v → a v = b v

/-- Every assignment of the variables in use can be extended so that the clauses hold. -/
def Extendable (s : σ) (clauses : List Clause) : Prop :=
  ∀ a, ∃ b, Agree s a b ∧ satisfies b clauses = true

theorem Agree.symm (h : Agree s a b) : Agree s b a := fun v hv => (h v hv).symm

theorem Agree.trans {c : Nat → Bool} (h : Agree s a b) (h' : Agree s b c) : Agree s a c :=
  fun v hv => (h v hv).trans (h' v hv)

theorem Agree.eval (h : Agree s a b) {l : Literal} (hl : Allocated s l.var) : l.eval a = l.eval b := by
  rw [Literal.eval, Literal.eval, h _ hl]

theorem Agree.values (h : Agree s a b) {literals : List Literal}
    (hl : ∀ l ∈ literals, Allocated s l.var) : Sat.values a literals = Sat.values b literals :=
  values_congr fun l hmem => h _ (hl l hmem)

namespace Emits

theorem refl (s : σ) : Emits s s [] [] :=
  ⟨by simp, by simp, by simp, List.nodup_nil, by simp⟩

theorem newVariable (s : σ) : Emits s (ClauseSink.newVariable s).2 [(ClauseSink.newVariable s).1] [] where
  clauses := by rw [LawfulSink.clauses_newVariable, List.append_nil]
  allocated v := by rw [LawfulSink.allocated_newVariable, List.mem_singleton]
  unused v hv := List.mem_singleton.1 hv ▸ LawfulSink.fresh_newVariable s
  nodup := List.nodup_singleton _
  vars := by simp

theorem addClause {c : Clause} (h : ∀ l ∈ c, Allocated s l.var) :
    Emits s (ClauseSink.addClause s c) [] [c] where
  clauses := LawfulSink.clauses_addClause s c
  allocated v := by simp [LawfulSink.allocated_addClause s c h]
  unused := by simp
  nodup := List.nodup_nil
  vars d hd l hl := by
    obtain rfl := List.mem_singleton.1 hd
    exact (LawfulSink.allocated_addClause s d h _).2 (h l hl)

theorem mono (h : Emits s s' fresh emitted) {v : Nat} (hv : Allocated s v) : Allocated s' v :=
  (h.allocated v).2 (.inl hv)

theorem trans (h : Emits s s' fresh emitted) (h' : Emits s' s'' fresh' emitted') :
    Emits s s'' (fresh ++ fresh') (emitted ++ emitted') where
  clauses := by rw [h'.clauses, h.clauses, List.append_assoc]
  allocated v := by rw [h'.allocated, h.allocated, List.mem_append, or_assoc]
  unused v hv := by
    rcases List.mem_append.1 hv with hv | hv
    · exact h.unused v hv
    · exact fun hs => h'.unused v hv (h.mono hs)
  nodup := by
    refine List.nodup_append.2 ⟨h.nodup, h'.nodup, ?_⟩
    rintro v hv _ hv' rfl
    exact h'.unused v hv' ((h.allocated v).2 (.inr hv))
  vars c hc l hl := by
    rcases List.mem_append.1 hc with hc | hc
    · exact h'.mono (h.vars c hc l hl)
    · exact h'.vars c hc l hl

theorem addClauses : ∀ {clauses : List Clause} {s : σ}, (∀ c ∈ clauses, ∀ l ∈ c, Allocated s l.var) →
    Emits s (clauses.foldl ClauseSink.addClause s) [] clauses := by
  intro clauses
  induction clauses with
  | nil => exact fun _ => refl _
  | cons c rest ih =>
    intro s h
    obtain ⟨hc, hrest⟩ := List.forall_mem_cons.1 h
    have first := addClause hc
    exact first.trans (ih fun d hd l hl => first.mono (hrest d hd l hl))

/-- Whether clauses hold depends on the variables in use. -/
theorem satisfies_congr (h : Emits s s' fresh emitted) (agree : Agree s' a b) :
    satisfies a emitted = satisfies b emitted :=
  Sat.satisfies_congr fun c hc l hl => agree _ (h.vars c hc l hl)

theorem agree_mono (h : Emits s s' fresh emitted) (agree : Agree s' a b) : Agree s a b :=
  fun v hv => agree v (h.mono hv)

theorem extendable_append (h : Emits s s' fresh emitted) (first : Extendable s emitted)
    (second : Extendable s' emitted') : Extendable s (emitted ++ emitted') := by
  intro a
  obtain ⟨b, agree, holds⟩ := first a
  obtain ⟨c, agree', holds'⟩ := second b
  refine ⟨c, agree.trans (h.agree_mono agree'), ?_⟩
  rw [satisfies_append, ← h.satisfies_congr agree', holds, holds', Bool.and_self]

theorem agree_of_fresh (h : Emits s s' fresh emitted) (agree : Agree s a b)
    (same : ∀ v ∈ fresh, a v = b v) : Agree s' a b :=
  fun v hv => ((h.allocated v).1 hv).elim (agree v) (same v)

end Emits

theorem extendable_nil (s : σ) : Extendable s [] := fun a => ⟨a, fun _ _ => rfl, rfl⟩

/-- Giving a fresh variable a value changes no variable in use. -/
theorem agree_update {v : Nat} (hv : ¬ Allocated s v) (a : Nat → Bool) (value : Bool) :
    Agree s (Function.update a v value) a := by
  intro u hu
  rw [Function.update_of_ne]
  rintro rfl
  exact hv hu

section Defines

variable {inputs : List Literal} {t : TruthTable} {clauses : List Clause}
  (defines : Defines clauses (.positive (ClauseSink.newVariable s).1) inputs t)
  (allocated : ∀ l ∈ inputs, Allocated s l.var)

include defines allocated

/-- A fresh variable and the clauses that define it over literals in use. -/
theorem Defines.emits : Emits s (clauses.foldl ClauseSink.addClause (ClauseSink.newVariable s).2)
    [(ClauseSink.newVariable s).1] clauses := by
  have first := Emits.newVariable s
  refine first.trans (Emits.addClauses fun c hc l hl => ?_)
  rcases defines.vars c hc l hl with heq | ⟨i, hi, heq⟩
  · exact (first.allocated _).2 (.inr (List.mem_singleton.2 heq))
  · exact heq ▸ first.mono (allocated i hi)

/-- Every assignment can be extended to a defined variable. -/
theorem Defines.extendable : Extendable s clauses := by
  intro a
  have agree := (agree_update (LawfulSink.fresh_newVariable s) a
    (t.bit (TruthTable.rowOf (values a inputs)))).symm
  refine ⟨_, agree, (defines.satisfies_iff _).2 ?_⟩
  rw [← agree.values allocated, eval_positive, Function.update_self]

end Defines

/-- Some fresh literals, all of them positive. -/
theorem exists_newLiterals (n : Nat) (s : σ) : ∃ vars s', (newLiterals n).run s
      = .ok (vars.map Literal.positive) s' ∧ Emits s s' vars [] ∧ vars.length = n := by
  have each : ∀ (l : List Nat) (s : σ), ∃ vars s',
      (l.mapM fun _ => (do return Literal.positive (← Sat.newVariable) : Encode σ Literal)).run s
        = .ok (vars.map Literal.positive) s' ∧ Emits s s' vars [] ∧ vars.length = l.length := by
    intro l
    induction l with
    | nil => exact fun s => ⟨[], s, rfl, .refl s, rfl⟩
    | cons _ rest ih =>
      intro s
      obtain ⟨vars, s', run, emits, length⟩ := ih (ClauseSink.newVariable s).2
      refine ⟨(ClauseSink.newVariable s).1 :: vars, s', ?_, (Emits.newVariable s).trans emits,
        by rw [List.length_cons, List.length_cons, length]⟩
      have first : (do return Literal.positive (← Sat.newVariable) : Encode σ Literal).run s
          = .ok (.positive (ClauseSink.newVariable s).1) (ClauseSink.newVariable s).2 := rfl
      rw [List.mapM_cons, Edit.run_bind_ok first, Edit.run_bind_ok run]
      rfl
  obtain ⟨vars, s', run, emits, length⟩ := each (List.range n) s
  exact ⟨vars, s', run, emits, length.trans List.length_range⟩

end

end LogicNet.Sat
