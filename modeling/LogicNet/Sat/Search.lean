import LogicNet.Sat.Clause

/-! # Exhaustive search

A complete search for a satisfying assignment: clauses of one literal first, then both values of a
literal of the first clause.  `satisfies_of_exhaust` says that an answer is a model, and
`exhaust_isSome` that there is an answer whenever there is a model.
-/

namespace LogicNet.Sat

/-- What is left to satisfy once `l` is true. -/
def assume (l : Literal) (clauses : List Clause) : List Clause :=
  (clauses.filter (l ∉ ·)).map fun c => c.filter (· ≠ l.negate)

/-- Number of literals in all clauses. -/
def numLiterals (clauses : List Clause) : Nat := (clauses.map List.length).sum

/-- The clause to branch on: one with a single literal if there is any. -/
def branchClause? (clauses : List Clause) : Option Clause :=
  (clauses.find? (·.length == 1)).or clauses.head?

/-- Literals whose truth satisfies the clauses; `fuel` bounds the number of literals. -/
def search : Nat → List Clause → Option (List Literal)
  | 0, _ => none
  | fuel + 1, clauses =>
    match branchClause? clauses with
    | none => some []
    | some [] => none
    | some (l :: _) =>
      if clauses.any List.isEmpty then none
      else
        match search fuel (assume l clauses) with
        | some model => some (l :: model)
        | none => (search fuel (assume l.negate clauses)).map (l.negate :: ·)

/-- The assignment that makes the literals of a model true and all other variables false. -/
def assignmentOf (model : List Literal) : Nat → Bool := fun v => ⟨v, false⟩ ∈ model

/-- A model found by trying both values of every variable that matters. -/
def exhaust (clauses : List Clause) : Option (Nat → Bool) :=
  (search (numLiterals clauses + 1) clauses).map assignmentOf

theorem satisfies_assume {l : Literal} {clauses : List Clause} {a : Nat → Bool}
    (hl : l.eval a = true) : satisfies a (assume l clauses) = satisfies a clauses := by
  rw [Bool.eq_iff_iff]
  simp only [satisfies, assume, List.all_eq_true, List.any_eq_true, List.mem_map, List.mem_filter,
    decide_eq_true_eq]
  constructor
  · intro h c hc
    by_cases hlc : l ∈ c
    · exact ⟨l, hlc, hl⟩
    · obtain ⟨m, hm, hma⟩ := h _ ⟨c, ⟨hc, hlc⟩, rfl⟩
      exact ⟨m, (List.mem_filter.1 hm).1, hma⟩
  · rintro h _ ⟨c, ⟨hc, _⟩, rfl⟩
    obtain ⟨m, hm, hma⟩ := h c hc
    refine ⟨m, List.mem_filter.2 ⟨hm, ?_⟩, hma⟩
    rw [decide_eq_true_eq]
    rintro rfl
    simp [hl] at hma

/-- A variable is mentioned by some clause. -/
def Mentions (clauses : List Clause) (v : Nat) : Prop := ∃ c ∈ clauses, ∃ l ∈ c, l.var = v

theorem mentions_of_assume {l : Literal} {clauses : List Clause} {v : Nat}
    (h : Mentions (assume l clauses) v) : Mentions clauses v ∧ v ≠ l.var := by
  obtain ⟨_, hc, m, hm, rfl⟩ := h
  simp only [assume, List.mem_map, List.mem_filter, decide_eq_true_eq] at hc
  obtain ⟨c, ⟨hc, hlc⟩, rfl⟩ := hc
  obtain ⟨hmc, hne⟩ := List.mem_filter.1 hm
  refine ⟨⟨c, hc, m, hmc, rfl⟩, fun hv => ?_⟩
  obtain ⟨v, s⟩ := l
  obtain ⟨w, t⟩ := m
  obtain rfl : w = v := hv
  cases s <;> cases t <;> simp_all [Literal.negate]

theorem mem_of_branchClause? {clauses : List Clause} {c : Clause}
    (h : branchClause? clauses = some c) : c ∈ clauses := by
  unfold branchClause? at h
  rcases Option.or_eq_some_iff.1 h with h | ⟨_, h⟩
  · exact List.mem_of_find?_eq_some h
  · exact List.mem_of_mem_head? h

theorem eq_nil_of_branchClause? {clauses : List Clause} (h : branchClause? clauses = none) :
    clauses = [] := by
  unfold branchClause? at h
  simpa using (Option.or_eq_none_iff.1 h).2

/-- Whatever makes the literals of an answer true satisfies the clauses. -/
theorem satisfies_of_search {fuel : Nat} {clauses : List Clause} {model : List Literal}
    (h : search fuel clauses = some model) {a : Nat → Bool} (ha : ∀ l ∈ model, l.eval a = true) :
    satisfies a clauses = true := by
  fun_induction search fuel clauses generalizing model with
  | case1 | case3 | case4 => simp at h
  | case2 fuel clauses hc => simp [eq_nil_of_branchClause? hc, satisfies]
  | case5 fuel clauses l rest hc hne m hm ih =>
    obtain rfl := Option.some.inj h
    rw [List.forall_mem_cons] at ha
    rw [← satisfies_assume ha.1]
    exact ih hm ha.2
  | case6 fuel clauses l rest hc hne hm ih₁ ih₂ =>
    obtain ⟨m, hm', rfl⟩ := Option.map_eq_some_iff.1 h
    rw [List.forall_mem_cons] at ha
    rw [← satisfies_assume ha.1]
    exact ih₂ hm' ha.2

/-- The literals of an answer have different variables, all of them mentioned. -/
theorem vars_of_search {fuel : Nat} {clauses : List Clause} {model : List Literal}
    (h : search fuel clauses = some model) :
    model.Pairwise (fun l m => l.var ≠ m.var) ∧ ∀ l ∈ model, Mentions clauses l.var := by
  fun_induction search fuel clauses generalizing model with
  | case1 | case3 | case4 => simp at h
  | case2 fuel clauses hc => simp_all
  | case5 fuel clauses l rest hc hne m hm ih =>
    obtain rfl := Option.some.inj h
    have hmodel := ih hm
    have hmem := mem_of_branchClause? hc
    refine ⟨List.pairwise_cons.2 ⟨fun k hk => ?_, hmodel.1⟩, fun k hk => ?_⟩
    · exact Ne.symm (mentions_of_assume (hmodel.2 k hk)).2
    · rcases List.mem_cons.1 hk with rfl | hk
      · exact ⟨_, hmem, k, List.mem_cons_self, rfl⟩
      · exact (mentions_of_assume (hmodel.2 k hk)).1
  | case6 fuel clauses l rest hc hne hm ih₁ ih₂ =>
    obtain ⟨m, hm', rfl⟩ := Option.map_eq_some_iff.1 h
    have hmodel := ih₂ hm'
    have hmem := mem_of_branchClause? hc
    refine ⟨List.pairwise_cons.2 ⟨fun k hk => ?_, hmodel.1⟩, fun k hk => ?_⟩
    · exact Ne.symm (mentions_of_assume (hmodel.2 k hk)).2
    · rcases List.mem_cons.1 hk with rfl | hk
      · exact ⟨_, hmem, l, List.mem_cons_self, rfl⟩
      · exact (mentions_of_assume (hmodel.2 k hk)).1

/-- Literals with different variables do not contradict each other. -/
theorem eq_of_var_eq {model : List Literal} (h : model.Pairwise fun l m => l.var ≠ m.var)
    {l m : Literal} (hl : l ∈ model) (hm : m ∈ model) (hv : l.var = m.var) : l = m := by
  induction h with
  | nil => simp at hl
  | cons hhead _ ih =>
    rcases List.mem_cons.1 hl with hl | hl <;> rcases List.mem_cons.1 hm with hm | hm
    · rw [hl, hm]
    · exact absurd (hl ▸ hv) (hhead m hm)
    · exact absurd (hm ▸ hv.symm) (hhead l hl)
    · exact ih hl hm

theorem eval_assignmentOf {model : List Literal}
    (h : model.Pairwise fun l m => l.var ≠ m.var) :
    ∀ l ∈ model, l.eval (assignmentOf model) = true := by
  intro l hl
  obtain ⟨v, negated⟩ := l
  cases negated with
  | false => simpa [Literal.eval, assignmentOf] using hl
  | true =>
    suffices ⟨v, false⟩ ∉ model by simpa [Literal.eval, assignmentOf] using this
    exact fun hl' => by simpa using eq_of_var_eq h hl hl' rfl

theorem satisfies_of_exhaust {clauses : List Clause} {a : Nat → Bool}
    (h : exhaust clauses = some a) : satisfies a clauses = true := by
  obtain ⟨model, hmodel, rfl⟩ := Option.map_eq_some_iff.1 h
  exact satisfies_of_search hmodel (eval_assignmentOf (vars_of_search hmodel).1)

theorem numLiterals_cons (c : Clause) (cs : List Clause) :
    numLiterals (c :: cs) = c.length + numLiterals cs := by
  simp [numLiterals]

theorem assume_cons (l : Literal) (c : Clause) (cs : List Clause) :
    assume l (c :: cs)
      = if l ∈ c then assume l cs else c.filter (· ≠ l.negate) :: assume l cs := by
  by_cases h : l ∈ c <;> simp [assume, h]

theorem numLiterals_assume_le (l : Literal) (clauses : List Clause) :
    numLiterals (assume l clauses) ≤ numLiterals clauses := by
  induction clauses with
  | nil => exact Nat.le_refl _
  | cons c cs ih =>
    have := List.length_filter_le (fun m => decide (m ≠ l.negate)) c
    rw [assume_cons]
    split <;> simp only [numLiterals_cons] <;> omega

theorem numLiterals_assume_lt {l : Literal} {clauses : List Clause}
    (h : Mentions clauses l.var) : numLiterals (assume l clauses) < numLiterals clauses := by
  induction clauses with
  | nil =>
    obtain ⟨_, hc, _⟩ := h
    simp at hc
  | cons c cs ih =>
    have htail := numLiterals_assume_le l cs
    rw [assume_cons]
    split
    · have := List.length_pos_of_mem ‹l ∈ c›
      simp only [numLiterals_cons]
      omega
    · simp only [numLiterals_cons]
      by_cases hnc : l.negate ∈ c
      · have : (c.filter fun m => decide (m ≠ l.negate)).length < c.length :=
          List.length_filter_lt_length_iff_exists.2 ⟨_, hnc, by simp⟩
        omega
      · have hmentions : Mentions cs l.var := by
          obtain ⟨d, hd, m, hm, hv⟩ := h
          rcases List.mem_cons.1 hd with rfl | hd
          · exfalso
            obtain ⟨v, s⟩ := l
            obtain ⟨w, t⟩ := m
            obtain rfl : w = v := hv
            cases s <;> cases t <;> simp_all [Literal.negate]
          · exact ⟨d, hd, m, hm, hv⟩
        have := ih hmentions
        have := List.length_filter_le (fun m => decide (m ≠ l.negate)) c
        omega

/-- The search fails only where there is no model. -/
theorem search_isSome {fuel : Nat} {clauses : List Clause} {a : Nat → Bool}
    (hfuel : numLiterals clauses < fuel) (ha : satisfies a clauses = true) :
    (search fuel clauses).isSome := by
  fun_induction search fuel clauses with
  | case1 => omega
  | case2 => rfl
  | case3 fuel clauses hc =>
    have := List.all_eq_true.1 ha [] (mem_of_branchClause? hc)
    simp at this
  | case4 fuel clauses l rest hc hempty =>
    obtain ⟨c, hmem, hnil⟩ := List.any_eq_true.1 hempty
    have := List.all_eq_true.1 ha c hmem
    simp_all
  | case5 => rfl
  | case6 fuel clauses l rest hc hempty hm ih₁ ih₂ =>
    have hmentions : Mentions clauses l.var :=
      ⟨_, mem_of_branchClause? hc, l, List.mem_cons_self, rfl⟩
    cases hl : l.eval a with
    | true =>
      have := ih₁ (by have := numLiterals_assume_lt hmentions; omega)
        (by rwa [satisfies_assume hl])
      simp [hm] at this
    | false =>
      rw [Option.isSome_map]
      refine ih₂ ?_ (by rwa [satisfies_assume (by simp [hl])])
      have : numLiterals (assume l.negate clauses) < numLiterals clauses :=
        numLiterals_assume_lt hmentions
      omega

theorem exhaust_isSome {clauses : List Clause} {a : Nat → Bool}
    (ha : satisfies a clauses = true) : (exhaust clauses).isSome := by
  rw [exhaust, Option.isSome_map]
  exact search_isSome (Nat.lt_succ_self _) ha

end LogicNet.Sat
