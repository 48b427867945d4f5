import LogicNet.FunctionCache
import LogicNet.Proofs.Computation
import Mathlib.Data.List.Nodup

/-! # Invariants of the function cache

The entries are pairwise different tables in normal form, each with its symmetry.  So a literal
names its table for ever, and a table that the cache holds is found again under its literal.
-/

namespace LogicNet

namespace TruthTable

@[simp] theorem complementIf_complementIf (t : TruthTable) (flip : Bool) :
    (t.complementIf flip).complementIf flip = t := by
  cases flip <;> simp [complementIf]

@[simp] theorem numVars_complementIf (t : TruthTable) (flip : Bool) :
    (t.complementIf flip).numVars = t.numVars := by
  cases flip <;> rfl

theorem bit_complementIf {t : TruthTable} {i : Nat} (h : i < t.numRows) (flip : Bool) :
    (t.complementIf flip).bit i = (t.bit i ^^ flip) := by
  cases flip with
  | false => simp [complementIf]
  | true => simp [complementIf, bit_complement h]

/-- The rows of a weight have one value if those of the complement have one. -/
theorem isSymmetric_complementIf (t : TruthTable) (flip : Bool) :
    (t.complementIf flip).isSymmetric = t.isSymmetric := by
  have inRange {i : Nat} : 2 ^ weight t.numVars i - 1 < t.numRows := by
    have le := Nat.pow_le_pow_right (Nat.zero_lt_two) (weight_le t.numVars i)
    have pos := Nat.two_pow_pos (weight t.numVars i)
    rw [numRows]
    omega
  rw [Bool.eq_iff_iff, isSymmetric_iff, isSymmetric_iff, numRows, numVars_complementIf]
  refine forall₂_congr fun i hi => ?_
  rw [bit_complementIf hi, bit_complementIf inRange]
  cases t.bit i <;> cases t.bit (2 ^ weight t.numVars i - 1) <;> cases flip <;> simp

end TruthTable

namespace FunctionCache

/-- What insertions keep. -/
structure WellFormed (c : FunctionCache) : Prop where
  normal : ∀ e ∈ c.entries, e.table.bit 0 = false
  symmetric_eq : ∀ e ∈ c.entries, e.symmetric = e.table.isSymmetric
  nodup : (c.entries.map (·.table)).Nodup

/-- The later cache has all entries of the earlier one in their places. -/
def Extends (c c' : FunctionCache) : Prop := c.entries <+: c'.entries

theorem Extends.refl (c : FunctionCache) : c.Extends c := List.prefix_refl _

theorem Extends.trans {a b c : FunctionCache} (h : a.Extends b) (h' : b.Extends c) : a.Extends c :=
  List.IsPrefix.trans h h'

variable {c c' : FunctionCache} {l : FunctionLiteral} {t : TruthTable}

theorem entry_eq_ok {e : CachedFunction} : c.entry l = .ok e ↔ c.entries[l.index]? = some e := by
  unfold entry
  cases c.entries[l.index]? <;> simp

theorem get_eq_ok :
    c.get l = .ok t ↔ ∃ e, c.entries[l.index]? = some e ∧ e.table.complementIf l.complemented = t := by
  simp only [get, bind_eq_ok, entry_eq_ok, pure_eq_ok, Except.ok.injEq]

theorem isSymmetric_eq_ok {b : Bool} :
    c.isSymmetric l = .ok b ↔ ∃ e, c.entries[l.index]? = some e ∧ e.symmetric = b := by
  simp only [isSymmetric, bind_eq_ok, entry_eq_ok, pure_eq_ok, Except.ok.injEq]

theorem Extends.entry {e : CachedFunction} (h : c.Extends c')
    (he : c.entries[l.index]? = some e) : c'.entries[l.index]? = some e := by
  obtain ⟨more, hmore⟩ := h
  rw [← hmore, List.getElem?_append_left (List.getElem?_eq_some_iff.1 he).1]
  exact he

theorem Extends.get (h : c.Extends c') (ht : c.get l = .ok t) : c'.get l = .ok t := by
  obtain ⟨e, he, htable⟩ := get_eq_ok.1 ht
  exact get_eq_ok.2 ⟨e, h.entry he, htable⟩

theorem Extends.isSymmetric {b : Bool} (h : c.Extends c') (hb : c.isSymmetric l = .ok b) :
    c'.isSymmetric l = .ok b := by
  obtain ⟨e, he, hsymmetric⟩ := isSymmetric_eq_ok.1 hb
  exact isSymmetric_eq_ok.2 ⟨e, h.entry he, hsymmetric⟩

theorem extends_insert (c : FunctionCache) (t : TruthTable) : c.Extends (c.insert t).2 := by
  unfold insert
  dsimp only
  split
  · exact .refl c
  · exact List.prefix_append _ _

/-- The literal of a table names it. -/
theorem get_insert (c : FunctionCache) (t : TruthTable) :
    (c.insert t).2.get (c.insert t).1 = .ok t := by
  unfold insert
  dsimp only
  split
  · next i found =>
    obtain ⟨hi, heq, -⟩ := List.findIdx?_eq_some_iff_getElem.1 found
    refine get_eq_ok.2 ⟨c.entries[i], List.getElem?_eq_getElem hi, ?_⟩
    rw [eq_of_beq heq, TruthTable.complementIf_complementIf]
  · refine get_eq_ok.2 ⟨_, List.getElem?_concat_length, ?_⟩
    rw [TruthTable.complementIf_complementIf]

/-- A table that a literal names is found under that very literal. -/
theorem insert_get (wf : c.WellFormed) (ht : c.get l = .ok t) : c.insert t = (l, c) := by
  obtain ⟨e, he, rfl⟩ := get_eq_ok.1 ht
  obtain ⟨hl, rfl⟩ := List.getElem?_eq_some_iff.1 he
  have hnormal : (c.entries[l.index].table.complementIf l.complemented).bit 0 = l.complemented := by
    rw [TruthTable.bit_complementIf (TruthTable.numRows_pos _),
      wf.normal _ (List.getElem_mem hl), Bool.false_xor]
  have found : c.entries.findIdx? (·.table == c.entries[l.index].table) = some l.index := by
    refine List.findIdx?_eq_some_iff_getElem.2 ⟨hl, beq_self_eq_true _, fun j hj heq => ?_⟩
    have hjl : j < (c.entries.map (·.table)).length := by
      rw [List.length_map]
      omega
    have same : (c.entries.map (·.table)).get ⟨j, hjl⟩
        = (c.entries.map (·.table)).get ⟨l.index, by rwa [List.length_map]⟩ := by
      simpa using heq
    exact Nat.ne_of_lt hj (Fin.val_eq_of_eq (wf.nodup.injective_get same))
  simp only [insert, hnormal, TruthTable.complementIf_complementIf, found]

/-- A literal names a symmetric table or the complement of one exactly if it is marked symmetric. -/
theorem WellFormed.isSymmetric_of_get (wf : c.WellFormed) (ht : c.get l = .ok t) :
    c.isSymmetric l = .ok t.isSymmetric := by
  obtain ⟨e, he, rfl⟩ := get_eq_ok.1 ht
  refine isSymmetric_eq_ok.2 ⟨e, he, ?_⟩
  rw [TruthTable.isSymmetric_complementIf, wf.symmetric_eq e (List.mem_of_getElem? he)]

theorem wellFormed_empty : empty.WellFormed := ⟨by simp [empty], by simp [empty], by simp [empty]⟩

theorem WellFormed.insert (wf : c.WellFormed) (t : TruthTable) : (c.insert t).2.WellFormed := by
  unfold FunctionCache.insert
  dsimp only
  split
  · exact wf
  · next missing =>
    have fresh : ∀ e ∈ c.entries, e.table ≠ t.complementIf (t.bit 0) := by
      intro e he heq
      have := List.findIdx?_eq_none_iff.1 missing e he
      simp [heq] at this
    refine ⟨?_, ?_, ?_⟩
    · intro e he
      rcases List.mem_append.1 he with he | he
      · exact wf.normal e he
      · obtain rfl := List.mem_singleton.1 he
        rw [TruthTable.bit_complementIf t.numRows_pos, Bool.xor_self]
    · intro e he
      rcases List.mem_append.1 he with he | he
      · exact wf.symmetric_eq e he
      · obtain rfl := List.mem_singleton.1 he
        rfl
    · rw [List.map_append, List.nodup_append]
      refine ⟨wf.nodup, by simp, ?_⟩
      intro u hu v hv heq
      obtain ⟨e, he, rfl⟩ := List.mem_map.1 hu
      exact fresh e he (heq.trans (by simpa using hv))

theorem wellFormed_seeded : seeded.WellFormed :=
  ((wellFormed_empty.insert _).insert _).insert _

end FunctionCache

namespace FunctionColumns

/-- The columns of the entries, with an index that finds what a search through the entries finds. -/
structure Aligned (d : FunctionColumns) (c : FunctionCache) : Prop where
  tables : d.tables = c.entries.map (·.table)
  symmetric : d.symmetric = c.entries.map (·.symmetric)
  index : ∀ t, d.index.lookup t = c.entries.findIdx? (·.table == t)

variable {d : FunctionColumns} {c : FunctionCache}

theorem aligned_empty : empty.Aligned .empty := ⟨rfl, rfl, fun _ => rfl⟩

theorem Aligned.get (aligned : d.Aligned c) (l : FunctionLiteral) : d.get l = c.get l := by
  rw [FunctionColumns.get, FunctionCache.get, FunctionCache.entry, aligned.tables, List.getElem?_map]
  cases c.entries[l.index]? <;> rfl

theorem Aligned.isSymmetric (aligned : d.Aligned c) (l : FunctionLiteral) :
    d.isSymmetric l = c.isSymmetric l := by
  rw [FunctionColumns.isSymmetric, FunctionCache.isSymmetric, FunctionCache.entry, aligned.symmetric,
    List.getElem?_map]
  cases c.entries[l.index]? <;> rfl

/-- The index finds a new table where it was put, and all others where they were. -/
theorem Aligned.lookup_push (aligned : d.Aligned c) {e : CachedFunction}
    (missing : c.entries.findIdx? (·.table == e.table) = none) (t : TruthTable) :
    ((e.table, c.size) :: d.index).lookup t = (c.entries ++ [e]).findIdx? (·.table == t) := by
  rw [List.lookup_cons, List.findIdx?_append, List.findIdx?_singleton, aligned.index]
  by_cases same : t = e.table
  · subst same
    simp [missing, FunctionCache.size]
  · have other : (t == e.table) = false := beq_false_of_ne same
    have other' : (e.table == t) = false := beq_false_of_ne (Ne.symm same)
    simp [other, other']

/-- An insertion gives the same literal and leaves the columns aligned with the entries. -/
theorem Aligned.insert (aligned : d.Aligned c) (t : TruthTable) :
    (d.insert t).1 = (c.insert t).1 ∧ (d.insert t).2.Aligned (c.insert t).2 := by
  have length : d.tables.length = c.size := by rw [aligned.tables, List.length_map, FunctionCache.size]
  unfold FunctionColumns.insert FunctionCache.insert
  dsimp only
  rw [aligned.index]
  cases found : c.entries.findIdx? (·.table == t.complementIf (t.bit 0)) with
  | some i => exact ⟨rfl, aligned⟩
  | none =>
    refine ⟨by rw [length], ?_, ?_, ?_⟩
    · rw [aligned.tables, List.map_append, List.map_singleton]
    · rw [aligned.symmetric, List.map_append, List.map_singleton, TruthTable.isSymmetricByRows_eq]
    · rw [length]
      exact aligned.lookup_push (e := ⟨t.complementIf (t.bit 0), _⟩) found

end FunctionColumns

end LogicNet
