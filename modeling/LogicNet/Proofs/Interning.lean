import LogicNet.Proofs.FunctionCache
import Mathlib.Data.Finset.Card
import Mathlib.Data.Nat.Bitwise
import Mathlib.Data.Sym.Sym2

/-! # Histories of the function cache

Tables are inserted one after the other, in whatever order and of whatever widths.  Every literal that was
ever given out keeps naming its table, literals are equal just where tables are, and the cache grows by
tables that are new up to complement only.
-/

namespace LogicNet

namespace TruthTable

/-- A table and its complement, without regard to which of them comes first. -/
def withComplement (t : TruthTable) : Sym2 TruthTable := s(t, t.complement)

theorem withComplement_complementIf (t : TruthTable) (flip : Bool) :
    (t.complementIf flip).withComplement = t.withComplement := by
  cases flip with
  | false => rfl
  | true => simp [withComplement, complementIf, Sym2.eq_swap]

/-- Of a table and its complement just one is false on row 0. -/
theorem eq_of_withComplement {t u : TruthTable} (ht : t.bit 0 = false) (hu : u.bit 0 = false)
    (h : t.withComplement = u.withComplement) : t = u := by
  rcases Sym2.eq_iff.1 h with ⟨same, -⟩ | ⟨-, opposite⟩
  · exact same
  · have flipped := bit_complement t.numRows_pos
    rw [opposite, ht, hu] at flipped
    cases flipped

end TruthTable

namespace FunctionLiteral

/-- The same entry with the other polarity. -/
def complement (l : FunctionLiteral) : FunctionLiteral := { l with complemented := !l.complemented }

/-- The polarity is the lowest bit of a literal. -/
theorem code_complement (l : FunctionLiteral) : l.complement.code = l.code ^^^ 1 := by
  obtain ⟨i, c⟩ := l
  cases c with
  | false => exact (Nat.xor_one_of_even (even_two_mul i)).symm
  | true => exact (Nat.xor_one_of_odd ⟨i, rfl⟩).symm

end FunctionLiteral

namespace FunctionCache

/-- The cache after a sequence of insertions, and the literals that they gave, in the same order. -/
inductive History : List (TruthTable × FunctionLiteral) → FunctionCache → Prop
  | empty : History [] .empty
  | insert {log : List (TruthTable × FunctionLiteral)} {c : FunctionCache} (before : History log c)
      (t : TruthTable) : History (log ++ [(t, (c.insert t).1)]) (c.insert t).2

variable {c : FunctionCache} {l m : FunctionLiteral} {t : TruthTable}
  {log : List (TruthTable × FunctionLiteral)}

/-- A table has one literal only. -/
theorem WellFormed.eq_of_get (wf : c.WellFormed) (hl : c.get l = .ok t) (hm : c.get m = .ok t) : l = m := by
  have found := insert_get wf hl
  rw [insert_get wf hm] at found
  exact congrArg Prod.fst found.symm

theorem get_complement (h : c.get l = .ok t) : c.get l.complement = .ok t.complement := by
  obtain ⟨e, he, rfl⟩ := get_eq_ok.1 h
  refine get_eq_ok.2 ⟨e, he, ?_⟩
  cases hc : l.complemented <;> simp [FunctionLiteral.complement, TruthTable.complementIf, hc]

/-- The symmetry that is kept with an entry is that of the tables of its two literals. -/
theorem WellFormed.isSymmetric_eq (wf : c.WellFormed) (l : FunctionLiteral) :
    c.isSymmetric l = TruthTable.isSymmetric <$> c.get l := by
  cases hget : c.get l with
  | ok t => exact wf.isSymmetric_of_get hget
  | error e =>
    unfold get at hget
    unfold isSymmetric
    cases hentry : c.entry l with
    | ok found =>
      rw [hentry] at hget
      cases hget
    | error e' =>
      rw [hentry] at hget
      cases hget
      rfl

theorem code_lt_of_get (h : c.get l = .ok t) : l.code < 2 * c.size := by
  obtain ⟨e, he, -⟩ := get_eq_ok.1 h
  have hlt : l.index < c.size := (List.getElem?_eq_some_iff.1 he).1
  have low := Bool.toNat_lt l.complemented
  rw [FunctionLiteral.code]
  omega

/-- The entries up to complement, one for each. -/
theorem WellFormed.nodup_withComplement (wf : c.WellFormed) :
    (c.entries.map (·.table.withComplement)).Nodup := by
  have tables := wf.nodup
  refine (List.nodup_map_iff_inj_on tables.of_map).2 fun e he e' he' same => ?_
  have table := TruthTable.eq_of_withComplement (wf.normal e he) (wf.normal e' he') same
  exact List.inj_on_of_nodup_map tables he he' table

/-- An insertion enters the table up to complement. -/
theorem mem_withComplement_insert (c : FunctionCache) (t : TruthTable) (pair : Sym2 TruthTable) :
    pair ∈ (c.insert t).2.entries.map (·.table.withComplement) ↔
      pair ∈ c.entries.map (·.table.withComplement) ∨ pair = t.withComplement := by
  unfold insert
  dsimp only
  split
  · next i found =>
    obtain ⟨hi, heq, -⟩ := List.findIdx?_eq_some_iff_getElem.1 found
    refine (or_iff_left_of_imp ?_).symm
    rintro rfl
    rw [← t.withComplement_complementIf (t.bit 0), ← eq_of_beq heq]
    exact List.mem_map_of_mem (List.getElem_mem hi)
  · rw [List.map_append, List.mem_append, List.map_singleton, List.mem_singleton,
      TruthTable.withComplement_complementIf]

/-- What a history comes to: every literal names its table, and the entries are the tables up to
complement. -/
structure Records (log : List (TruthTable × FunctionLiteral)) (c : FunctionCache) : Prop where
  wellFormed : c.WellFormed
  named : ∀ a ∈ log, c.get a.2 = .ok a.1
  entered : ∀ pair, pair ∈ c.entries.map (·.table.withComplement) ↔
    pair ∈ log.map (·.1.withComplement)

theorem Records.insert (records : Records log c) (t : TruthTable) :
    Records (log ++ [(t, (c.insert t).1)]) (c.insert t).2 where
  wellFormed := records.wellFormed.insert t
  named a ha := by
    rcases List.mem_append.1 ha with earlier | new
    · exact (extends_insert c t).get (records.named a earlier)
    · rw [List.mem_singleton.1 new]
      exact get_insert c t
  entered pair := by
    rw [mem_withComplement_insert, records.entered, List.map_append, List.mem_append, List.map_singleton,
      List.mem_singleton]

theorem History.records (history : History log c) : Records log c := by
  induction history with
  | empty => exact ⟨wellFormed_empty, fun a ha => absurd ha List.not_mem_nil, fun pair => Iff.rfl⟩
  | insert _ t ih => exact ih.insert t

/-- Columns that the same tables are inserted into stay aligned with the entries of the cache. -/
theorem History.aligned (history : History log c) :
    (FunctionColumns.ofTables (log.map (·.1))).Aligned c := by
  induction history with
  | empty => exact FunctionColumns.aligned_empty
  | insert _ t ih =>
    rw [List.map_append, List.map_singleton, FunctionColumns.ofTables, List.foldl_append]
    exact (ih.insert t).2

/-- So they give every table its literal, and every literal its table and symmetry. -/
theorem History.columns_agree (history : History log c) :
    (∀ t, ((FunctionColumns.ofTables (log.map (·.1))).insert t).1 = (c.insert t).1) ∧
    ∀ l, (FunctionColumns.ofTables (log.map (·.1))).get l = c.get l ∧
      (FunctionColumns.ofTables (log.map (·.1))).isSymmetric l = c.isSymmetric l := by
  have aligned := history.aligned
  exact ⟨fun t => (aligned.insert t).1, fun l => ⟨aligned.get l, aligned.isSymmetric l⟩⟩

theorem Records.size_eq (records : Records log c) :
    c.size = (log.map (·.1.withComplement)).toFinset.card := by
  have same : (log.map (·.1.withComplement)).toFinset
      = (c.entries.map (·.table.withComplement)).toFinset := by
    ext pair
    rw [List.mem_toFinset, List.mem_toFinset, records.entered]
  rw [same, List.toFinset_card_of_nodup records.wellFormed.nodup_withComplement, List.length_map, size]

/-- Literals name tables by their content and for good.  At the end of any history, every literal that an
insertion gave names its table and has 32 bits; two insertions gave one literal just if their tables are
equal, and literals that differ in the lowest bit for a table and its complement; there are as many entries
as tables up to complement; and the symmetry of a literal is that of its table. -/
theorem History.content_addressed (history : History log c) (few : c.size < 2 ^ 31) :
    (∀ a ∈ log, c.get a.2 = .ok a.1 ∧ a.2.code < 2 ^ 32) ∧
    (∀ a ∈ log, ∀ b ∈ log, (a.2 = b.2 ↔ a.1 = b.1) ∧
      (b.1 = a.1.complement → b.2.code = a.2.code ^^^ 1)) ∧
    c.size = (log.map (·.1.withComplement)).toFinset.card ∧
    ∀ l, c.isSymmetric l = TruthTable.isSymmetric <$> c.get l := by
  have records := history.records
  have wf := records.wellFormed
  refine ⟨fun a ha => ⟨records.named a ha, ?_⟩, fun a ha b hb => ⟨⟨fun same => ?_, fun same => ?_⟩,
    fun opposite => ?_⟩, records.size_eq, wf.isSymmetric_eq⟩
  · have below := code_lt_of_get (records.named a ha)
    omega
  · have named := records.named a ha
    rw [same, records.named b hb] at named
    exact (Except.ok.inj named).symm
  · exact wf.eq_of_get (records.named a ha) (same ▸ records.named b hb)
  · rw [← FunctionLiteral.code_complement]
    have named := records.named b hb
    rw [opposite] at named
    exact congrArg FunctionLiteral.code (wf.eq_of_get named (get_complement (records.named a ha)))

/-- Two tables of different widths, then the first one's complement, and the first one again. -/
theorem sample_content_addressed :
    ∃ log c, History log c ∧ c.size < 2 ^ 31 ∧
      log.map (·.2.code) = [0, 2, 1, 0] ∧ ∀ a ∈ log, c.get a.2 = .ok a.1 ∧ a.2.code < 2 ^ 32 := by
  have history := (((History.empty.insert (.word 2 0x8)).insert (.var 1 0)).insert (.word 2 0x7)).insert
    (.word 2 0x8)
  exact ⟨_, _, history, by decide, by decide, (history.content_addressed (by decide)).1⟩

end FunctionCache

end LogicNet
