import LogicNet.Signal
import Mathlib.Data.List.Sort

/-! # Sorted fanins

Sorting gives the one ascending arrangement of its arguments, so it forgets their order.
-/

namespace LogicNet.Signal

theorem le_antisymm {s t : Signal} (h : s ≤ t) (h' : t ≤ s) : s = t :=
  rank_injective (Nat.le_antisymm h h')

theorem insertSorted_perm (s : Signal) (l : List Signal) : (insertSorted s l).Perm (s :: l) := by
  induction l with
  | nil => exact .refl _
  | cons t rest ih =>
    rw [insertSorted]
    split
    · exact .refl _
    · exact (ih.cons t).trans (.swap s t rest)

theorem sort_perm (l : List Signal) : (sort l).Perm l := by
  induction l with
  | nil => exact .refl _
  | cons s rest ih => exact (insertSorted_perm s _).trans (ih.cons s)

theorem pairwise_insertSorted (s : Signal) {l : List Signal} (sorted : l.Pairwise (· ≤ ·)) :
    (insertSorted s l).Pairwise (· ≤ ·) := by
  induction l with
  | nil => exact List.pairwise_singleton _ _
  | cons t rest ih =>
    obtain ⟨least, sortedRest⟩ := List.pairwise_cons.1 sorted
    rw [insertSorted]
    split
    · next hle =>
      refine List.pairwise_cons.2 ⟨fun u hu => ?_, sorted⟩
      rcases List.mem_cons.1 hu with rfl | hu
      · exact hle
      · exact Nat.le_trans hle (least u hu)
    · next hle =>
      refine List.pairwise_cons.2 ⟨fun u hu => ?_, ih sortedRest⟩
      rcases List.mem_cons.1 ((insertSorted_perm s rest).mem_iff.1 hu) with rfl | hu
      · exact Nat.le_of_lt (Nat.lt_of_not_le hle)
      · exact least u hu

theorem pairwise_sort (l : List Signal) : (sort l).Pairwise (· ≤ ·) := by
  induction l with
  | nil => exact .nil
  | cons s rest ih => exact pairwise_insertSorted s ih

theorem sort_eq_of_perm {l l' : List Signal} (h : l.Perm l') : sort l = sort l' := by
  refine List.Perm.eq_of_pairwise (fun s t _ _ => le_antisymm) (pairwise_sort l)
    (pairwise_sort l') ?_
  exact (sort_perm l).trans (h.trans (sort_perm l').symm)

theorem sort2_eq_sort (a b : Signal) : [(sort2 a b).1, (sort2 a b).2] = sort [a, b] := by
  simp only [sort2, sort, insertSorted]
  split <;> rfl

theorem sort3_eq_sort (a b c : Signal) :
    [(sort3 a b c).1, (sort3 a b c).2.1, (sort3 a b c).2.2] = sort [a, b, c] := by
  have le_def : ∀ s t : Signal, s ≤ t ↔ s.rank ≤ t.rank := fun _ _ => Iff.rfl
  simp only [sort3, sort2, sort, insertSorted, le_def]
  grind [insertSorted]

theorem sort2_eq_of_perm {a b a' b' : Signal} (h : [a, b].Perm [a', b']) :
    sort2 a b = sort2 a' b' := by
  have lists := (sort2_eq_sort a b).trans ((sort_eq_of_perm h).trans (sort2_eq_sort a' b').symm)
  simp only [List.cons.injEq, and_true] at lists
  exact Prod.ext lists.1 lists.2

theorem sort3_eq_of_perm {a b c a' b' c' : Signal} (h : [a, b, c].Perm [a', b', c']) :
    sort3 a b c = sort3 a' b' c' := by
  have lists :=
    (sort3_eq_sort a b c).trans ((sort_eq_of_perm h).trans (sort3_eq_sort a' b' c').symm)
  simp only [List.cons.injEq, and_true] at lists
  exact Prod.ext lists.1 (Prod.ext lists.2.1 lists.2.2)

end LogicNet.Signal
