import Mathlib.Data.List.Pairwise

/-!
# Sorting by a key

Scripts are sorted by number, cases by value and bodies by entry. Sorting puts keys in ascending
order, and what has one key stays in the order in which it was.
-/

namespace LevelScript

variable {α κ : Type} [LE κ] [DecidableLE κ] [Std.IsLinearOrder κ] (key : α → κ)

theorem key_trans (a b c : α) (hab : decide (key a ≤ key b) = true)
    (hbc : decide (key b ≤ key c) = true) : decide (key a ≤ key c) = true :=
  decide_eq_true (Std.le_trans (of_decide_eq_true hab) (of_decide_eq_true hbc))

theorem key_total (a b : α) : (decide (key a ≤ key b) || decide (key b ≤ key a)) = true := by
  simpa using Std.le_total (a := key a) (b := key b)

/-- Keys ascend. -/
theorem pairwise_mergeSort_key (xs : List α) :
    (xs.mergeSort fun a b => key a ≤ key b).Pairwise fun a b => key a ≤ key b :=
  (List.pairwise_mergeSort (key_trans key) (key_total key) xs).imp of_decide_eq_true

/-- What has one key stays in its order. -/
theorem filter_mergeSort_key [BEq κ] [LawfulBEq κ] (xs : List α) (k : κ) :
    (xs.mergeSort fun a b => key a ≤ key b).filter (key · == k) = xs.filter (key · == k) := by
  have hsame : (xs.filter (key · == k)).Pairwise fun a b => decide (key a ≤ key b) = true := by
    refine List.pairwise_of_forall_mem_list fun a ha b hb => ?_
    rw [beq_iff_eq.mp (List.mem_filter.mp ha).2, beq_iff_eq.mp (List.mem_filter.mp hb).2]
    exact decide_eq_true (Std.le_refl k)
  have hsub := (List.sublist_mergeSort (key_trans key) (key_total key) hsame
    List.filter_sublist).filter (key · == k)
  simp only [List.filter_filter, Bool.and_self] at hsub
  exact (hsub.eq_of_length ((List.mergeSort_perm xs _).filter _).length_eq.symm).symm

end LevelScript
