import Mathlib.Data.List.Destutter
import Mathlib.Data.List.Sort

/-! # Values in order, each of them once

A list is sorted and equal neighbours are taken together. What comes out has the elements
of the list and no others, each once, and does not depend on the order they came in.
-/

namespace Distinct

variable {α : Type} [LinearOrder α]

/-- The values of a list in order, each of them once. -/
def sortedDistinct (values : List α) : List α :=
  (values.insertionSort (· ≤ ·)).destutter (· ≠ ·)

theorem mem_destutter' (a b : α) (l : List α) :
    b ∈ l.destutter' (· ≠ ·) a ↔ b = a ∨ b ∈ l := by
  induction l generalizing a with
  | nil => simp
  | cons c l ih =>
      by_cases hne : a ≠ c
      · rw [List.destutter'_cons_pos _ hne, List.mem_cons, ih, List.mem_cons]
      · rw [List.destutter'_cons_neg _ hne, ih, List.mem_cons]
        obtain rfl := not_not.mp hne
        tauto

theorem mem_sortedDistinct {values : List α} {a : α} : a ∈ sortedDistinct values ↔ a ∈ values := by
  have hsort : a ∈ values.insertionSort (· ≤ ·) ↔ a ∈ values := List.mem_insertionSort _
  rw [sortedDistinct, ← hsort]
  cases values.insertionSort (· ≤ ·) with
  | nil => simp
  | cons b l => rw [List.destutter_cons', mem_destutter', List.mem_cons]

theorem isChain_lt_of_ne {l : List α} (hsorted : l.Pairwise (· ≤ ·)) (hne : l.IsChain (· ≠ ·)) :
    l.IsChain (· < ·) := by
  induction l with
  | nil => exact .nil
  | cons a l ih =>
      cases l with
      | nil => exact .singleton a
      | cons b l =>
          obtain ⟨hab, hrest⟩ := List.isChain_cons_cons.mp hne
          obtain ⟨hle, hsorted⟩ := List.pairwise_cons.mp hsorted
          exact List.isChain_cons_cons.mpr ⟨lt_of_le_of_ne (hle b List.mem_cons_self) hab,
            ih hsorted hrest⟩

/-- Each value is before the ones behind it. -/
theorem ascending_sortedDistinct (values : List α) :
    (sortedDistinct values).Pairwise (· < ·) := by
  have hsorted : (sortedDistinct values).Pairwise (· ≤ ·) :=
    (List.pairwise_insertionSort (· ≤ ·) values).sublist (List.destutter_sublist _ _)
  exact List.isChain_iff_pairwise.mp (isChain_lt_of_ne hsorted (List.isChain_destutter _ _))

theorem nodup_sortedDistinct (values : List α) : (sortedDistinct values).Nodup :=
  (ascending_sortedDistinct values).imp fun h => h.ne

/-- Lists with the same elements give the same values. -/
theorem sortedDistinct_congr {values values' : List α} (hmem : ∀ a, a ∈ values ↔ a ∈ values') :
    sortedDistinct values = sortedDistinct values' := by
  have hperm : (sortedDistinct values).Perm (sortedDistinct values') := by
    rw [List.perm_ext_iff_of_nodup (nodup_sortedDistinct _) (nodup_sortedDistinct _)]
    intro a
    rw [mem_sortedDistinct, mem_sortedDistinct, hmem]
  exact hperm.eq_of_pairwise (fun a b _ _ hab hba => absurd (hab.trans hba) (lt_irrefl a))
    (ascending_sortedDistinct _) (ascending_sortedDistinct _)

/-- There is at most one value exactly if all elements are equal. -/
theorem length_sortedDistinct_le_one {values : List α} :
    (sortedDistinct values).length ≤ 1 ↔ ∀ a ∈ values, ∀ b ∈ values, a = b := by
  simp only [← @mem_sortedDistinct _ _ values]
  have hnodup := nodup_sortedDistinct values
  match sortedDistinct values, hnodup with
  | [], _ => simp
  | [a], _ => simp
  | a :: b :: l, hnodup =>
      have hne : a ≠ b := by
        rintro rfl
        simp at hnodup
      constructor
      · intro h
        simp at h
      · intro h
        exact absurd (h a (by simp) b (by simp)) hne

end Distinct
