import Mathlib.Data.List.Basic
import Mathlib.Order.Lattice
import Mathlib.Order.MinMax

/-! # Sweeping through a list

A pointer into a list moves on while the next element is not beyond a key. For one key after
another it stands where the greatest key so far would have led it at once. In an ascending list
that is the last element not beyond the key, or the first one if all are beyond it.
-/

namespace Sweep

variable {α κ : Type} [LinearOrder κ] (at_ : α → κ)

/-- The pointer moves on while the next element is not beyond the key. -/
def advance (ys : List α) (k : κ) (j : Nat) : Nat :=
  j + ((ys.drop (j + 1)).takeWhile fun y => at_ y ≤ k).length

/-- The pointer for one key after another. -/
def sweep (ys : List α) : Nat → List κ → List Nat
  | _, [] => []
  | j, k :: ks => advance at_ ys k j :: sweep ys (advance at_ ys k j) ks

/-- The greatest key up to each one. -/
def peaksFrom (top : κ) : List κ → List κ
  | [] => []
  | k :: ks => max top k :: peaksFrom (max top k) ks

def peaks : List κ → List κ
  | [] => []
  | k :: ks => k :: peaksFrom k ks

/-- Where a key leads the pointer from the beginning. -/
def reach (ys : List α) (k : κ) : Nat := (ys.tail.takeWhile fun y => at_ y ≤ k).length

variable {at_} {ys : List α}

theorem length_takeWhile_max (l : List α) (t k : κ) :
    (l.takeWhile fun y => at_ y ≤ t).length +
        ((l.dropWhile fun y => at_ y ≤ t).takeWhile fun y => at_ y ≤ k).length =
      (l.takeWhile fun y => at_ y ≤ max t k).length := by
  induction l with
  | nil => rfl
  | cons a l ih =>
      by_cases ht : at_ a ≤ t
      · have hmax : at_ a ≤ max t k := le_max_of_le_left ht
        simp only [List.takeWhile_cons, List.dropWhile_cons, decide_eq_true ht,
          decide_eq_true hmax, if_true, List.length_cons]
        omega
      · have hfront : ((a :: l).takeWhile fun y => at_ y ≤ t) = [] :=
          List.takeWhile_cons_of_neg (by simpa using ht)
        have hback : ((a :: l).dropWhile fun y => at_ y ≤ t) = a :: l :=
          List.dropWhile_cons_of_neg (by simpa using ht)
        rw [hfront, hback, List.length_nil, Nat.zero_add]
        by_cases hk : at_ a ≤ k
        · rw [max_eq_right ((not_le.mp ht).le.trans hk)]
        · rw [List.takeWhile_cons_of_neg (by simpa using hk),
            List.takeWhile_cons_of_neg (by simpa using And.intro ht hk)]

/-- From where one key leads, another leads where the greater of them does. -/
theorem advance_reach (ys : List α) (t k : κ) :
    advance at_ ys k (reach at_ ys t) = reach at_ ys (max t k) := by
  have hdrop : ys.drop (reach at_ ys t + 1) = ys.tail.dropWhile fun y => at_ y ≤ t := by
    have hsplit : (ys.tail.takeWhile fun y => at_ y ≤ t) ++
        (ys.tail.dropWhile fun y => at_ y ≤ t) = ys.tail := List.takeWhile_append_dropWhile
    rw [← List.drop_tail, reach]
    nth_rewrite 2 [← hsplit]
    exact List.drop_left
  rw [advance, hdrop]
  exact length_takeWhile_max ys.tail t k

theorem sweep_reach (ys : List α) (t : κ) (ks : List κ) :
    sweep at_ ys (reach at_ ys t) ks = (peaksFrom t ks).map (reach at_ ys) := by
  induction ks generalizing t with
  | nil => rfl
  | cons k ks ih => rw [sweep, peaksFrom, advance_reach, ih, List.map_cons]

theorem sweep_eq (ys : List α) (ks : List κ) :
    sweep at_ ys 0 ks = (peaks ks).map (reach at_ ys) := by
  cases ks with
  | nil => rfl
  | cons k ks =>
      have hfirst : advance at_ ys k 0 = reach at_ ys k := by
        rw [advance, reach, Nat.zero_add, Nat.zero_add, List.drop_one]
      rw [sweep, hfirst, sweep_reach, peaks, List.map_cons]

/-- Ascending keys are their own peaks. -/
theorem peaks_ascending {ks : List κ} (hks : ks.Pairwise fun a b => a ≤ b) : peaks ks = ks := by
  have hfrom : ∀ (top : κ) (ks : List κ), ((top :: ks).Pairwise fun a b => a ≤ b) →
      peaksFrom top ks = ks := by
    intro top ks
    induction ks generalizing top with
    | nil => exact fun _ => rfl
    | cons k ks ih =>
        intro h
        have htop : top ≤ k := (List.pairwise_cons.mp h).1 k List.mem_cons_self
        rw [peaksFrom, max_eq_right htop, ih k (List.pairwise_cons.mp h).2]
  cases ks with
  | nil => rfl
  | cons k ks => rw [peaks, hfrom k ks hks]

/-! ## Ascending lists -/

/-- An element that none which is not beyond the key is behind. If it is beyond the key itself,
it is a first one. -/
structure Stands (at_ : α → κ) (ys : List α) (k : κ) (y : α) : Prop where
  mem : y ∈ ys
  latest : ∀ q ∈ ys, at_ q ≤ k → at_ q ≤ at_ y
  first : k < at_ y → ∀ q ∈ ys, at_ y ≤ at_ q

/-- The pointer of an ascending list stands behind everything that is not beyond the key. -/
theorem stands_reach (hys : ys.Pairwise fun a b => at_ a ≤ at_ b) (hne : ys ≠ []) (k : κ) :
    ∃ y, ys[reach at_ ys k]? = some y ∧ Stands at_ ys k y ∧
      (k < at_ y → reach at_ ys k = 0) := by
  obtain ⟨a, l, rfl⟩ := List.exists_cons_of_ne_nil hne
  rw [List.pairwise_cons] at hys
  obtain ⟨hfirst, hl⟩ := hys
  induction l generalizing a with
  | nil =>
      refine ⟨a, rfl, ⟨List.mem_singleton_self a, ?_, ?_⟩, fun _ => rfl⟩
      · intro q hq _
        rw [List.mem_singleton.mp hq]
      · intro _ q hq
        rw [List.mem_singleton.mp hq]
  | cons b l ih =>
      obtain ⟨hb, hl⟩ := List.pairwise_cons.mp hl
      by_cases hk : at_ b ≤ k
      · -- the pointer goes on to the second element and stands where it stands in the rest
        have hreach : reach at_ (a :: b :: l) k = reach at_ (b :: l) k + 1 := by
          rw [reach, reach, List.tail_cons, List.tail_cons,
            List.takeWhile_cons_of_pos (by simpa using hk), List.length_cons]
        obtain ⟨y, hy, ⟨hmem, hlatest, hbeyond⟩, -⟩ := ih b (by simp) hb hl
        have hby : at_ b ≤ at_ y := hlatest b List.mem_cons_self hk
        have hnot : ¬k < at_ y := fun hlt =>
          absurd (hbeyond hlt b List.mem_cons_self) (not_le.mpr (hk.trans_lt hlt))
        refine ⟨y, ?_, ⟨List.mem_cons_of_mem a hmem, ?_, fun hlt => absurd hlt hnot⟩,
          fun hlt => absurd hlt hnot⟩
        · rw [hreach, List.getElem?_cons_succ, hy]
        · intro q hq hqk
          obtain rfl | hq := List.mem_cons.mp hq
          · exact (hfirst b List.mem_cons_self).trans hby
          · exact hlatest q hq hqk
      · -- the second element is beyond the key, so the pointer does not move
        have hreach : reach at_ (a :: b :: l) k = 0 := by
          rw [reach, List.tail_cons, List.takeWhile_cons_of_neg (by simpa using hk),
            List.length_nil]
        refine ⟨a, by rw [hreach, List.getElem?_cons_zero], ⟨List.mem_cons_self, ?_, ?_⟩,
          fun _ => hreach⟩
        · intro q hq hqk
          obtain rfl | hq := List.mem_cons.mp hq
          · exact le_rfl
          · have hbq : at_ b ≤ at_ q := by
              obtain rfl | hq := List.mem_cons.mp hq
              · exact le_rfl
              · exact hb q hq
            exact absurd (hbq.trans hqk) hk
        · intro _ q hq
          obtain rfl | hq := List.mem_cons.mp hq
          · exact le_rfl
          · exact hfirst q hq

/-- The element in front of the pointer is not behind the one at it. -/
theorem before_reach (hys : ys.Pairwise fun a b => at_ a ≤ at_ b) {j : Nat} {y z : α}
    (hy : ys[j]? = some y) (hz : ys[j - 1]? = some z) : at_ z ≤ at_ y := by
  obtain ⟨hj, rfl⟩ := List.getElem?_eq_some_iff.mp hy
  obtain ⟨hj', rfl⟩ := List.getElem?_eq_some_iff.mp hz
  obtain hzero | hpos := Nat.eq_zero_or_pos j
  · subst hzero
    exact le_rfl
  · exact List.pairwise_iff_getElem.mp hys (j - 1) j hj' hj (Nat.sub_lt hpos Nat.one_pos)

end Sweep
