import Mathlib.Algebra.Order.Floor.Semiring
import Mathlib.Order.Interval.Set.Basic
import Mathlib.Tactic.Linarith
import Mathlib.Tactic.Ring
import PowerForensics.System.Merging

/-! # Order statistics and the values between them

The values of a list in their order are its order statistics. Between two of them that are next to
each other a place has the value on the line through both, and such a value keeps every order that
the statistics have.
-/

namespace OrderStatistics

open Merging

/-! ## Between two indices -/

section Interpolation

variable {K : Type} [Field K] [LinearOrder K] [IsStrictOrderedRing K]

/-- The point that divides a line in a ratio. -/
def blend (a b t : K) : K := a * (1 - t) + b * t

theorem le_blend {a b t : K} (hab : a ≤ b) (ht : 0 ≤ t) : a ≤ blend a b t := by
  have h := mul_nonneg (sub_nonneg.mpr hab) ht
  have heq : blend a b t = a + (b - a) * t := by
    rw [blend]
    ring
  rw [heq]
  exact le_add_of_nonneg_right h

theorem blend_le {a b t : K} (hab : a ≤ b) (ht : t ≤ 1) : blend a b t ≤ b := by
  have h := mul_nonneg (sub_nonneg.mpr hab) (sub_nonneg.mpr ht)
  have heq : blend a b t = b - (b - a) * (1 - t) := by
    rw [blend]
    ring
  rw [heq]
  exact sub_le_self b h

theorem blend_le_blend {a b t t' : K} (hab : a ≤ b) (ht : t ≤ t') :
    blend a b t ≤ blend a b t' := by
  have h := mul_le_mul_of_nonneg_left ht (sub_nonneg.mpr hab)
  rw [blend, blend]
  linarith

theorem blend_mono {a a' b b' t : K} (ha : a ≤ a') (hb : b ≤ b') (ht : 0 ≤ t) (ht' : t ≤ 1) :
    blend a b t ≤ blend a' b' t :=
  add_le_add (mul_le_mul_of_nonneg_right ha (sub_nonneg.mpr ht'))
    (mul_le_mul_of_nonneg_right hb ht)

variable [FloorSemiring K]

/-- The part of a rank behind its floor. -/
def part (r : K) : K := r - ⌊r⌋₊

/-- The value of a sequence at a rank between two indices. -/
def between (f : ℕ → K) (r : K) : K := blend (f ⌊r⌋₊) (f ⌈r⌉₊) (part r)

variable {r s : K}

theorem part_nonneg (hr : 0 ≤ r) : 0 ≤ part r := sub_nonneg.mpr (Nat.floor_le hr)

theorem part_le_one (r : K) : part r ≤ 1 :=
  (sub_lt_iff_lt_add'.mpr (Nat.lt_floor_add_one r)).le

/-- A rank is an index where its floor and its ceiling are the same. -/
theorem part_eq_zero (hr : 0 ≤ r) (heq : ⌊r⌋₊ = ⌈r⌉₊) : part r = 0 :=
  le_antisymm (sub_nonpos.mpr (heq ▸ Nat.le_ceil r)) (part_nonneg hr)

variable {f g : ℕ → K} {n : ℕ} (hf : MonotoneOn f (Set.Iic n))

include hf

theorem floor_le_between (hr : 0 ≤ r) (hrn : r ≤ n) : f ⌊r⌋₊ ≤ between f r := by
  have hceil : ⌈r⌉₊ ≤ n := Nat.ceil_le.mpr hrn
  exact le_blend (hf ((Nat.floor_le_ceil r).trans hceil) hceil (Nat.floor_le_ceil r))
    (part_nonneg hr)

theorem between_le_ceil (hrn : r ≤ n) : between f r ≤ f ⌈r⌉₊ := by
  have hceil : ⌈r⌉₊ ≤ n := Nat.ceil_le.mpr hrn
  exact blend_le (hf ((Nat.floor_le_ceil r).trans hceil) hceil (Nat.floor_le_ceil r))
    (part_le_one r)

/-- A greater rank has no smaller value. -/
theorem between_mono (hr : 0 ≤ r) (hrs : r ≤ s) (hs : s ≤ n) : between f r ≤ between f s := by
  have hceil : ⌈s⌉₊ ≤ n := Nat.ceil_le.mpr hs
  have hfloor : ⌊s⌋₊ ≤ n := (Nat.floor_le_ceil s).trans hceil
  by_cases hstep : ⌈r⌉₊ ≤ ⌊s⌋₊
  · -- an index lies between the ranks
    calc between f r ≤ f ⌈r⌉₊ := between_le_ceil hf (hrs.trans hs)
      _ ≤ f ⌊s⌋₊ := hf (hstep.trans hfloor) hfloor hstep
      _ ≤ between f s := floor_le_between hf (hr.trans hrs) hs
  · -- both ranks are between the same two indices
    have hfloors : ⌊r⌋₊ = ⌊s⌋₊ := by
      have hle := Nat.floor_mono hrs
      have hnear := Nat.ceil_le_floor_add_one r
      omega
    have hceils : ⌈r⌉₊ = ⌈s⌉₊ := by
      have hle := Nat.ceil_mono hrs
      have hnear := Nat.ceil_le_floor_add_one s
      omega
    have hpart : part r ≤ part s := by
      rw [part, part, hfloors]
      exact sub_le_sub_right hrs _
    rw [between, between, ← hfloors, ← hceils]
    refine blend_le_blend (hf ?_ ?_ (Nat.floor_le_ceil r)) hpart
    · exact hfloors ▸ hfloor
    · exact hceils ▸ hceil

omit hf in
/-- A sequence that is nowhere below another one is not below it between the indices. -/
theorem between_le_between (hfg : ∀ i ≤ n, f i ≤ g i) (hr : 0 ≤ r) (hrn : r ≤ n) :
    between f r ≤ between g r := by
  have hceil : ⌈r⌉₊ ≤ n := Nat.ceil_le.mpr hrn
  exact blend_mono (hfg _ ((Nat.floor_le_ceil r).trans hceil)) (hfg _ hceil) (part_nonneg hr)
    (part_le_one r)

end Interpolation

/-! ## The values in their order -/

section Statistics

variable {α : Type} [LinearOrder α] (fallback : α)

/-- The value at a place of the sorted list. -/
def orderStatistic (xs : List α) (i : ℕ) : α := ((stableSort id xs)[i]?).getD fallback

variable {fallback} {xs ys : List α} {i : ℕ}

theorem length_stableSort (xs : List α) : (stableSort id xs).length = xs.length :=
  (stableSort_perm id xs).length_eq

theorem orderStatistic_eq (hi : i < (stableSort id xs).length) :
    orderStatistic fallback xs i = (stableSort id xs)[i] := by
  rw [orderStatistic, List.getElem?_eq_getElem hi, Option.getD_some]

theorem orderStatistic_mem (hi : i < xs.length) : orderStatistic fallback xs i ∈ xs := by
  have hlt : i < (stableSort id xs).length := (length_stableSort xs).symm ▸ hi
  rw [orderStatistic_eq hlt]
  exact (stableSort_perm id xs).subset (List.getElem_mem hlt)

theorem orderStatistic_mono {n : ℕ} (hn : n < xs.length) :
    MonotoneOn (orderStatistic fallback xs) (Set.Iic n) := by
  intro i hi j hj hij
  have hjlt : j < (stableSort id xs).length :=
    (Nat.lt_of_le_of_lt hj hn).trans_eq (length_stableSort xs).symm
  rw [orderStatistic_eq hjlt, orderStatistic_eq (hij.trans_lt hjlt)]
  rcases hij.eq_or_lt with rfl | hlt
  · exact le_rfl
  · exact List.pairwise_iff_getElem.mp (ascending_stableSort id xs) i j _ hjlt hlt

/-- The order statistics are those of the values in any order. -/
theorem orderStatistic_perm (hperm : xs.Perm ys) :
    orderStatistic fallback xs = orderStatistic fallback ys := by
  have hsame : stableSort id xs = stableSort id ys := by
    refine ((stableSort_perm id xs).trans (hperm.trans (stableSort_perm id ys).symm)).eq_of_pairwise
      ?_ (ascending_stableSort id xs) (ascending_stableSort id ys)
    exact fun a b _ _ => le_antisymm
  funext i
  rw [orderStatistic, orderStatistic, hsame]

/-- Values that are nowhere smaller have no smaller order statistics. -/
theorem orderStatistic_le (hle : List.Forall₂ (· ≤ ·) xs ys) (i : ℕ) :
    orderStatistic fallback xs i ≤ orderStatistic fallback ys i := by
  have hsorted := forall₂_stableSort id hle
  rw [orderStatistic, orderStatistic]
  by_cases hi : i < (stableSort id xs).length
  · have hi' : i < (stableSort id ys).length := hsorted.length_eq ▸ hi
    rw [List.getElem?_eq_getElem hi, List.getElem?_eq_getElem hi']
    exact hsorted.get hi hi'
  · have hi' : ¬i < (stableSort id ys).length := hsorted.length_eq ▸ hi
    rw [List.getElem?_eq_none (Nat.not_lt.mp hi), List.getElem?_eq_none (Nat.not_lt.mp hi')]

end Statistics

end OrderStatistics
