import Mathlib.Data.Rat.Floor
import PowerForensics.Core.Stats
import PowerForensics.System.OrderStatistics

/-! # Percentiles at exact numbers

The percentiles are written once over the operations that they use. At binary64 numbers they are
those of the program, and at exact rationals they are order statistics and the values between them.
-/

namespace PowerForensics.Stats

open Merging OrderStatistics

/-- The operations of a number type that a percentile uses beside those of an integration. -/
class Ranked (α : Type) extends Scalar α where
  ofCount : Nat → α
  floorIndex : α → Nat
  ceilIndex : α → Nat
  /-- The order by which values are sorted. -/
  before : α → α → Prop
  decBefore : DecidableRel before

attribute [instance] Ranked.decBefore

instance : Ranked Binary64 where
  ofCount := .ofNat
  floorIndex r := r.floor.toUnsigned 64
  ceilIndex r := r.ceil.toUnsigned 64
  before x y := x.totalRank ≤ y.totalRank
  decBefore _ _ := inferInstance

instance : Ranked ℚ where
  ofCount n := n
  floorIndex r := ⌊r⌋₊
  ceilIndex r := ⌈r⌉₊
  before x y := x ≤ y
  decBefore _ _ := inferInstance

section Generic

variable {α : Type} [Ranked α]

/-- The place of a percentile among so many values. -/
def rankOf (n : Nat) (p : α) : α := p / 100.0 * Ranked.ofCount (n - 1)

def percentileOf (values : List α) (p : α) : Option α :=
  if values = [] ∨ ¬ ((0.0 : α) ≤ p ∧ p ≤ (100.0 : α)) then none
  else
    let sorted := values.insertionSort Ranked.before
    let rank := rankOf values.length p
    let lo := Ranked.floorIndex rank
    let hi := Ranked.ceilIndex rank
    if lo = hi then some (at_ sorted lo)
    else
      let frac := rank - Ranked.ofCount lo
      some (at_ sorted lo * (1.0 - frac) + at_ sorted hi * frac)

def medianOf (values : List α) : Option α := percentileOf values 50.0

end Generic

theorem rankOf_binary64 (n : Nat) (p : Binary64) :
    rankOf n p = p / 100.0 * .ofNat (n - 1) := rfl

/-- At binary64 numbers it is the percentile that the program takes. -/
theorem percentileOf_binary64 (values : List Binary64) (p : Binary64) :
    percentileOf values p = percentileSorted values p := by
  rw [percentileOf, percentileSorted]
  by_cases h : values = [] ∨ ¬ ((0.0 : Binary64) ≤ p ∧ p ≤ (100.0 : Binary64))
  · rw [if_pos h, if_pos h]
  · rw [if_neg h, if_neg h]
    dsimp only
    rw [rankOf_binary64]
    set rank := p / 100.0 * Binary64.ofNat (values.length - 1)
    by_cases hlo : rank.floor.toUnsigned 64 = rank.ceil.toUnsigned 64
    · rw [if_pos hlo]
      exact if_pos hlo
    · rw [if_neg hlo]
      exact if_neg hlo

/-! ## At exact rationals -/

theorem rankOf_rat (n : Nat) (p : ℚ) : rankOf n p = p / 100 * ((n - 1 : ℕ) : ℚ) := by
  have hhundred : (100.0 : ℚ) = 100 := by norm_num
  change p / (100.0 : ℚ) * _ = _
  rw [hhundred]
  rfl

theorem at_sorted (values : List ℚ) (i : Nat) :
    at_ (values.insertionSort Ranked.before) i = orderStatistic 0 values i := by
  have hzero : (0.0 : ℚ) = 0 := by norm_num
  rw [orderStatistic, ← hzero]
  rfl

/-- A percentile is the value between the order statistics at its rank. -/
theorem percentileOf_rat {values : List ℚ} (hvalues : values ≠ []) {p : ℚ} (hp : 0 ≤ p)
    (hp' : p ≤ 100) : percentileOf values p =
      some (between (orderStatistic 0 values) (rankOf values.length p)) := by
  have hzero : (0.0 : ℚ) = 0 := by norm_num
  have hone : (1.0 : ℚ) = 1 := by norm_num
  have hhundred : (100.0 : ℚ) = 100 := by norm_num
  have hrank : 0 ≤ rankOf values.length p := by
    rw [rankOf_rat]
    positivity
  have hrange : ¬(values = [] ∨ ¬((0.0 : ℚ) ≤ p ∧ p ≤ (100.0 : ℚ))) := by
    rw [hzero, hhundred]
    tauto
  rw [percentileOf]
  refine (if_neg hrange).trans ?_
  dsimp only
  rw [at_sorted, at_sorted]
  set r := rankOf values.length p
  change (if ⌊r⌋₊ = ⌈r⌉₊ then _ else some (_ * ((1.0 : ℚ) - (r - (⌊r⌋₊ : ℚ))) + _)) = _
  rw [hone]
  split
  next hindex =>
    have hpart := part_eq_zero hrank hindex
    rw [between, blend, hpart, sub_zero, mul_one, mul_zero, add_zero]
    rfl
  next => rfl

section Exact

variable {values : List ℚ} {p q : ℚ}

theorem rankOf_nonneg (n : Nat) (hp : 0 ≤ p) : 0 ≤ rankOf n p := by
  rw [rankOf_rat]
  positivity

theorem rankOf_mono (n : Nat) (hpq : p ≤ q) : rankOf n p ≤ rankOf n q := by
  rw [rankOf_rat, rankOf_rat]
  gcongr

theorem rankOf_le (n : Nat) (hp : p ≤ 100) : rankOf n p ≤ ((n - 1 : ℕ) : ℚ) := by
  have hpart : p / 100 ≤ 1 := (div_le_one (by norm_num)).mpr hp
  rw [rankOf_rat]
  exact mul_le_of_le_one_left (Nat.cast_nonneg _) hpart

theorem ceil_rankOf_lt (hvalues : values ≠ []) (hp : p ≤ 100) :
    ⌈rankOf values.length p⌉₊ < values.length := by
  have hlast := Nat.ceil_le.mpr (rankOf_le values.length hp)
  have hlength := List.length_pos_iff.mpr hvalues
  omega

theorem floor_rankOf_lt (hvalues : values ≠ []) (hp : p ≤ 100) :
    ⌊rankOf values.length p⌋₊ < values.length :=
  (Nat.floor_le_ceil _).trans_lt (ceil_rankOf_lt hvalues hp)

theorem mono_values (hvalues : values ≠ []) :
    MonotoneOn (orderStatistic 0 values) (Set.Iic (values.length - 1)) :=
  orderStatistic_mono (Nat.sub_lt (List.length_pos_iff.mpr hvalues) Nat.one_pos)

/-- The percentiles are those of the values in any order. -/
theorem percentileOf_perm {values' : List ℚ} (hperm : values.Perm values') (hvalues : values ≠ [])
    (hp : 0 ≤ p) (hp' : p ≤ 100) : percentileOf values' p = percentileOf values p := by
  have hvalues' : values' ≠ [] := by
    rintro rfl
    exact hvalues (List.perm_nil.mp hperm)
  rw [percentileOf_rat hvalues hp hp', percentileOf_rat hvalues' hp hp', hperm.length_eq,
    orderStatistic_perm hperm]

/-- Values that are nowhere smaller have no smaller percentile. -/
theorem percentileOf_le {values' : List ℚ} (hle : List.Forall₂ (· ≤ ·) values values')
    (hvalues : values ≠ []) (hp : 0 ≤ p) (hp' : p ≤ 100) :
    ∃ v v', percentileOf values p = some v ∧ percentileOf values' p = some v' ∧ v ≤ v' := by
  have hvalues' : values' ≠ [] := by
    rintro rfl
    exact hvalues (List.forall₂_nil_right_iff.mp hle)
  refine ⟨_, _, percentileOf_rat hvalues hp hp', percentileOf_rat hvalues' hp hp', ?_⟩
  rw [← hle.length_eq]
  exact between_le_between (fun i _ => orderStatistic_le hle i) (rankOf_nonneg _ hp)
    (rankOf_le _ hp')

theorem forall₂_set {i : Nat} {x : ℚ} (hx : ∀ y, values[i]? = some y → y ≤ x) :
    List.Forall₂ (· ≤ ·) values (values.set i x) := by
  refine List.forall₂_iff_get.mpr ⟨(List.length_set ..).symm, fun k hk _ => ?_⟩
  rw [List.get_eq_getElem, List.get_eq_getElem, List.getElem_set]
  split
  next heq =>
    subst heq
    exact hx _ (List.getElem?_eq_getElem hk)
  next => exact le_rfl

/-- A percentile is somewhere between the least and the greatest value. -/
theorem between_extremes (hvalues : values ≠ []) (hp : 0 ≤ p) (hp' : p ≤ 100) :
    ∃ least ∈ values, ∃ greatest ∈ values, (∀ x ∈ values, least ≤ x ∧ x ≤ greatest) ∧
      least ≤ between (orderStatistic 0 values) (rankOf values.length p) ∧
      between (orderStatistic 0 values) (rankOf values.length p) ≤ greatest := by
  have hlength := List.length_pos_iff.mpr hvalues
  have hmono := mono_values hvalues
  have hlast : values.length - 1 < values.length := Nat.sub_lt hlength Nat.one_pos
  have hceil := ceil_rankOf_lt hvalues hp'
  have hfloor := floor_rankOf_lt hvalues hp'
  refine ⟨orderStatistic 0 values 0, orderStatistic_mem hlength,
    orderStatistic 0 values (values.length - 1), orderStatistic_mem hlast, fun x hx => ?_, ?_, ?_⟩
  · obtain ⟨i, hi, rfl⟩ := List.getElem_of_mem ((stableSort_perm id values).mem_iff.mpr hx)
    have hi' : i ≤ values.length - 1 := by
      rw [length_stableSort] at hi
      omega
    rw [← orderStatistic_eq hi]
    exact ⟨hmono (Nat.zero_le _) hi' (Nat.zero_le i), hmono hi' (Set.mem_Iic.mpr le_rfl) hi'⟩
  · exact (hmono (Nat.zero_le _) (Nat.le_sub_one_of_lt hfloor) (Nat.zero_le _)).trans
      (floor_le_between hmono (rankOf_nonneg _ hp) (rankOf_le _ hp'))
  · exact (between_le_ceil hmono (rankOf_le _ hp')).trans
      (hmono (Nat.le_sub_one_of_lt hceil) (Set.mem_Iic.mpr le_rfl) (Nat.le_sub_one_of_lt hceil))

/-- A percentile is between the two values next to its rank. -/
theorem between_neighbours (hvalues : values ≠ []) (hp : 0 ≤ p) (hp' : p ≤ 100) :
    ∃ below above, (stableSort id values)[⌊rankOf values.length p⌋₊]? = some below ∧
      (stableSort id values)[⌈rankOf values.length p⌉₊]? = some above ∧
      below ≤ between (orderStatistic 0 values) (rankOf values.length p) ∧
      between (orderStatistic 0 values) (rankOf values.length p) ≤ above := by
  have hmono := mono_values hvalues
  have hfloor := (floor_rankOf_lt hvalues hp').trans_eq (length_stableSort values).symm
  have hceil := (ceil_rankOf_lt hvalues hp').trans_eq (length_stableSort values).symm
  refine ⟨_, _, List.getElem?_eq_getElem hfloor, List.getElem?_eq_getElem hceil, ?_, ?_⟩
  · rw [← orderStatistic_eq hfloor]
    exact floor_le_between hmono (rankOf_nonneg _ hp) (rankOf_le _ hp')
  · rw [← orderStatistic_eq hceil]
    exact between_le_ceil hmono (rankOf_le _ hp')

/-- Percentiles are order statistics: they do not see the order of the values, they are between
the extremes and between the values next to their rank, and they grow with the percentage and with
every single value. -/
theorem percentile_order_statistic (hvalues : values ≠ []) (hp : 0 ≤ p) (hpq : p ≤ q)
    (hq : q ≤ 100) :
    ∃ v w, percentileOf values p = some v ∧ percentileOf values q = some w ∧ v ≤ w ∧
      (∀ values', values.Perm values' → percentileOf values' p = some v) ∧
      (∃ least ∈ values, ∃ greatest ∈ values, (∀ x ∈ values, least ≤ x ∧ x ≤ greatest) ∧
        least ≤ v ∧ v ≤ greatest) ∧
      (∃ below above, (stableSort id values)[⌊rankOf values.length p⌋₊]? = some below ∧
        (stableSort id values)[⌈rankOf values.length p⌉₊]? = some above ∧
        below ≤ v ∧ v ≤ above) ∧
      ∀ i x, (∀ y, values[i]? = some y → y ≤ x) →
        ∃ v', percentileOf (values.set i x) p = some v' ∧ v ≤ v' := by
  have hp' : p ≤ 100 := hpq.trans hq
  have hv := percentileOf_rat hvalues hp hp'
  refine ⟨_, _, hv, percentileOf_rat hvalues (hp.trans hpq) hq, ?_, ?_, ?_, ?_, ?_⟩
  · exact between_mono (mono_values hvalues) (rankOf_nonneg _ hp) (rankOf_mono _ hpq)
      (rankOf_le _ hq)
  · intro values' hperm
    rw [percentileOf_perm hperm hvalues hp hp', hv]
  · exact between_extremes hvalues hp hp'
  · exact between_neighbours hvalues hp hp'
  · intro i x hx
    obtain ⟨v, v', hv₀, hv', hle⟩ := percentileOf_le (forall₂_set hx) hvalues hp hp'
    obtain rfl := Option.some.inj (hv₀.symm.trans hv)
    exact ⟨v', hv', hle⟩

theorem quartile_le_median : ∃ v w, percentileOf [3, 1, (2 : ℚ)] 25 = some v ∧
    percentileOf [3, 1, (2 : ℚ)] 50 = some w ∧ v ≤ w := by
  obtain ⟨v, w, hv, hw, hle, -⟩ := percentile_order_statistic (List.cons_ne_nil 3 [1, (2 : ℚ)])
    (p := 25) (q := 50) (by norm_num) (by norm_num) (by norm_num)
  exact ⟨v, w, hv, hw, hle⟩

end Exact

end PowerForensics.Stats
