import Mathlib.Algebra.Order.Floor.Semiring
import Mathlib.Algebra.Order.Group.MinMax
import Mathlib.Data.Rat.Floor
import Mathlib.Tactic.FieldSimp
import Mathlib.Tactic.Linarith
import PowerForensics.Core.Stats
import PowerForensics.System.Buckets

/-! # Percentiles of a histogram

The monitor counts readings in bins of one width and takes percentiles from the counts. A percentile
is interpolated inside the bin that its rank falls into, which is the bin of the reading of that
rank. The bins begin at the lower end of the range and reach the upper one, and beyond it where the
range is narrower than the least normal number.
-/

namespace PowerForensics.Monitor

open Stats

/-- The operations of a number type that the histogram uses beside those of an integration. -/
class Binned (α : Type) extends Scalar α where
  ofCount : Nat → α
  isFinite : α → Bool
  minPositive : α
  floor : α → α
  toIndex : α → Nat

open Binned

instance : Binned Binary64 where
  ofCount := .ofNat
  isFinite := Binary64.isFinite
  minPositive := .ofMagnitude false (2 ^ 52)
  floor := .floor
  toIndex := Binary64.toUnsigned 64

instance : Binned ℚ where
  ofCount n := n
  isFinite _ := true
  minPositive := 1 / 2 ^ 1022
  floor x := ⌊x⌋
  toIndex x := ⌊x⌋.toNat

section Model

variable {α : Type} [Binned α]

def clampTo (lo hi x : α) : α := if x < lo then lo else if x > hi then hi else x

/-- There is no least and no greatest reading before the first one. -/
structure FixedHistogram (α : Type) where
  lo : α
  invWidth : α
  bins : List Nat
  count : Nat
  sum : α
  min : Option α
  max : Option α

namespace FixedHistogram

def new (lo hi : α) (n : Nat) : FixedHistogram α :=
  let n := Nat.max n 1
  { lo
    invWidth := ofCount n / Max.max (hi - lo) minPositive
    bins := List.replicate n 0
    count := 0
    sum := 0.0
    min := none
    max := none }

/-- Readings outside of the range go to the bins at its ends. -/
def index (h : FixedHistogram α) (v : α) : Nat :=
  toIndex (clampTo 0.0 (ofCount (h.bins.length - 1)) (floor ((v - h.lo) * h.invWidth)))

def push (h : FixedHistogram α) (v : α) : FixedHistogram α :=
  if isFinite v then
    { h with
      count := h.count + 1
      sum := h.sum + v
      min := if h.min.all (v < ·) then some v else h.min
      max := if h.max.all (v > ·) then some v else h.max
      bins := h.bins.modify (h.index v) (· + 1) }
  else h

/-- How far into a bin a rank is, given how many readings are before the bin and in it. -/
def fraction (target : α) (cum c : Nat) : α :=
  if c > 1 then clampTo 0.0 1.0 ((target - ofCount cum) / (ofCount c - 1.0)) else 0.5

/-- The loop over the bins from the one at an index on, with the readings before it. -/
def walk (h : FixedHistogram α) (target : α) : Nat → Nat → List Nat → Option α
  | _, _, [] => none
  | i, cum, c :: bins =>
      if c = 0 then h.walk target (i + 1) cum bins
      else if target < ofCount (cum + c) ∨ i = h.bins.length - 1 then
        some (h.lo + (ofCount i + fraction target cum c) * (1.0 / h.invWidth))
      else h.walk target (i + 1) (cum + c) bins

def percentile (h : FixedHistogram α) (p : α) : Option α :=
  if h.count = 0 ∨ ¬ (0.0 ≤ p ∧ p ≤ 100.0) then none
  else h.walk (p / 100.0 * ofCount (h.count - 1)) 0 0 h.bins

/-- The histogram after some readings. -/
def run (lo hi : α) (n : Nat) (values : List α) : FixedHistogram α :=
  values.foldl push (new lo hi n)

end FixedHistogram

end Model

/-! ## The bins of exact readings -/

section Exact

variable (lo hi : ℚ) (n : Nat)

/-- Where the last bin ends: at the upper end, if the range is at least as wide as the least normal
number. -/
def top : ℚ := max hi (lo + minPositive)

/-- The number of bins is positive. -/
def binCount : Nat := Nat.max n 1

def binWidth : ℚ := (top lo hi - lo) / binCount n

def binRange (i : Nat) : Set ℚ :=
  Set.Icc (lo + i * binWidth lo hi n) (lo + (i + 1) * binWidth lo hi n)

/-- The bin of a reading. -/
def binOf (v : ℚ) : Nat := (FixedHistogram.new lo hi n).index v

variable {lo hi : ℚ} {n : Nat}

theorem zero_literal : (0.0 : ℚ) = 0 := by norm_num

theorem one_literal : (1.0 : ℚ) = 1 := by norm_num

theorem minPositive_pos : (0 : ℚ) < minPositive := by
  change (0 : ℚ) < 1 / 2 ^ 1022
  positivity

theorem lo_lt_top : lo < top lo hi :=
  lt_of_lt_of_le (lt_add_of_pos_right lo minPositive_pos) (le_max_right _ _)

theorem span_eq : max (hi - lo) minPositive = top lo hi - lo := by
  rw [top, ← max_sub_sub_right, add_sub_cancel_left]

theorem binCount_pos : 0 < binCount n := Nat.lt_of_lt_of_le Nat.one_pos (Nat.le_max_right n 1)

theorem binWidth_pos : 0 < binWidth lo hi n :=
  div_pos (sub_pos.mpr lo_lt_top) (Nat.cast_pos.mpr binCount_pos)

theorem invWidth_new : (FixedHistogram.new lo hi n).invWidth = (binWidth lo hi n)⁻¹ := by
  have hspan : (FixedHistogram.new lo hi n).invWidth =
      (binCount n : ℚ) / max (hi - lo) minPositive := rfl
  rw [hspan, span_eq, binWidth, inv_div]

theorem length_bins_new : (FixedHistogram.new lo hi n).bins.length = binCount n :=
  List.length_replicate

/-- The bin of a reading is that of its distance from the lower end, or the last one. -/
theorem binOf_eq (v : ℚ) :
    binOf lo hi n v = min ⌊(v - lo) / binWidth lo hi n⌋₊ (binCount n - 1) := by
  have hindex : binOf lo hi n v = ⌊clampTo 0.0 ((binCount n - 1 : ℕ) : ℚ)
      (⌊(v - lo) * (FixedHistogram.new lo hi n).invWidth⌋ : ℚ)⌋.toNat := by
    rw [binOf, FixedHistogram.index, length_bins_new]
    rfl
  rw [hindex, invWidth_new, ← div_eq_mul_inv, zero_literal, clampTo]
  -- what the clamp takes to zero, the floor in the natural numbers takes there too
  split_ifs with hlow hhigh
  · have hneg : ⌊(v - lo) / binWidth lo hi n⌋ < 0 := by exact_mod_cast hlow
    rw [← Int.floor_toNat, Int.toNat_of_nonpos hneg.le, Nat.zero_min, Int.floor_zero,
      Int.toNat_zero]
  · have hlast : ((binCount n - 1 : ℕ) : ℤ) < ⌊(v - lo) / binWidth lo hi n⌋ := by
      exact_mod_cast hhigh
    rw [Int.floor_natCast, Int.toNat_natCast, ← Int.floor_toNat]
    omega
  · have hinside : ⌊(v - lo) / binWidth lo hi n⌋ ≤ ((binCount n - 1 : ℕ) : ℤ) := by
      exact_mod_cast not_lt.mp hhigh
    rw [Int.floor_intCast, ← Int.floor_toNat]
    omega

theorem binOf_lt (v : ℚ) : binOf lo hi n v < binCount n := by
  have hpos := @binCount_pos n
  rw [binOf_eq]
  omega

theorem binOf_mono {v w : ℚ} (h : v ≤ w) : binOf lo hi n v ≤ binOf lo hi n w := by
  rw [binOf_eq, binOf_eq]
  refine min_le_min_right _ (Nat.floor_mono ?_)
  exact div_le_div_of_nonneg_right (sub_le_sub_right h lo) binWidth_pos.le

theorem binCount_mul_width : (binCount n : ℚ) * binWidth lo hi n = top lo hi - lo := by
  have hne : (binCount n : ℚ) ≠ 0 := Nat.cast_ne_zero.mpr binCount_pos.ne'
  rw [binWidth, mul_div_cancel₀ _ hne]

theorem clampTo_mem {a b : ℚ} (hab : a ≤ b) (v : ℚ) : clampTo a b v ∈ Set.Icc a b := by
  unfold clampTo
  split_ifs with hlow hhigh
  · exact ⟨le_refl a, hab⟩
  · exact ⟨hab, le_refl b⟩
  · exact ⟨not_lt.mp hlow, not_lt.mp hhigh⟩

/-- A reading outside of the range counts as the end that it is beyond. -/
theorem binOf_clampTo (v : ℚ) : binOf lo hi n (clampTo lo (top lo hi) v) = binOf lo hi n v := by
  unfold clampTo
  split_ifs with hlow hhigh
  · have hneg : (v - lo) / binWidth lo hi n ≤ 0 :=
      div_nonpos_of_nonpos_of_nonneg (sub_nonpos.mpr hlow.le) binWidth_pos.le
    rw [binOf_eq, binOf_eq, sub_self, zero_div, Nat.floor_zero, Nat.floor_of_nonpos hneg]
  · have hbins : (top lo hi - lo) / binWidth lo hi n = binCount n := by
      rw [← binCount_mul_width, mul_div_cancel_right₀ _ binWidth_pos.ne']
    have hmany : binCount n ≤ ⌊(v - lo) / binWidth lo hi n⌋₊ := by
      refine Nat.le_floor ?_
      rw [← hbins]
      exact div_le_div_of_nonneg_right (sub_le_sub_right (le_of_lt hhigh) lo) binWidth_pos.le
    rw [binOf_eq, binOf_eq, hbins, Nat.floor_natCast]
    omega
  · rfl

/-- A reading inside the range is in the range of its bin. -/
theorem mem_binRange {v : ℚ} (hv : v ∈ Set.Icc lo (top lo hi)) :
    v ∈ binRange lo hi n (binOf lo hi n v) := by
  have hpos := @binWidth_pos lo hi n
  have hfrac : 0 ≤ (v - lo) / binWidth lo hi n := div_nonneg (sub_nonneg.mpr hv.1) hpos.le
  have hbin : binOf lo hi n v = min ⌊(v - lo) / binWidth lo hi n⌋₊ (binCount n - 1) := binOf_eq v
  constructor
  · have hle : (binOf lo hi n v : ℚ) ≤ (v - lo) / binWidth lo hi n :=
      (Nat.cast_le.mpr (hbin ▸ min_le_left _ _)).trans (Nat.floor_le hfrac)
    rw [le_div_iff₀ hpos] at hle
    linarith
  · by_cases hlast : binOf lo hi n v = binCount n - 1
    · have hcount : ((binOf lo hi n v : ℚ) + 1) = binCount n := by
        rw [hlast, Nat.cast_pred binCount_pos, sub_add_cancel]
      rw [hcount, binCount_mul_width]
      linarith [hv.2]
    · have hfloor : binOf lo hi n v = ⌊(v - lo) / binWidth lo hi n⌋₊ := by omega
      have hlt := Nat.lt_floor_add_one ((v - lo) / binWidth lo hi n)
      rw [← hfloor, div_lt_iff₀ hpos] at hlt
      linarith

/-! ## The state after some readings -/

structure Filled (lo hi : ℚ) (n : Nat) (values : List ℚ) (h : FixedHistogram ℚ) : Prop where
  lo_eq : h.lo = lo
  invWidth : h.invWidth = (binWidth lo hi n)⁻¹
  bins : h.bins = Buckets.counts (binOf lo hi n) (binCount n) values
  count : h.count = values.length

theorem filled_new : Filled lo hi n [] (.new lo hi n) where
  lo_eq := rfl
  invWidth := invWidth_new
  bins := (Buckets.counts_nil _ _).symm
  count := rfl

variable {values : List ℚ} {h : FixedHistogram ℚ}

theorem Filled.index_eq (hh : Filled lo hi n values h) (v : ℚ) : h.index v = binOf lo hi n v := by
  have hlength : h.bins.length = binCount n := by rw [hh.bins, Buckets.length_counts]
  rw [binOf, FixedHistogram.index, FixedHistogram.index, hlength, length_bins_new, hh.lo_eq,
    hh.invWidth, invWidth_new]
  rfl

theorem Filled.push (hh : Filled lo hi n values h) (v : ℚ) :
    Filled lo hi n (values ++ [v]) (h.push v) where
  lo_eq := hh.lo_eq
  invWidth := hh.invWidth
  bins := by
    have hbins : (h.push v).bins = h.bins.modify (h.index v) (· + 1) := rfl
    rw [hbins, hh.index_eq, hh.bins, Buckets.counts_concat]
  count := by
    have hcount : (h.push v).count = h.count + 1 := rfl
    rw [hcount, hh.count, List.length_append, List.length_singleton]

theorem filled_run (lo hi : ℚ) (n : Nat) (values : List ℚ) :
    Filled lo hi n values (.run lo hi n values) := by
  induction values using List.reverseRecOn with
  | nil => exact filled_new
  | append_singleton values v ih =>
      rw [FixedHistogram.run, List.foldl_append, List.foldl_cons, List.foldl_nil]
      exact ih.push v

theorem Filled.sum_bins (hh : Filled lo hi n values h) : h.bins.sum = h.count := by
  rw [hh.bins, hh.count, Buckets.sum_counts fun v _ => binOf_lt v]

/-! ## The loop over the bins -/

open FixedHistogram (fraction)

/-- A rank falls into a bin, given how many readings are before the bin and in it. -/
structure Located (bins : List Nat) (target : ℚ) (i cum c : Nat) : Prop where
  before : (bins.take i).sum = cum
  at_ : bins[i]? = some c
  low : (cum : ℚ) ≤ target
  high : target < (cum + c : ℕ)

/-- What is interpolated in a bin. -/
def interpolated (h : FixedHistogram ℚ) (target : ℚ) (i cum c : Nat) : ℚ :=
  h.lo + (i + fraction target cum c) * (1.0 / h.invWidth)

/-- The loop stops at the bin that the rank falls into; bins that are passed are `front`. -/
theorem walk_spec {target : ℚ} {front bins : List Nat} (hsplit : front ++ bins = h.bins)
    (hlow : (front.sum : ℚ) ≤ target) (hhigh : target < (front.sum + bins.sum : ℕ)) :
    ∃ i cum c, Located h.bins target i cum c ∧
      h.walk target front.length front.sum bins = some (interpolated h target i cum c) := by
  induction bins generalizing front with
  | nil => exact absurd hhigh (not_lt.mpr (by simpa using hlow))
  | cons c bins ih =>
      have hnext : (front ++ [c]) ++ bins = h.bins := by rw [← hsplit]; simp
      have hsum : (front ++ [c]).sum = front.sum + c := by simp
      have hlength : (front ++ [c]).length = front.length + 1 := by simp
      rw [List.sum_cons, ← Nat.add_assoc] at hhigh
      by_cases hhere : target < (front.sum + c : ℕ)
      · have hlocated : Located h.bins target front.length front.sum c := by
          constructor
          · rw [← hsplit, List.take_left' rfl]
          · rw [← hsplit, List.getElem?_append_right (le_refl _), Nat.sub_self]
            rfl
          · exact hlow
          · exact hhere
        refine ⟨_, _, _, hlocated, ?_⟩
        -- the loop passes over empty bins, and no rank falls into one
        have hsome : c ≠ 0 := by
          rintro rfl
          exact absurd hhere (not_lt.mpr hlow)
        have hcast : target < (ofCount (front.sum + c) : ℚ) := hhere
        rw [FixedHistogram.walk, if_neg hsome, if_pos (Or.inl hcast)]
        rfl
      · have hpast : ((front ++ [c]).sum : ℚ) ≤ target := by
          rw [hsum]
          exact not_lt.mp hhere
        rw [← hsum] at hhigh
        obtain ⟨i, cum, d, hlocated, hwalk⟩ := ih hnext hpast hhigh
        refine ⟨i, cum, d, hlocated, ?_⟩
        rw [FixedHistogram.walk]
        split_ifs with hzero hstop
        · rw [← hwalk, hlength, hsum, hzero]
          rfl
        · -- behind the last bin there are no more readings
          exfalso
          have hlast := hstop.resolve_left hhere
          have hall := congrArg List.length hsplit
          rw [List.length_append, List.length_cons] at hall
          have hnil : bins = [] := List.eq_nil_of_length_eq_zero (by omega)
          rw [hnil, List.sum_nil, Nat.add_zero, hsum] at hhigh
          exact hhere hhigh
        · rw [← hwalk, hlength, hsum]

/-- The rank of a percentile. -/
def rankOf (h : FixedHistogram ℚ) (p : ℚ) : ℚ := p / 100 * (h.count - 1 : ℕ)

theorem percentile_eq (hh : Filled lo hi n values h) (hcount : 0 < h.count) {p : ℚ} (hp : 0 ≤ p)
    (hp' : p ≤ 100) :
    ∃ i cum c, Located h.bins (rankOf h p) i cum c ∧
      h.percentile p = some (interpolated h (rankOf h p) i cum c) := by
  have hhundred : (100.0 : ℚ) = 100 := by norm_num
  have hlow : (0 : ℚ) ≤ rankOf h p := mul_nonneg (div_nonneg hp (by norm_num)) (Nat.cast_nonneg _)
  have hhigh : rankOf h p < (h.count : ℚ) := by
    have hle : rankOf h p ≤ ((h.count - 1 : ℕ) : ℚ) :=
      mul_le_of_le_one_left (Nat.cast_nonneg _) ((div_le_one (by norm_num)).mpr hp')
    exact hle.trans_lt (Nat.cast_lt.mpr (Nat.sub_lt hcount Nat.one_pos))
  obtain ⟨i, cum, c, hlocated, hwalk⟩ := @walk_spec h (rankOf h p) [] h.bins rfl
    (by simpa using hlow) (by rw [List.sum_nil, Nat.zero_add, hh.sum_bins]; exact hhigh)
  refine ⟨i, cum, c, hlocated, ?_⟩
  rw [FixedHistogram.percentile, if_neg, hhundred]
  · exact hwalk
  · rw [zero_literal, hhundred]
    exact not_or.mpr ⟨hcount.ne', not_not_intro ⟨hp, hp'⟩⟩

/-! ## What is interpolated -/

theorem fraction_mem (target : ℚ) (cum c : Nat) : fraction target cum c ∈ Set.Icc (0 : ℚ) 1 := by
  unfold fraction
  rw [zero_literal, one_literal]
  split_ifs
  · exact clampTo_mem zero_le_one _
  · constructor <;> norm_num

theorem fraction_mono {s t : ℚ} (hst : s ≤ t) (cum c : Nat) :
    fraction s cum c ≤ fraction t cum c := by
  have hclamp : ∀ {x y : ℚ}, x ≤ y → clampTo (0 : ℚ) 1 x ≤ clampTo 0 1 y := by
    intro x y hxy
    unfold clampTo
    split_ifs <;> linarith
  unfold fraction
  rw [zero_literal, one_literal]
  split_ifs with hmany
  · refine hclamp (div_le_div_of_nonneg_right (sub_le_sub_right hst _) ?_)
    have hone : (1 : ℚ) ≤ (c : ℚ) := by exact_mod_cast hmany.le
    exact sub_nonneg.mpr hone
  · exact le_refl _

theorem Filled.width (hh : Filled lo hi n values h) : 1.0 / h.invWidth = binWidth lo hi n := by
  rw [hh.invWidth, one_literal, one_div, inv_inv]

/-- What is interpolated in a bin is in its range. -/
theorem Filled.interpolated_mem (hh : Filled lo hi n values h) (target : ℚ) (i cum c : Nat) :
    interpolated h target i cum c ∈ binRange lo hi n i := by
  have hpos := (@binWidth_pos lo hi n).le
  obtain ⟨hzero, hone⟩ := fraction_mem target cum c
  rw [interpolated, hh.lo_eq, hh.width]
  constructor
  · have := mul_le_mul_of_nonneg_right (le_add_of_nonneg_right (a := (i : ℚ)) hzero) hpos
    linarith
  · have := mul_le_mul_of_nonneg_right (add_le_add_right hone (i : ℚ)) hpos
    linarith

theorem sum_take_le (bins : List Nat) {i j : Nat} (hij : i ≤ j) :
    (bins.take i).sum ≤ (bins.take j).sum := by
  have hsplit := List.sum_take_add_sum_drop (bins.take j) i
  rw [List.take_take, min_eq_left hij] at hsplit
  omega

theorem Located.succ {bins : List Nat} {target : ℚ} {i cum c : Nat}
    (hl : Located bins target i cum c) : (bins.take (i + 1)).sum = cum + c := by
  rw [List.take_add_one, hl.at_, Option.toList_some, List.sum_append, hl.before,
    List.sum_singleton]

/-- A higher rank gives no less. -/
theorem Filled.interpolated_mono (hh : Filled lo hi n values h) {s t : ℚ} (hst : s ≤ t)
    {i cum c j sum d : Nat} (hs : Located h.bins s i cum c) (ht : Located h.bins t j sum d) :
    interpolated h s i cum c ≤ interpolated h t j sum d := by
  have hpos := (@binWidth_pos lo hi n).le
  -- of different bins the ranges decide, and in one bin the fractions
  rcases lt_trichotomy i j with hlt | rfl | hgt
  · have hleft := (hh.interpolated_mem s i cum c).2
    have hright := (hh.interpolated_mem t j sum d).1
    have hbins : ((i : ℚ) + 1) * binWidth lo hi n ≤ j * binWidth lo hi n := by
      refine mul_le_mul_of_nonneg_right ?_ hpos
      exact_mod_cast hlt
    linarith
  · obtain rfl : cum = sum := hs.before.symm.trans ht.before
    obtain rfl : c = d := Option.some.inj (hs.at_.symm.trans ht.at_)
    have := mul_le_mul_of_nonneg_right (fraction_mono hst cum c) hpos
    rw [interpolated, interpolated, hh.width]
    linarith
  · -- the lower rank would lie behind the higher one
    exfalso
    have hle := sum_take_le h.bins (show j + 1 ≤ i from hgt)
    rw [ht.succ, hs.before] at hle
    have hcast : ((sum + d : ℕ) : ℚ) ≤ cum := Nat.cast_le.mpr hle
    linarith [hs.low, ht.high]

/-! ## The reading of a rank -/

/-- The readings in the range of the bins, in ascending order. -/
def clampedSorted (lo hi : ℚ) (values : List ℚ) : List ℚ :=
  (values.map (clampTo lo (top lo hi))).insertionSort (· ≤ ·)

theorem below_clampedSorted (i : Nat) :
    Buckets.below (binOf lo hi n) i (clampedSorted lo hi values) =
      Buckets.below (binOf lo hi n) i values := by
  rw [clampedSorted, Buckets.below_perm (List.perm_insertionSort _ _), Buckets.below,
    List.countP_map, Buckets.below]
  refine List.countP_congr fun v _ => ?_
  rw [Function.comp_apply, binOf_clampTo]

theorem clampedSorted_ascending :
    (clampedSorted lo hi values).Pairwise fun x y => binOf lo hi n x ≤ binOf lo hi n y :=
  (List.pairwise_insertionSort (· ≤ ·) _).imp fun h => binOf_mono h

/-- The bin that a rank falls into is the bin of the reading of that rank. -/
theorem Filled.located_bin (hh : Filled lo hi n values h) {target : ℚ} {i cum c : Nat}
    (hl : Located h.bins target i cum c) :
    ∃ x, (clampedSorted lo hi values)[⌊target⌋₊]? = some x ∧ x ∈ binRange lo hi n i := by
  have hbins : i < binCount n := by
    have hlt := (List.getElem?_eq_some_iff.mp hl.at_).1
    rwa [hh.bins, Buckets.length_counts] at hlt
  have hcum : Buckets.below (binOf lo hi n) i values = cum := by
    rw [← Buckets.sum_take_counts _ hbins.le, ← hh.bins, hl.before]
  have hnext : Buckets.below (binOf lo hi n) (i + 1) values = cum + c := by
    rw [← Buckets.sum_take_counts _ hbins, ← hh.bins, hl.succ]
  have hzero : (0 : ℚ) ≤ target := (Nat.cast_nonneg cum).trans hl.low
  have hlow : cum ≤ ⌊target⌋₊ := Nat.le_floor hl.low
  have hhigh : ⌊target⌋₊ < cum + c := (Nat.floor_lt hzero).mpr hl.high
  have hinside : ⌊target⌋₊ < (clampedSorted lo hi values).length := by
    have hle := List.countP_le_length (p := fun x => decide (binOf lo hi n x < i + 1))
      (l := clampedSorted lo hi values)
    have hbelow : Buckets.below (binOf lo hi n) (i + 1) (clampedSorted lo hi values) =
        Buckets.below (binOf lo hi n) (i + 1) values := below_clampedSorted (i + 1)
    rw [Buckets.below] at hbelow
    omega
  have hget : (clampedSorted lo hi values)[⌊target⌋₊]? =
      some (clampedSorted lo hi values)[⌊target⌋₊] := List.getElem?_eq_getElem hinside
  refine ⟨_, hget, ?_⟩
  have hbin := Buckets.bucket_eq (clampedSorted_ascending (n := n)) hget
    (by rw [below_clampedSorted, hcum]; exact hlow)
    (by rw [below_clampedSorted, hnext]; exact hhigh)
  obtain ⟨v, -, hv⟩ := List.mem_map.mp
    ((List.mem_insertionSort (· ≤ ·)).mp (List.mem_of_getElem? hget))
  rw [← hbin]
  refine mem_binRange ?_
  rw [← hv]
  exact clampTo_mem lo_lt_top.le v

/-- The counts of the bins add up to the number of readings. As soon as there is one, there is every
percentile, a higher one is not less, and each is in the range of a bin together with the reading of
its rank, where readings count up to the end of the last bin. That is the upper end of the range if
the range is as wide as the least normal number. -/
theorem percentile_sound (lo hi : ℚ) (n : Nat) (values : List ℚ) :
    let h := FixedHistogram.run lo hi n values
    h.bins.sum = h.count ∧
      (0 < h.count → ∀ p, 0 ≤ p → p ≤ 100 → ∃ w, h.percentile p = some w ∧
        ∃ i < binCount n, ∃ x,
          (clampedSorted lo hi values)[⌊p / 100 * (h.count - 1 : ℕ)⌋₊]? = some x ∧
            x ∈ binRange lo hi n i ∧ w ∈ binRange lo hi n i) ∧
      (∀ p q v w, 0 ≤ p → p ≤ q → q ≤ 100 → h.percentile p = some v → h.percentile q = some w →
        v ≤ w) ∧
      (minPositive ≤ hi - lo → top lo hi = hi) := by
  intro h
  have hh : Filled lo hi n values h := filled_run lo hi n values
  refine ⟨hh.sum_bins, ?_, ?_, ?_⟩
  · intro hcount p hp hp'
    obtain ⟨i, cum, c, hlocated, hpercentile⟩ := percentile_eq hh hcount hp hp'
    obtain ⟨x, hx, hxbin⟩ := hh.located_bin hlocated
    have hi := (List.getElem?_eq_some_iff.mp hlocated.at_).1
    rw [hh.bins, Buckets.length_counts] at hi
    exact ⟨_, hpercentile, i, hi, x, hx, hxbin, hh.interpolated_mem _ _ _ _⟩
  · intro p q v w hp hpq hq hv hw
    have hcount : 0 < h.count := by
      by_contra hnone
      rw [FixedHistogram.percentile, if_pos (Or.inl (Nat.eq_zero_of_not_pos hnone))] at hv
      cases hv
    obtain ⟨i, cum, c, hlocated, hpercentile⟩ := percentile_eq hh hcount hp (hpq.trans hq)
    obtain ⟨j, sum, d, hlocated', hpercentile'⟩ := percentile_eq hh hcount (hp.trans hpq) hq
    rw [hv, Option.some.injEq] at hpercentile
    rw [hw, Option.some.injEq] at hpercentile'
    rw [hpercentile, hpercentile']
    refine hh.interpolated_mono ?_ hlocated hlocated'
    apply mul_le_mul_of_nonneg_right _ (Nat.cast_nonneg _)
    exact div_le_div_of_nonneg_right hpq (by norm_num)
  · intro hwide
    exact max_eq_left (by linarith)

end Exact

/-! ## A range narrower than the least normal number -/

def narrow : ℚ := 1 / 2 ^ 1074

theorem binWidth_narrow : binWidth 0 narrow 2 = 1 / 2 ^ 1023 := by
  have hle : narrow ≤ 0 + minPositive := by
    rw [zero_add, narrow]
    exact one_div_le_one_div_of_le (by positivity) (pow_le_pow_right₀ one_le_two (by norm_num))
  have htwo : ((binCount 2 : ℕ) : ℚ) = 2 := by norm_num [binCount]
  have hleast : (minPositive : ℚ) = 1 / 2 ^ 1022 := rfl
  rw [binWidth, top, max_eq_right hle, htwo, add_sub_cancel_left, hleast, div_div, ← pow_succ]

theorem binOf_narrow : binOf 0 narrow 2 1 = 1 := by
  have hmany : 1 ≤ ⌊((1 : ℚ) - 0) / binWidth 0 narrow 2⌋₊ := by
    refine Nat.le_floor ?_
    rw [binWidth_narrow, sub_zero, one_div_one_div, Nat.cast_one]
    exact one_le_pow₀ one_le_two
  have hcount : binCount 2 - 1 = 1 := rfl
  rw [binOf_eq, hcount]
  exact min_eq_right hmany

/-- A reading above the range gives a percentile above it, which shares no bin with the upper
end. -/
theorem percentile_beyond :
    ∃ w, (FixedHistogram.run 0 narrow 2 [1]).percentile 50 = some w ∧ narrow < w ∧
      ¬ ∃ i < 2, clampTo 0 narrow 1 ∈ binRange 0 narrow 2 i ∧ w ∈ binRange 0 narrow 2 i := by
  have hh := filled_run 0 narrow 2 [1]
  -- the reading is in the second bin, which begins behind the upper end
  have hbins : (FixedHistogram.run 0 narrow 2 [1]).bins = [0, 1] := by
    have htwo : binCount 2 = 2 := rfl
    rw [hh.bins, htwo]
    simp [Buckets.counts, List.range_succ, binOf_narrow]
  have hzero : rankOf (FixedHistogram.run 0 narrow 2 [1]) 50 = 0 := by
    rw [rankOf, hh.count]
    norm_num
  have hcount : 0 < (FixedHistogram.run 0 narrow 2 [1]).count := by
    rw [hh.count]
    exact Nat.one_pos
  obtain ⟨i, cum, c, hlocated, hpercentile⟩ := percentile_eq hh hcount
    (show (0 : ℚ) ≤ 50 by norm_num) (by norm_num)
  rw [hzero, hbins] at hlocated
  obtain ⟨rfl, rfl, rfl⟩ : i = 1 ∧ cum = 0 ∧ c = 1 := by
    obtain ⟨hbefore, hget, -, hhigh⟩ := hlocated
    rcases i with _ | _ | i
    · obtain rfl := Option.some.inj hget
      subst hbefore
      norm_num at hhigh
    · exact ⟨rfl, hbefore.symm, (Option.some.inj hget).symm⟩
    · cases hget
  have hwidth : (0 : ℚ) < binWidth 0 narrow 2 := binWidth_pos
  have hinterpolated : interpolated (FixedHistogram.run 0 narrow 2 [1]) 0 1 0 1 =
      (1 + 1 / 2) * binWidth 0 narrow 2 := by
    rw [interpolated, hh.lo_eq, hh.width]
    norm_num [FixedHistogram.fraction]
  have hnarrow : narrow < binWidth 0 narrow 2 := by
    rw [binWidth_narrow, narrow]
    exact one_div_lt_one_div_of_lt (by positivity) (pow_lt_pow_right₀ one_lt_two (by norm_num))
  rw [hzero, hinterpolated] at hpercentile
  refine ⟨_, hpercentile, by linarith, ?_⟩
  have hclamped : clampTo 0 narrow 1 ≤ narrow :=
    (clampTo_mem (by rw [narrow]; positivity) 1).2
  rintro ⟨i, hi, hclamp, hw⟩
  rcases i with _ | _ | i
  · have := hw.2
    norm_num at this
    linarith
  · have := hclamp.1
    norm_num at this
    linarith
  · omega

end PowerForensics.Monitor
