import Mathlib.Algebra.Order.Floor.Div
import Mathlib.Data.List.Basic
import Mathlib.Data.Nat.Basic
import Mathlib.Order.Basic
import Mathlib.Tactic.Ring

/-! # Counts by bucket

Elements are counted by the bucket they go to. In a list whose buckets ascend, the element of a rank
is in the bucket whose count the rank falls into when the counts are added up from the first one.
-/

namespace Buckets

variable {α : Type} (bucket : α → Nat)

/-- How many elements there are of each of the first buckets. -/
def counts (n : Nat) (xs : List α) : List Nat :=
  (List.range n).map fun i => xs.countP fun x => bucket x = i

/-- How many elements are in buckets before one. -/
def below (i : Nat) (xs : List α) : Nat := xs.countP fun x => bucket x < i

@[simp] theorem length_counts (n : Nat) (xs : List α) : (counts bucket n xs).length = n := by
  simp [counts]

theorem counts_nil (n : Nat) : counts bucket n [] = List.replicate n 0 := by
  simp [counts, List.map_const']

theorem below_succ (i : Nat) (xs : List α) :
    below bucket (i + 1) xs = below bucket i xs + xs.countP fun x => bucket x = i := by
  induction xs with
  | nil => rfl
  | cons x xs ih =>
      simp only [below, List.countP_cons, decide_eq_true_eq] at ih ⊢
      rw [ih]
      split_ifs <;> omega

theorem sum_take_counts {n i : Nat} (hi : i ≤ n) (xs : List α) :
    ((counts bucket n xs).take i).sum = below bucket i xs := by
  induction i with
  | zero => simp [below]
  | succ i ih =>
      have hget : (counts bucket n xs)[i]? = some (xs.countP fun x => bucket x = i) := by
        simp [counts, List.getElem?_range (show i < n by omega)]
      rw [List.take_add_one, hget, Option.toList_some, List.sum_append, ih (by omega),
        List.sum_singleton, below_succ]

variable {bucket}

theorem below_eq_length {n : Nat} {xs : List α} (hxs : ∀ x ∈ xs, bucket x < n) :
    below bucket n xs = xs.length := by
  rw [below, List.countP_eq_length]
  simpa using hxs

theorem sum_counts {n : Nat} {xs : List α} (hxs : ∀ x ∈ xs, bucket x < n) :
    (counts bucket n xs).sum = xs.length := by
  rw [← below_eq_length hxs, ← sum_take_counts bucket (le_refl n) xs, List.take_of_length_le]
  rw [length_counts]

/-- One element more adds one to the count of its bucket. -/
theorem counts_concat (n : Nat) (xs : List α) (x : α) :
    counts bucket n (xs ++ [x]) = (counts bucket n xs).modify (bucket x) (· + 1) := by
  refine List.ext_getElem (by simp) fun i hleft hright => ?_
  rw [List.getElem_modify]
  simp only [counts, List.getElem_map, List.getElem_range, List.countP_append,
    List.countP_singleton, decide_eq_true_eq]
  split_ifs <;> rfl

/-- Where the buckets ascend, the elements of buckets before one come first. -/
theorem bucket_lt_iff {xs : List α} (hxs : xs.Pairwise fun x y => bucket x ≤ bucket y) {r : Nat}
    {x : α} (hx : xs[r]? = some x) (i : Nat) : bucket x < i ↔ r < below bucket i xs := by
  induction xs generalizing r with
  | nil => cases hx
  | cons first xs ih =>
      obtain ⟨hfirst, hrest⟩ := List.pairwise_cons.mp hxs
      by_cases hlow : bucket first < i
      · have hbelow : below bucket i (first :: xs) = below bucket i xs + 1 := by
          rw [below, List.countP_cons_of_pos (by simpa using hlow)]
          rfl
        cases r with
        | zero =>
            obtain rfl := Option.some.inj hx
            rw [hbelow]
            exact iff_of_true hlow (Nat.succ_pos _)
        | succ r =>
            rw [List.getElem?_cons_succ] at hx
            rw [hbelow, ih hrest hx, Nat.succ_lt_succ_iff]
      · have hall : ∀ y ∈ first :: xs, ¬ bucket y < i := by
          intro y hy
          rcases List.mem_cons.mp hy with rfl | hmem
          · exact hlow
          · have := hfirst y hmem
            omega
        have hnone : below bucket i (first :: xs) = 0 := by
          rw [below, List.countP_eq_zero]
          simpa using hall
        rw [hnone]
        exact iff_of_false (hall x (List.mem_of_getElem? hx)) (Nat.not_lt_zero r)

/-- The bucket of a rank. -/
theorem bucket_eq {xs : List α} (hxs : xs.Pairwise fun x y => bucket x ≤ bucket y) {r i : Nat}
    {x : α} (hx : xs[r]? = some x) (hlow : below bucket i xs ≤ r)
    (hhigh : r < below bucket (i + 1) xs) : bucket x = i := by
  have hge := mt (bucket_lt_iff hxs hx i).mp (Nat.not_lt.mpr hlow)
  have hlt := (bucket_lt_iff hxs hx (i + 1)).mpr hhigh
  omega

theorem below_perm {xs ys : List α} (h : xs.Perm ys) (i : Nat) :
    below bucket i xs = below bucket i ys := h.countP_eq _

end Buckets

/-! ## Tiles of one width

An interval is cut into tiles of one width, of which the last one may be narrower. The tiles
follow one another without gaps, and each place of the interval is in the tile that its distance
from the beginning, divided by the width, gives. What is counted tile by tile adds up.
-/

namespace Tiles

/-- Intervals that follow one another from one place to another, none of them empty. -/
def Tiled : Nat → List (Nat × Nat) → Nat → Prop
  | lo, [], hi => lo = hi
  | lo, tile :: tiles, hi => tile.1 = lo ∧ tile.1 < tile.2 ∧ Tiled tile.2 tiles hi

theorem tiled_append {lo mid hi : Nat} {tiles tiles' : List (Nat × Nat)}
    (h : Tiled lo tiles mid) (h' : Tiled mid tiles' hi) : Tiled lo (tiles ++ tiles') hi := by
  induction tiles generalizing lo with
  | nil =>
      rw [Tiled] at h
      exact h ▸ h'
  | cons tile tiles ih => exact ⟨h.1, h.2.1, ih h.2.2⟩

/-- Where tiles end, the last one does. -/
theorem end_of_tiled {lo hi : Nat} {tiles : List (Nat × Nat)} {tile : Nat × Nat}
    (h : Tiled lo (tiles ++ [tile]) hi) : tile.2 = hi := by
  induction tiles generalizing lo with
  | nil => exact h.2.2
  | cons first tiles ih => exact ih h.2.2

section Width

variable (lo hi width : Nat)

/-- How many tiles there are. -/
def count : Nat := (hi - lo + width - 1) / width

/-- The tile at an index. -/
def tile (i : Nat) : Nat × Nat := (lo + i * width, min (lo + (i + 1) * width) hi)

variable {lo hi width}

theorem lt_count (hwidth : 0 < width) {i : Nat} : i < count lo hi width ↔ lo + i * width < hi := by
  have hdiv : i < count lo hi width ↔ i + 1 ≤ (hi - lo + width - 1) / width := Iff.rfl
  rw [hdiv, Nat.le_div_iff_mul_le hwidth, Nat.succ_mul]
  omega

/-- The tiles up to an index. -/
theorem tiled_range (hwidth : 0 < width) {n : Nat} (hn : n ≤ count lo hi width) (hlo : lo ≤ hi) :
    Tiled lo ((List.range n).map (tile lo hi width)) (min (lo + n * width) hi) := by
  induction n with
  | zero =>
      rw [Nat.zero_mul, Nat.add_zero, Nat.min_eq_left hlo]
      rfl
  | succ n ih =>
      have hlt : lo + n * width < hi := (lt_count hwidth).mp hn
      have hmul : (n + 1) * width = n * width + width := Nat.succ_mul n width
      rw [List.range_succ, List.map_append, List.map_singleton]
      refine tiled_append (ih (Nat.le_of_succ_le hn)) ⟨?_, ?_, rfl⟩
      · rw [tile, Nat.min_eq_left hlt.le]
      · rw [tile]
        dsimp only
        omega

/-- The tiles cover the interval. -/
theorem tiled_count (hwidth : 0 < width) (hlo : lo ≤ hi) :
    Tiled lo ((List.range (count lo hi width)).map (tile lo hi width)) hi := by
  have hend : ¬lo + count lo hi width * width < hi := fun hlt =>
    absurd ((lt_count hwidth).mpr hlt) (Nat.lt_irrefl _)
  have htiled := tiled_range hwidth (Nat.le_refl (count lo hi width)) hlo
  rwa [Nat.min_eq_right (Nat.not_lt.mp hend)] at htiled

/-- A place is in the tile that its distance from the beginning gives. -/
theorem mem_tile_iff (hwidth : 0 < width) {i x : Nat} (hx : x < hi) :
    lo ≤ x ∧ (x - lo) / width = i ↔ (tile lo hi width i).1 ≤ x ∧ x < (tile lo hi width i).2 := by
  have hmul : (i + 1) * width = i * width + width := Nat.succ_mul i width
  rw [tile, Nat.div_eq_iff hwidth, hmul]
  dsimp only
  omega

end Width

/-! ## Counting -/

theorem countP_lt_succ {α : Type} (p : α → Bool) (f : α → Nat) (l : List α) (n : Nat) :
    (l.countP fun x => p x && decide (f x < n + 1)) =
      (l.countP fun x => p x && decide (f x < n)) + l.countP fun x => p x && f x == n := by
  induction l with
  | nil => rfl
  | cons a l ih =>
      simp only [List.countP_cons, ih]
      cases p a with
      | false => simp
      | true =>
          obtain hlt | heq | hgt := Nat.lt_trichotomy (f a) n
          · simp [hlt, hlt.ne, Nat.lt_succ_of_lt hlt]
            omega
          · simp [heq]
            omega
          · have hnot : ¬f a < n + 1 := by omega
            simp [hgt.ne', hnot, Nat.not_lt.mpr hgt.le]

/-- What is counted at each index up to one adds up. -/
theorem foldr_countP {α : Type} (p : α → Bool) (f : α → Nat) (l : List α) (n : Nat) :
    ((List.range n).map fun i => l.countP fun x => p x && f x == i).foldr (· + ·) 0 =
      l.countP fun x => p x && decide (f x < n) := by
  induction n with
  | zero => simp
  | succ n ih =>
      have hsum : ∀ l : List Nat, l.foldr (· + ·) 0 = l.sum := fun _ => rfl
      rw [hsum] at ih
      rw [hsum, List.range_succ, List.map_append, List.sum_append, ih, List.map_singleton,
        List.sum_singleton, countP_lt_succ]

end Tiles
