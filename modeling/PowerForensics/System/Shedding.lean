import Mathlib.Data.List.Induction

/-! # Shedding a surplus

Elements with weights are given up from the front of a list until what is left fits a budget.
The elements given up are the fewest that do. A list of bounded length gives up its first element
for a new one, and holds the newest of all that were entered.
-/

namespace Shedding

variable {α : Type} (weight : α → Nat)

def total (l : List α) : Nat := l.foldr (fun a n => weight a + n) 0

theorem total_cons (a : α) (l : List α) : total weight (a :: l) = weight a + total weight l := rfl

theorem total_append (l more : List α) :
    total weight (l ++ more) = total weight l + total weight more := by
  induction l with
  | nil => exact (Nat.zero_add _).symm
  | cons a l ih => rw [List.cons_append, total_cons, total_cons, ih, Nat.add_assoc]

theorem total_perm {l other : List α} (h : l.Perm other) : total weight l = total weight other := by
  induction h with
  | nil => rfl
  | cons a _ ih => rw [total_cons, total_cons, ih]
  | swap a b l => simp only [total_cons, Nat.add_left_comm]
  | trans _ _ ih ih' => exact ih.trans ih'

/-- What is given up of a list to make up for an excess. -/
def shed : Nat → List α → List α
  | _, [] => []
  | excess, a :: l => if excess = 0 then [] else a :: shed (excess - weight a) l

/-- For a smaller excess no more is given up. -/
theorem shed_le_shed {few many : Nat} (h : few ≤ many) (l : List α) :
    shed weight few l <+: shed weight many l := by
  induction l generalizing few many with
  | nil => exact List.prefix_rfl
  | cons a l ih =>
      rw [shed, shed]
      split
      next => exact List.nil_prefix
      next hfew =>
        rw [if_neg (by omega)]
        exact List.cons_prefix_cons.mpr ⟨rfl, ih (by omega)⟩

/-- The rest fits the budget, but not together with the last element given up. -/
theorem shed_spec (budget : Nat) (l : List α) :
    ∃ kept, l = shed weight (total weight l - budget) l ++ kept ∧ total weight kept ≤ budget ∧
      ∀ last ∈ (shed weight (total weight l - budget) l).getLast?,
        budget < weight last + total weight kept := by
  induction l with
  | nil => exact ⟨[], rfl, Nat.zero_le _, nofun⟩
  | cons a l ih =>
      obtain ⟨kept, hl, hfits, hlast⟩ := ih
      rw [shed, total_cons]
      split
      next hexcess => exact ⟨a :: l, rfl, by rw [total_cons]; omega, nofun⟩
      next hexcess =>
        have hrest : weight a + total weight l - budget - weight a = total weight l - budget := by
          omega
        rw [hrest]
        refine ⟨kept, congrArg (a :: ·) hl, hfits, ?_⟩
        cases hshed : shed weight (total weight l - budget) l with
        | nil =>
            rw [hshed, List.nil_append] at hl
            rintro last hmem
            obtain rfl : a = last := by simpa using hmem
            rw [← hl]
            omega
        | cons b more =>
            rw [hshed] at hlast
            rwa [List.getLast?_cons_cons]

/-! ## Lists of bounded length -/

/-- Enter an element in a list that may be full. -/
def enter (cap : Nat) (l : List α) (a : α) : List α := (if l.length ≥ cap then l.tail else l) ++ [a]

/-- The last elements of a list, as many as there may be. -/
def newest (cap : Nat) (l : List α) : List α := l.drop (l.length - cap)

theorem enter_newest {cap : Nat} (hcap : 0 < cap) (l : List α) (a : α) :
    enter cap (newest cap l) a = newest cap (l ++ [a]) := by
  have hlength : (newest cap l).length = l.length - (l.length - cap) := List.length_drop
  have hconcat : (l ++ [a]).length = l.length + 1 := by simp
  unfold enter
  split
  next hfull =>
    have hdrop : (l ++ [a]).length - cap = l.length - cap + 1 := by omega
    rw [newest, newest, List.tail_drop, hdrop, List.drop_append_of_le_length (by omega)]
  next hroom =>
    have hzero : l.length - cap = 0 := by omega
    have hzero' : (l ++ [a]).length - cap = 0 := by omega
    rw [newest, newest, hzero, hzero', List.drop_zero, List.drop_zero]

/-- The newest of the newest are the newest of all. -/
theorem newest_newest {n cap : Nat} (h : n ≤ cap) (l : List α) :
    newest n (newest cap l) = newest n l := by
  have hlength : (newest cap l).length = l.length - (l.length - cap) := List.length_drop
  rw [newest, hlength, newest, newest, List.drop_drop]
  congr 1
  omega

theorem newest_map {β : Type} (f : α → β) (cap : Nat) (l : List α) :
    newest cap (l.map f) = (newest cap l).map f := by
  rw [newest, newest, List.length_map, List.map_drop]

/-- What was given up, and what is still there. -/
theorem take_append_newest (cap : Nat) (l : List α) :
    l.take (l.length - cap) ++ newest cap l = l := List.take_append_drop _ l

/-- If anything was given up, the list is full. -/
theorem length_newest {cap : Nat} {l : List α} {a : α} (ha : a ∈ l.take (l.length - cap)) :
    (newest cap l).length = cap := by
  have hlong : 0 < l.length - cap := by
    by_contra hshort
    rw [Nat.le_zero.mp (Nat.not_lt.mp hshort), List.take_zero] at ha
    exact List.not_mem_nil ha
  rw [newest, List.length_drop]
  omega

end Shedding
