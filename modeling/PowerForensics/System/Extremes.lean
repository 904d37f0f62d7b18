import Mathlib.Algebra.Order.Ring.Nat
import Mathlib.Data.List.Induction
import Mathlib.Data.List.MinMax

/-! # The first extreme of a list

A search remembers the first value and replaces it by every value that beats it. It ends at the
value that beats all before it and that none behind it beats, apart from what is no number: this
neither beats nor is beaten, so it is only found if it comes first. Where values are compared by a
key, the search ends at the first of the least.
-/

namespace Extremes

variable {α : Type}

/-- Values among which those that are numbers are ordered. -/
structure Ordered (beats : α → α → Bool) (number : α → Prop) : Prop where
  numbers : ∀ w v, beats w v = true → number w ∧ number v
  asymm : ∀ w v, beats w v = true → beats v w = false
  trans : ∀ w v u, beats w v = true → beats u v = false → number u → beats w u = true

/-- One step of the search, with the place of the value. -/
def better (beats : α → α → Bool) (best : Option (Nat × α)) (entry : Option α × Nat) :
    Option (Nat × α) :=
  match entry.1, best with
  | none, best => best
  | some v, none => some (entry.2, v)
  | some v, some (i, u) => if beats v u then some (entry.2, v) else some (i, u)

def extreme (beats : α → α → Bool) (values : List (Option α)) : Option (Nat × α) :=
  values.zipIdx.foldl (better beats) none

theorem extreme_append (beats : α → α → Bool) (values : List (Option α)) (x : Option α) :
    extreme beats (values ++ [x]) = better beats (extreme beats values) (x, values.length) := by
  simp [extreme, List.zipIdx_append]

/-- A value at a place. -/
def Known (values : List (Option α)) (i : Nat) (v : α) : Prop := values[i]? = some (some v)

theorem known_append {values : List (Option α)} {x : Option α} {i : Nat} {v : α} :
    Known (values ++ [x]) i v ↔ Known values i v ∨ i = values.length ∧ x = some v := by
  rw [Known, Known]
  obtain hlt | heq | hgt := lt_trichotomy i values.length
  · simp [List.getElem?_append_left hlt, hlt.ne]
  · simp [heq]
  · rw [List.getElem?_append_right hgt.le, List.getElem?_singleton, if_neg (by omega),
      List.getElem?_eq_none hgt.le]
    simp [hgt.ne']

theorem known_lt {values : List (Option α)} {i : Nat} {v : α} (h : Known values i v) :
    i < values.length := (List.getElem?_eq_some_iff.mp h).1

section Search

variable (beats : α → α → Bool) (number : α → Prop)

/-- A value that none behind it beats and that beats all before it, except for what is no number
and not the first value. -/
structure IsExtreme (values : List (Option α)) (i : Nat) (v : α) : Prop where
  known : Known values i v
  behind : ∀ j u, i < j → Known values j u → beats u v = false
  before : ∀ j u, j < i → Known values j u →
    beats v u = true ∨ ¬number u ∧ ∃ k x, k < j ∧ Known values k x

variable {beats number}

/-- What is passed over stays behind an earlier value. -/
theorem passed_append {values : List (Option α)} {x : Option α} {j : Nat} {v u : α}
    (h : beats v u = true ∨ ¬number u ∧ ∃ k x, k < j ∧ Known values k x) :
    beats v u = true ∨ ¬number u ∧ ∃ k y, k < j ∧ Known (values ++ [x]) k y := by
  obtain hbeat | ⟨hnumber, k, y, hk, hy⟩ := h
  · exact Or.inl hbeat
  · exact Or.inr ⟨hnumber, k, y, hk, known_append.mpr (Or.inl hy)⟩

/-- An extreme that the next value does not beat remains one. -/
theorem IsExtreme.append {values : List (Option α)} {i : Nat} {v : α}
    (hv : IsExtreme beats number values i v) {x : Option α}
    (hbeats : ∀ w ∈ x, beats w v = false) : IsExtreme beats number (values ++ [x]) i v := by
  have hlt := known_lt hv.known
  constructor
  · exact known_append.mpr (Or.inl hv.known)
  · intro j u hj hu
    obtain hu | ⟨-, heq⟩ := known_append.mp hu
    · exact hv.behind j u hj hu
    · exact hbeats u heq
  · intro j u hj hu
    obtain hu | ⟨rfl, -⟩ := known_append.mp hu
    · exact passed_append (hv.before j u hj hu)
    · omega

/-- A value that beats or passes over all before it is an extreme. -/
theorem isExtreme_last {values : List (Option α)} {w : α}
    (hbefore : ∀ j u, Known values j u →
      beats w u = true ∨ ¬number u ∧ ∃ k x, k < j ∧ Known values k x) :
    IsExtreme beats number (values ++ [some w]) values.length w := by
  constructor
  · exact known_append.mpr (Or.inr ⟨rfl, rfl⟩)
  · intro j u hj hu
    obtain hu | ⟨rfl, -⟩ := known_append.mp hu
    · exact absurd (known_lt hu) (by omega)
    · exact absurd hj (lt_irrefl _)
  · intro j u hj hu
    obtain hu | ⟨rfl, -⟩ := known_append.mp hu
    · exact passed_append (hbefore j u hu)
    · exact absurd hj (lt_irrefl _)

variable (h : Ordered beats number)

include h

/-- What beats an extreme beats all that the extreme has beaten. -/
theorem IsExtreme.beaten {values : List (Option α)} {i j : Nat} {v w u : α}
    (hv : IsExtreme beats number values i v) (hw : beats w v = true) (hu : Known values j u) :
    beats w u = true ∨ ¬number u ∧ ∃ k x, k < j ∧ Known values k x := by
  obtain hlt | rfl | hgt := lt_trichotomy j i
  · obtain hbeat | hlater := hv.before j u hlt hu
    · exact Or.inl (h.trans w v u hw (h.asymm v u hbeat) (h.numbers v u hbeat).2)
    · exact Or.inr hlater
  · obtain rfl := Option.some.inj (Option.some.inj (hu.symm.trans hv.known))
    exact Or.inl hw
  · by_cases hnumber : number u
    · exact Or.inl (h.trans w v u hw (hv.behind j u hgt hu) hnumber)
    · exact Or.inr ⟨hnumber, i, v, hgt, hv.known⟩

/-- No value beats an extreme. -/
theorem IsExtreme.unbeaten {values : List (Option α)} {i j : Nat} {v u : α}
    (hv : IsExtreme beats number values i v) (hu : Known values j u) : beats u v = false := by
  obtain hlt | rfl | hgt := lt_trichotomy j i
  · obtain hbeat | ⟨hnumber, -⟩ := hv.before j u hlt hu
    · exact h.asymm v u hbeat
    · exact Bool.eq_false_iff.mpr fun hbeat => hnumber (h.numbers u v hbeat).1
  · obtain rfl := Option.some.inj (Option.some.inj (hu.symm.trans hv.known))
    exact Bool.eq_false_iff.mpr fun hbeat => by
      have hnot := h.asymm u u hbeat
      rw [hbeat] at hnot
      cases hnot
  · exact hv.behind j u hgt hu

theorem IsExtreme.not_lt {values : List (Option α)} {i i' : Nat} {v v' : α}
    (hv : IsExtreme beats number values i v) (hv' : IsExtreme beats number values i' v') :
    ¬i < i' := by
  intro hlt
  obtain hbeat | ⟨hnumber, k, x, hk, hx⟩ := hv'.before i v hlt hv.known
  · rw [hv.behind i' v' hlt hv'.known] at hbeat
    cases hbeat
  · -- the first value of all would have to be beaten by what is no number
    have hfirst : ∀ k x, k < i → ¬Known values k x := by
      intro k
      induction k using Nat.strong_induction_on with
      | _ k ih =>
          intro x hk hx
          obtain hbeat | ⟨-, k', x', hk', hx'⟩ := hv.before k x hk hx
          · exact hnumber (h.numbers v x hbeat).1
          · exact ih k' hk' x' (by omega) hx'
    exact hfirst k x hk hx

/-- The search ends at an extreme, or there is no value. -/
theorem extreme_spec (values : List (Option α)) :
    (∀ i v, extreme beats values = some (i, v) → IsExtreme beats number values i v) ∧
      (extreme beats values = none → ∀ i v, ¬Known values i v) := by
  induction values using List.reverseRecOn with
  | nil => exact ⟨fun i v hsome => (by cases hsome), fun _ i v hknown => (by cases hknown)⟩
  | append_singleton values x ih =>
      obtain ⟨hfound, hnone⟩ := ih
      rw [extreme_append]
      cases x with
      | none =>
          constructor
          · intro i v hsome
            refine (hfound i v hsome).append fun w hw => ?_
            cases hw
          · intro hempty i v hknown
            obtain hknown | ⟨-, heq⟩ := known_append.mp hknown
            · exact hnone hempty i v hknown
            · cases heq
      | some w =>
          cases hbest : extreme beats values with
          | none =>
              refine ⟨fun i v hsome => ?_, fun hempty => by cases hempty⟩
              obtain ⟨rfl, rfl⟩ := Prod.mk.inj (Option.some.inj hsome)
              exact isExtreme_last fun j u hu => absurd hu (hnone hbest j u)
          | some best =>
              obtain ⟨i, v⟩ := best
              have hv := hfound i v hbest
              simp only [better]
              split
              next hbeats =>
                refine ⟨fun i' v' hsome => ?_, fun hempty => by cases hempty⟩
                obtain ⟨rfl, rfl⟩ := Prod.mk.inj (Option.some.inj hsome)
                exact isExtreme_last fun j u hu => hv.beaten h hbeats hu
              next hbeats =>
                refine ⟨fun i' v' hsome => ?_, fun hempty => by cases hempty⟩
                obtain ⟨rfl, rfl⟩ := Prod.mk.inj (Option.some.inj hsome)
                refine hv.append fun u heq => ?_
                obtain rfl := Option.some.inj heq
                exact Bool.eq_false_iff.mpr hbeats

theorem extreme_eq_some {values : List (Option α)} {i : Nat} {v : α} :
    extreme beats values = some (i, v) ↔ IsExtreme beats number values i v := by
  obtain ⟨hfound, hnone⟩ := extreme_spec h values
  refine ⟨hfound i v, fun hv => ?_⟩
  cases hsearch : extreme beats values with
  | none => exact absurd hv.known (hnone hsearch i v)
  | some best =>
      obtain ⟨i', v'⟩ := best
      have hv' := hfound i' v' hsearch
      obtain rfl : i = i' := le_antisymm (not_lt.mp (IsExtreme.not_lt h hv' hv))
        (not_lt.mp (IsExtreme.not_lt h hv hv'))
      obtain rfl := Option.some.inj (Option.some.inj (hv.known.symm.trans hv'.known))
      rfl

/-- There is an extreme if there is a value. -/
theorem exists_extreme {values : List (Option α)} {i : Nat} {v : α} (hv : Known values i v) :
    ∃ j u, IsExtreme beats number values j u := by
  obtain ⟨hfound, hnone⟩ := extreme_spec h values
  cases hsearch : extreme beats values with
  | none => exact absurd hv (hnone hsearch i v)
  | some best => exact ⟨best.1, best.2, hfound best.1 best.2 hsearch⟩

end Search

/-! ## The first of the least -/

section Least

variable {κ β : Type} [LinearOrder κ] {key : α → κ}

/-- A member in front of which all keys are greater and behind which none is less. -/
def FirstLeast (key : α → κ) (xs : List α) (x : α) : Prop :=
  ∃ front back, xs = front ++ x :: back ∧ (∀ y ∈ front, key x < key y) ∧
    ∀ y ∈ back, key x ≤ key y

/-- The search for the first of the least. -/
def leastBy (key : α → κ) (xs : List α) : Option α := xs.argmin key

theorem FirstLeast.le {xs : List α} {x y : α} (h : FirstLeast key xs x) (hy : y ∈ xs) :
    key x ≤ key y := by
  obtain ⟨front, back, rfl, hfront, hback⟩ := h
  rcases List.mem_append.mp hy with hy | hy
  · exact (hfront y hy).le
  rcases List.mem_cons.mp hy with rfl | hy
  · exact le_refl _
  · exact hback y hy

theorem exists_firstLeast (key : α → κ) (x : α) (xs : List α) :
    ∃ y, FirstLeast key (x :: xs) y := by
  induction xs generalizing x with
  | nil => exact ⟨x, [], [], rfl, by simp, by simp⟩
  | cons z xs ih =>
      obtain ⟨y, hy⟩ := ih z
      rcases lt_or_ge (key y) (key x) with hlt | hge
      · obtain ⟨front, back, heq, hfront, hback⟩ := hy
        refine ⟨y, x :: front, back, by rw [heq, List.cons_append], ?_, hback⟩
        exact List.forall_mem_cons.mpr ⟨hlt, hfront⟩
      · exact ⟨x, [], z :: xs, rfl, by simp, fun w hw => hge.trans (hy.le hw)⟩

theorem leastBy_of_firstLeast {xs : List α} {x : α} (h : FirstLeast key xs x) :
    leastBy key xs = some x := by
  rw [leastBy]
  obtain ⟨front, back, rfl, hfront, hback⟩ := h
  induction front with
  | nil =>
      rw [List.nil_append, List.argmin_cons]
      cases hrest : back.argmin key with
      | none => rfl
      | some y => exact if_neg (not_lt.mpr (hback y (List.argmin_mem hrest)))
  | cons z front ih =>
      obtain ⟨hz, hfront⟩ := List.forall_mem_cons.mp hfront
      rw [List.cons_append, List.argmin_cons, ih hfront]
      exact if_pos hz

theorem leastBy_eq_some {xs : List α} {x : α} : leastBy key xs = some x ↔ FirstLeast key xs x := by
  refine ⟨fun h => ?_, leastBy_of_firstLeast⟩
  cases xs with
  | nil => cases h
  | cons z xs =>
      obtain ⟨y, hy⟩ := exists_firstLeast key z xs
      obtain rfl := Option.some.inj (h.symm.trans (leastBy_of_firstLeast hy))
      exact hy

/-- Where the members are in the order of an index, the first of the least is told by it. -/
theorem firstLeast_iff_of_ascending {index : α → Nat} {xs : List α}
    (hxs : xs.Pairwise fun x y => index x < index y) {x : α} : FirstLeast key xs x ↔
      x ∈ xs ∧ ∀ y ∈ xs, key x ≤ key y ∧ (index y < index x → key x < key y) := by
  constructor
  · intro h
    have hle := fun y hy => h.le (y := y) hy
    obtain ⟨front, back, rfl, hfront, -⟩ := h
    refine ⟨List.mem_append_right _ List.mem_cons_self, fun y hy => ⟨hle y hy, fun hlt => ?_⟩⟩
    rcases List.mem_append.mp hy with hy | hy
    · exact hfront y hy
    rcases List.mem_cons.mp hy with rfl | hy
    · exact absurd hlt (lt_irrefl _)
    · have hgt := (List.pairwise_cons.mp (List.pairwise_append.mp hxs).2.1).1 y hy
      exact absurd hlt hgt.asymm
  · rintro ⟨hx, hleast⟩
    obtain ⟨front, back, rfl⟩ := List.append_of_mem hx
    refine ⟨front, back, rfl, fun y hy => ?_, fun y hy => ?_⟩
    · have hlt := (List.pairwise_append.mp hxs).2.2 y hy x List.mem_cons_self
      exact (hleast y (List.mem_append_left _ hy)).2 hlt
    · exact (hleast y (List.mem_append_right _ (List.mem_cons_of_mem _ hy))).1

theorem firstLeast_map {f : β → α} {xs : List β} {y : α} :
    FirstLeast key (xs.map f) y ↔ ∃ x, FirstLeast (fun x => key (f x)) xs x ∧ f x = y := by
  constructor
  · rintro ⟨front, back, heq, hfront, hback⟩
    obtain ⟨as, cs, rfl, rfl, hcs⟩ := List.map_eq_append_iff.mp heq
    obtain ⟨x, bs, rfl, rfl, rfl⟩ := List.map_eq_cons_iff.mp hcs
    exact ⟨x, ⟨as, bs, rfl, fun a ha => hfront _ (List.mem_map_of_mem ha),
      fun b hb => hback _ (List.mem_map_of_mem hb)⟩, rfl⟩
  · rintro ⟨x, ⟨front, back, rfl, hfront, hback⟩, rfl⟩
    exact ⟨front.map f, back.map f, by simp, List.forall_mem_map.mpr hfront,
      List.forall_mem_map.mpr hback⟩

end Least

end Extremes
