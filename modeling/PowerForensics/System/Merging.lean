import Mathlib.Data.List.Sort

/-! # Merging ordered sequences

Sequences are merged by taking, time and again, the least of their first elements, of
equal ones the one of the earliest sequence. If each sequence is ordered, then what
comes out is the stable sort of their concatenation.
-/

namespace Merging

variable {α κ : Type} [LinearOrder κ] (key : α → κ)

/-- No element is before an earlier one. -/
def Ascending (xs : List α) : Prop := xs.Pairwise fun a b => key a ≤ key b

/-- The sort by a key that keeps the order of equal elements. -/
def stableSort (xs : List α) : List α := xs.insertionSort fun a b => key a ≤ key b

/-! ## The stable sort -/

theorem stableSort_perm (xs : List α) : (stableSort key xs).Perm xs :=
  List.perm_insertionSort _ xs

theorem ascending_stableSort (xs : List α) : Ascending key (stableSort key xs) :=
  haveI : Std.Total fun a b : α => key a ≤ key b := ⟨fun a b => le_total (key a) (key b)⟩
  haveI : IsTrans α fun a b => key a ≤ key b := ⟨fun _ _ _ => le_trans⟩
  List.pairwise_insertionSort _ xs

/-- Elements with one key keep their order. -/
theorem filter_stableSort (k : κ) (xs : List α) :
    (stableSort key xs).filter (fun x => key x = k) = xs.filter fun x => key x = k := by
  have hinsert : ∀ (a : α) (l : List α),
      (l.orderedInsert (fun a b => key a ≤ key b) a).filter (fun x => key x = k) =
        (a :: l).filter fun x => key x = k := by
    intro a l
    induction l with
    | nil => rfl
    | cons b l ih =>
        rw [List.orderedInsert_cons]
        split
        · rfl
        next hlt =>
          -- the element passes one with a smaller key
          have hne : key a = k → key b ≠ k := fun ha hb => hlt (by rw [ha, hb])
          rw [List.filter_cons, ih, List.filter_cons, List.filter_cons, List.filter_cons]
          by_cases ha : key a = k
          · simp [ha, hne ha]
          · simp [ha]
  induction xs with
  | nil => rfl
  | cons a xs ih =>
      have hcons : stableSort key (a :: xs) =
          (stableSort key xs).orderedInsert (fun a b => key a ≤ key b) a := rfl
      rw [hcons, hinsert, List.filter_cons, List.filter_cons, ih]

/-- An element that is before everything in front of it and not behind anything after it is
the first one of the sort. -/
theorem stableSort_middle {front back : List α} {x : α} (hfront : ∀ y ∈ front, key x < key y)
    (hback : ∀ y ∈ back, key x ≤ key y) :
    stableSort key (front ++ x :: back) = x :: stableSort key (front ++ back) := by
  induction front with
  | nil => exact List.insertionSort_cons_of_forall_rel _ hback
  | cons a front ih =>
      have htail := ih fun y hy => hfront y (List.mem_cons_of_mem a hy)
      have hpass : ¬ key a ≤ key x := not_le.mpr (hfront a List.mem_cons_self)
      simp only [stableSort] at htail ⊢
      rw [List.cons_append, List.insertionSort_cons, htail, List.orderedInsert_cons,
        if_neg hpass, List.cons_append, List.insertionSort_cons]

/-- An ascending list is known from the elements of each key. -/
theorem eq_of_ascending {xs ys : List α} (hxs : Ascending key xs) (hys : Ascending key ys)
    (hsame : ∀ k, xs.filter (fun x => key x = k) = ys.filter fun x => key x = k) : xs = ys := by
  induction xs generalizing ys with
  | nil =>
      cases ys with
      | nil => rfl
      | cons b ys =>
          have hnil := hsame (key b)
          rw [List.filter_cons_of_pos (by simp)] at hnil
          cases hnil
  | cons a xs ih =>
      obtain ⟨ha, hxsTail⟩ := List.pairwise_cons.mp hxs
      have hfirst := hsame (key a)
      rw [List.filter_cons_of_pos (by simp)] at hfirst
      cases ys with
      | nil => cases hfirst
      | cons b ys =>
          obtain ⟨hb, hysTail⟩ := List.pairwise_cons.mp hys
          -- each head is in the other list, so both have the least key
          have hab : key b ≤ key a := by
            have hmem : a ∈ b :: ys := List.mem_of_mem_filter (hfirst ▸ List.mem_cons_self)
            rcases List.mem_cons.mp hmem with heq | htail
            · exact (congrArg key heq).ge
            · exact hb a htail
          have hba : key a ≤ key b := by
            have hfilter := hsame (key b)
            rw [List.filter_cons_of_pos (l := ys) (by simp)] at hfilter
            have hmem : b ∈ a :: xs := List.mem_of_mem_filter (hfilter ▸ List.mem_cons_self)
            rcases List.mem_cons.mp hmem with heq | htail
            · exact (congrArg key heq).ge
            · exact ha b htail
          have hkey : key b = key a := le_antisymm hab hba
          rw [List.filter_cons_of_pos (by simp [hkey])] at hfirst
          obtain ⟨rfl, -⟩ := List.cons.inj hfirst
          refine congrArg (List.cons a) (ih hxsTail hysTail fun k => ?_)
          have htail := hsame k
          rw [List.filter_cons, List.filter_cons] at htail
          split at htail
          · exact List.cons.inj htail |>.2
          · exact htail

/-- Lists that agree in the elements of each key have one stable sort. -/
theorem stableSort_congr {xs ys : List α}
    (hsame : ∀ k, xs.filter (fun x => key x = k) = ys.filter fun x => key x = k) :
    stableSort key xs = stableSort key ys := by
  apply eq_of_ascending key (ascending_stableSort key xs) (ascending_stableSort key ys)
  intro k
  rw [filter_stableSort, filter_stableSort, hsame]

/-- What is before a key is sorted by itself. -/
theorem filter_lt_stableSort (k : κ) (xs : List α) :
    (stableSort key xs).filter (fun x => key x < k) =
      stableSort key (xs.filter fun x => key x < k) := by
  refine eq_of_ascending key ((ascending_stableSort key xs).filter _)
    (ascending_stableSort key _) fun k' => ?_
  rw [filter_stableSort, List.filter_comm, filter_stableSort, List.filter_comm]

theorem orderedInsert_head {x : α} {xs : List α} (hxs : Ascending key (x :: xs)) :
    xs.orderedInsert (fun a b => key a ≤ key b) x = x :: xs := by
  cases xs with
  | nil => rfl
  | cons y xs =>
      apply List.orderedInsert_cons_of_le
      exact (List.pairwise_cons.mp hxs).1 y List.mem_cons_self

theorem forall₂_orderedInsert {a b : α} (hab : key a ≤ key b) {xs ys : List α}
    (hxs : Ascending key xs) (hys : Ascending key ys)
    (hle : List.Forall₂ (fun x y => key x ≤ key y) xs ys) :
    List.Forall₂ (fun x y => key x ≤ key y) (xs.orderedInsert (fun a b => key a ≤ key b) a)
      (ys.orderedInsert (fun a b => key a ≤ key b) b) := by
  induction hle generalizing a b with
  | nil => exact .cons hab .nil
  | @cons x y xs ys hxy htail ih =>
      have hxsTail := (List.pairwise_cons.mp hxs).2
      have hysTail := (List.pairwise_cons.mp hys).2
      rw [List.orderedInsert_cons, List.orderedInsert_cons]
      split_ifs with hax hby hby
      · exact .cons hab (.cons hxy htail)
      · -- only the first list takes its new element here, and its old head moves on
        have hxb : key x ≤ key b := hxy.trans (not_le.mp hby).le
        have hrest := ih hxb hxsTail hysTail
        rw [orderedInsert_head key hxs] at hrest
        exact .cons (hax.trans hxy) hrest
      · have hay : key a ≤ key y := hab.trans hby
        have hrest := ih hay hxsTail hysTail
        rw [orderedInsert_head key hys] at hrest
        exact .cons ((not_le.mp hax).le.trans hab) hrest
      · exact .cons hxy (ih hab hxsTail hysTail)

/-- Where no element of a list is behind the one of another list at its place, none of its sort
is behind the one of the other sort. -/
theorem forall₂_stableSort {xs ys : List α}
    (hle : List.Forall₂ (fun x y => key x ≤ key y) xs ys) :
    List.Forall₂ (fun x y => key x ≤ key y) (stableSort key xs) (stableSort key ys) := by
  induction hle with
  | nil => exact .nil
  | cons hxy _ ih =>
      exact forall₂_orderedInsert key hxy (ascending_stableSort key _)
        (ascending_stableSort key _) ih

/-- An ascending list has what is before a key first, then what has the key, then the rest. -/
theorem ascending_split (k : κ) {xs : List α} (hxs : Ascending key xs) :
    xs = xs.filter (fun x => key x < k) ++
      (xs.filter (fun x => key x = k) ++ xs.filter fun x => k < key x) := by
  induction xs with
  | nil => rfl
  | cons a xs ih =>
      obtain ⟨hfirst, hrest⟩ := List.pairwise_cons.mp hxs
      have hsplit := ih hrest
      have hempty : ∀ p : α → Bool, (∀ x ∈ xs, p x = false) → xs.filter p = [] := by
        intro p hp
        rw [List.filter_eq_nil_iff]
        intro x hx
        rw [hp x hx]
        exact Bool.false_ne_true
      obtain hlt | heq | hgt := lt_trichotomy (key a) k
      · simp only [List.filter_cons, decide_eq_true hlt, decide_eq_false hlt.ne,
          decide_eq_false hlt.not_gt, if_true, Bool.false_eq_true, if_false, List.cons_append]
        exact congrArg (List.cons a) hsplit
      · have hbefore := hempty (fun x => key x < k) fun x hx =>
          decide_eq_false (not_lt.mpr (heq ▸ hfirst x hx))
        rw [hbefore, List.nil_append] at hsplit
        simp only [List.filter_cons, decide_eq_true heq, decide_eq_false heq.not_lt,
          decide_eq_false heq.not_gt, if_true, Bool.false_eq_true, if_false, hbefore,
          List.nil_append, List.cons_append]
        exact congrArg (List.cons a) hsplit
      · have hbefore := hempty (fun x => key x < k) fun x hx =>
          decide_eq_false (not_lt.mpr (hgt.le.trans (hfirst x hx)))
        have hwith := hempty (fun x => key x = k) fun x hx =>
          decide_eq_false (hgt.trans_le (hfirst x hx)).ne'
        rw [hbefore, hwith, List.nil_append, List.nil_append] at hsplit
        simp only [List.filter_cons, decide_eq_true hgt, decide_eq_false hgt.ne',
          decide_eq_false hgt.not_gt, if_true, Bool.false_eq_true, if_false, hbefore, hwith,
          List.nil_append]
        exact congrArg (List.cons a) hsplit

/-- A sort has what is before a key first, sorted by itself. -/
theorem stableSort_split (k : κ) (xs : List α) :
    ∃ rest, stableSort key xs = stableSort key (xs.filter fun x => key x < k) ++ rest ∧
      ∀ x ∈ rest, k ≤ key x := by
  have hsplit := ascending_split key k (ascending_stableSort key xs)
  rw [filter_lt_stableSort] at hsplit
  refine ⟨_, hsplit, fun x hx => ?_⟩
  rcases List.mem_append.mp hx with hx | hx
  · exact (of_decide_eq_true (List.mem_filter.mp hx).2).ge
  · exact (of_decide_eq_true (List.mem_filter.mp hx).2).le

/-- The first elements of a sort are those with few elements before them, and of equal ones the
first of the list. -/
theorem mem_take_stableSort {x : α} {xs : List α} {n : Nat} :
    x ∈ (stableSort key xs).take n ↔
      x ∈ (xs.filter fun y => key y = key x).take (n - xs.countP fun y => key y < key x) := by
  have hsplit := ascending_split key (key x) (ascending_stableSort key xs)
  have hbefore : ((stableSort key xs).filter fun y => key y < key x).length =
      xs.countP fun y => key y < key x := by
    rw [← List.countP_eq_length_filter]
    exact (stableSort_perm key xs).countP_eq _
  rw [filter_stableSort] at hsplit
  rw [hsplit, List.take_append, List.take_append, List.mem_append, List.mem_append, hbefore]
  constructor
  · rintro (hin | hin | hin)
    · have hlt := List.of_mem_filter (List.mem_of_mem_take hin)
      exact absurd (of_decide_eq_true hlt) (lt_irrefl _)
    · exact hin
    · have hlt := List.of_mem_filter (List.mem_of_mem_take hin)
      exact absurd (of_decide_eq_true hlt) (lt_irrefl _)
  · exact fun hin => Or.inr (Or.inl hin)

/-! ## The merge -/

/-- What comes out of the sequences: the first element of a sequence, if it is less than the
first elements of the sequences before and not greater than those of the sequences behind,
and then what comes out of the rest. -/
inductive Merges : List (List α) → List α → Prop where
  | done {seqs : List (List α)} (hempty : ∀ seq ∈ seqs, seq = []) : Merges seqs []
  | take {front back : List (List α)} {seq out : List α} {x : α}
      (hfront : ∀ other ∈ front, ∀ y ∈ other.head?, key x < key y)
      (hback : ∀ other ∈ back, ∀ y ∈ other.head?, key x ≤ key y)
      (hrest : Merges (front ++ seq :: back) out) :
      Merges (front ++ (x :: seq) :: back) (x :: out)

variable {key}

/-- Every element comes out once. -/
theorem Merges.perm {seqs : List (List α)} {out : List α} (hmerges : Merges key seqs out) :
    out.Perm seqs.flatten := by
  induction hmerges with
  | done hempty => rw [List.flatten_eq_nil_iff.mpr hempty]
  | @take front back seq out x _ _ _ ih =>
      simp only [List.flatten_append, List.flatten_cons, List.cons_append] at ih ⊢
      exact (ih.cons x).trans List.perm_middle.symm

theorem Ascending.head_le {xs : List α} (hxs : Ascending key xs) {y z : α} (hy : y ∈ xs.head?)
    (hz : z ∈ xs) : key y ≤ key z := by
  cases xs with
  | nil => cases hz
  | cons a xs =>
      obtain rfl : a = y := by simpa using hy
      rcases List.mem_cons.mp hz with rfl | hz
      · exact le_rfl
      · exact (List.pairwise_cons.mp hxs).1 z hz

theorem exists_head_of_mem {xs : List α} {z : α} (hz : z ∈ xs) : ∃ y, y ∈ xs.head? := by
  cases xs with
  | nil => cases hz
  | cons a xs => exact ⟨a, rfl⟩

/-- The merge of ordered sequences is the stable sort of their concatenation. -/
theorem Merges.eq_stableSort {seqs : List (List α)} {out : List α} (hmerges : Merges key seqs out)
    (hseqs : ∀ seq ∈ seqs, Ascending key seq) : out = stableSort key seqs.flatten := by
  induction hmerges with
  | done hempty =>
      rw [List.flatten_eq_nil_iff.mpr hempty]
      rfl
  | @take front back seq out x hfront hback _ ih =>
      have hfirst := hseqs (x :: seq) (by simp)
      have hordered : ∀ other ∈ front ++ seq :: back, Ascending key other := by
        intro other hother
        rcases List.mem_append.mp hother with hother | hother
        · exact hseqs other (List.mem_append_left _ hother)
        · rcases List.mem_cons.mp hother with rfl | hother
          · exact (List.pairwise_cons.mp hfirst).2
          · exact hseqs other (by simp [hother])
      have hbefore : ∀ y ∈ front.flatten, key x < key y := by
        intro y hy
        obtain ⟨other, hother, hmem⟩ := List.mem_flatten.mp hy
        obtain ⟨z, hz⟩ := exists_head_of_mem hmem
        exact (hfront other hother z hz).trans_le
          ((hordered other (List.mem_append_left _ hother)).head_le hz hmem)
      have hbehind : ∀ y ∈ seq ++ back.flatten, key x ≤ key y := by
        intro y hy
        rcases List.mem_append.mp hy with hy | hy
        · exact (List.pairwise_cons.mp hfirst).1 y hy
        · obtain ⟨other, hother, hmem⟩ := List.mem_flatten.mp hy
          obtain ⟨z, hz⟩ := exists_head_of_mem hmem
          exact (hback other hother z hz).trans
            ((hordered other (by simp [hother])).head_le hz hmem)
      rw [ih hordered]
      simp only [List.flatten_append, List.flatten_cons, List.cons_append]
      exact (stableSort_middle key hbefore hbehind).symm

end Merging
