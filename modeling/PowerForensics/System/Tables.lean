import Mathlib.Algebra.BigOperators.Group.List.Lemmas
import Mathlib.Tactic.Abel

/-! # Tables that gather a list by a key

Every element of a list goes to the entry of its key, which is made for the first one. An entry is
then what the elements with its key have made of it, and whatever is counted for each key can be
counted over the list.
-/

namespace Tables

variable {α κ β : Type} [DecidableEq κ]

/-- Change the entry of a key, or make a new one. -/
def upsert (k : κ) (f : Option β → β) : List (κ × β) → List (κ × β)
  | [] => [(k, f none)]
  | e :: table => if e.1 = k then (k, f (some e.2)) :: table else e :: upsert k f table

/-- Gather a list by a key. -/
def gather (key : α → κ) (step : Option β → α → β) (xs : List α) : List (κ × β) :=
  xs.foldl (fun table x => upsert (key x) (fun entry => step entry x) table) []

section Upsert

variable {k : κ} {f : Option β → β}

theorem lookup_upsert [BEq κ] [LawfulBEq κ] (table : List (κ × β)) (j : κ) :
    (upsert k f table).lookup j = if j = k then some (f (table.lookup k)) else table.lookup j := by
  induction table with
  | nil =>
      rw [upsert, List.lookup_cons, List.lookup_nil, List.lookup_nil]
      by_cases hj : j = k
      · simp [hj]
      · simp [hj, beq_false_of_ne hj]
  | cons e table ih =>
      obtain ⟨i, b⟩ := e
      rw [upsert]
      split
      next hi =>
        obtain rfl : i = k := hi
        by_cases hj : j = i
        · simp [hj]
        · simp [List.lookup_cons, hj, beq_false_of_ne hj]
      next hi =>
        have hki : (k == i) = false := beq_false_of_ne fun h => hi h.symm
        rw [List.lookup_cons, List.lookup_cons, List.lookup_cons, ih, hki]
        by_cases hj : j = i
        · have hjk : j ≠ k := fun h => hi (hj.symm.trans h)
          simp [hj, hi]
        · simp [beq_false_of_ne hj]

theorem mem_keys_upsert {table : List (κ × β)} {j : κ} :
    j ∈ (upsert k f table).map Prod.fst ↔ j = k ∨ j ∈ table.map Prod.fst := by
  induction table with
  | nil => simp [upsert]
  | cons e table ih =>
      rw [upsert]
      split
      next he => simp [he]
      next he =>
        rw [List.map_cons, List.mem_cons, ih, List.map_cons, List.mem_cons, or_left_comm]

theorem nodup_keys_upsert {table : List (κ × β)} (h : (table.map Prod.fst).Nodup) :
    ((upsert k f table).map Prod.fst).Nodup := by
  induction table with
  | nil => simp [upsert]
  | cons e table ih =>
      obtain ⟨hnew, hrest⟩ := List.nodup_cons.mp h
      rw [upsert]
      split
      next he =>
        rw [List.map_cons, ← he]
        exact h
      next he =>
        rw [List.map_cons, List.nodup_cons, mem_keys_upsert, not_or]
        exact ⟨⟨he, hnew⟩, ih hrest⟩

/-- What holds of every entry still does, if the change keeps it. -/
theorem forall_upsert {P : β → Prop} {table : List (κ × β)} (htable : ∀ e ∈ table, P e.2)
    (hf : ∀ entry, (∀ b ∈ entry, P b) → P (f entry)) : ∀ e ∈ upsert k f table, P e.2 := by
  induction table with
  | nil =>
      intro e he
      rw [upsert, List.mem_singleton] at he
      rw [he]
      exact hf none nofun
  | cons e table ih =>
      obtain ⟨hhead, htail⟩ := List.forall_mem_cons.mp htable
      rw [upsert]
      split
      next _ =>
        refine List.forall_mem_cons.mpr ⟨hf (some e.2) fun b hb => ?_, htail⟩
        rwa [← Option.some.inj hb]
      next _ => exact List.forall_mem_cons.mpr ⟨hhead, ih htail⟩

/-- A change that adds to an entry adds to the sum over the table. -/
theorem sum_upsert {M : Type} [AddCommMonoid M] {value : β → M} {more : M}
    (hf : ∀ entry, value (f entry) = entry.elim 0 value + more) (table : List (κ × β)) :
    ((upsert k f table).map fun e => value e.2).sum =
    (table.map fun e => value e.2).sum + more := by
  induction table with
  | nil => simp [upsert, hf]
  | cons e table ih =>
      rw [upsert]
      split
      next _ =>
        rw [List.map_cons, List.sum_cons, List.map_cons, List.sum_cons, hf, Option.elim_some]
        abel
      next _ => rw [List.map_cons, List.sum_cons, List.map_cons, List.sum_cons, ih, add_assoc]

end Upsert

theorem sum_own {M : Type} [AddCommMonoid M] {keys : List κ} (hkeys : keys.Nodup) (own : κ)
    (m : M) : (keys.map fun k => if k = own then m else 0).sum = if own ∈ keys then m else 0 := by
  induction keys with
  | nil => rfl
  | cons k keys ih =>
      obtain ⟨hk, hkeys⟩ := List.nodup_cons.mp hkeys
      rw [List.map_cons, List.sum_cons, ih hkeys]
      by_cases heq : k = own
      · obtain rfl := heq
        simp [hk]
      · simp [heq, Ne.symm heq]

/-- The entries found under some keys, and the entries of the other keys, are all there are. -/
theorem sum_lookup_rest {M : Type} [AddCommMonoid M] (value : β → M) {table : List (κ × β)}
    (htable : (table.map Prod.fst).Nodup) {keys : List κ} (hkeys : keys.Nodup) :
    (keys.map fun k => (table.lookup k).elim 0 value).sum +
        ((table.filter fun e => e.1 ∉ keys).map fun e => value e.2).sum =
      (table.map fun e => value e.2).sum := by
  induction table with
  | nil => simp
  | cons e table ih =>
      obtain ⟨hnew, htable⟩ := List.nodup_cons.mp htable
      have hnone : table.lookup e.1 = none := by
        rw [List.lookup_eq_none_iff]
        intro e' he'
        rw [bne_iff_ne]
        exact fun heq => hnew (heq ▸ List.mem_map_of_mem he')
      -- the first entry is found under its own key only
      have hfound : ∀ k, ((e :: table).lookup k).elim 0 value =
          (if k = e.1 then value e.2 else 0) + (table.lookup k).elim 0 value := by
        intro k
        rw [List.lookup_cons]
        by_cases hk : k = e.1
        · simp [hk, hnone]
        · simp [hk, beq_false_of_ne hk]
      simp only [hfound, List.sum_map_add, sum_own hkeys]
      rw [List.map_cons, List.sum_cons, ← ih htable]
      by_cases he : e.1 ∈ keys
      · rw [if_pos he, List.filter_cons_of_neg (by simpa using he), add_assoc]
      · rw [if_neg he, zero_add, List.filter_cons_of_pos (by simpa using he), List.map_cons,
          List.sum_cons, add_left_comm]

section Gather

variable {key : α → κ} {step : Option β → α → β}

theorem gather_concat (xs : List α) (x : α) : gather key step (xs ++ [x]) =
    upsert (key x) (fun entry => step entry x) (gather key step xs) := by
  rw [gather, List.foldl_append]
  rfl

/-- An entry is what the elements with its key have made of it. -/
theorem lookup_gather (xs : List α) (k : κ) : (gather key step xs).lookup k =
    (xs.filter fun x => key x = k).foldl (fun entry x => some (step entry x)) none := by
  induction xs using List.reverseRecOn with
  | nil => rfl
  | append_singleton xs x ih =>
      rw [gather_concat, lookup_upsert, List.filter_append, List.foldl_append]
      by_cases hk : key x = k
      · rw [if_pos hk.symm, List.filter_cons_of_pos (by simpa using hk), hk, ih]
        rfl
      · rw [if_neg fun h => hk h.symm, List.filter_cons_of_neg (by simpa using hk), ih]
        rfl

theorem nodup_keys_gather (xs : List α) : ((gather key step xs).map Prod.fst).Nodup := by
  induction xs using List.reverseRecOn with
  | nil => exact List.nodup_nil
  | append_singleton xs x ih =>
      rw [gather_concat]
      exact nodup_keys_upsert ih

theorem mem_keys_gather {xs : List α} {k : κ} :
    k ∈ (gather key step xs).map Prod.fst ↔ k ∈ xs.map key := by
  induction xs using List.reverseRecOn with
  | nil => simp [gather]
  | append_singleton xs x ih =>
      rw [gather_concat, mem_keys_upsert, ih, List.map_append, List.mem_append, List.map_singleton,
        List.mem_singleton, or_comm]

/-- The elements of the keys of a kind, counted key by key. -/
theorem foldr_counts (xs : List α) (p : κ → Bool) :
    ((((gather key step xs).map Prod.fst).filter p).map fun k =>
      xs.countP fun x => key x = k).foldr (· + ·) 0 = xs.countP fun x => p (key x) := by
  have hperm : ((gather key step xs).map Prod.fst).Perm (xs.map key).dedup := by
    refine (List.perm_ext_iff_of_nodup (nodup_keys_gather xs) (List.nodup_dedup _)).mpr fun k => ?_
    rw [mem_keys_gather, List.mem_dedup]
  have hcount : ∀ k, (xs.countP fun x => key x = k) = (xs.map key).count k := by
    intro k
    rw [List.count, List.countP_map]
    rfl
  have hsum := List.sum_map_count_dedup_filter_eq_countP p (xs.map key)
  rw [List.countP_map] at hsum
  simp only [hcount]
  rw [← List.sum_eq_foldr, ((hperm.filter p).map _).sum_eq]
  exact hsum

/-- The elements of all keys, put together key by key. -/
theorem flatMap_filter_perm {keys : List κ} (hnodup : keys.Nodup) {xs : List α}
    (hall : ∀ x ∈ xs, key x ∈ keys) :
    (keys.flatMap fun k => xs.filter fun x => key x = k).Perm xs := by
  induction keys generalizing xs with
  | nil =>
      cases xs with
      | nil => exact List.Perm.nil
      | cons x xs => exact absurd (hall x List.mem_cons_self) List.not_mem_nil
  | cons k keys ih =>
      obtain ⟨hk, hnodup⟩ := List.nodup_cons.mp hnodup
      -- the other keys find their elements among those without this one
      have hrest : (keys.flatMap fun j => xs.filter fun x => key x = j) =
          keys.flatMap fun j => (xs.filter fun x => !decide (key x = k)).filter
            fun x => key x = j := by
        apply List.flatMap_congr
        intro j hj
        rw [List.filter_filter]
        apply List.filter_congr
        intro x _
        have hne : j ≠ k := fun h => hk (h ▸ hj)
        by_cases hx : key x = j
        · simp [hx, hne]
        · simp [hx]
      rw [List.flatMap_cons, hrest]
      refine ((ih hnodup ?_).append_left _).trans (List.filter_append_perm _ xs)
      intro x hx
      obtain ⟨hin, hne⟩ := List.mem_filter.mp hx
      rcases List.mem_cons.mp (hall x hin) with heq | htail
      · simp [heq] at hne
      · exact htail

end Gather

end Tables
