import Mathlib.Data.List.Nodup

/-! # Looking up keys

A table is a list of keys with values. In a table where a later entry replaces an earlier
one, the latest entry of a key counts; where no key occurs twice, the only one does.
-/

namespace Lookup

variable {κ α : Type} [DecidableEq κ]

/-- The latest entry of a key. -/
def latest (entries : List (κ × α)) (key : κ) : Option α := entries.reverse.lookup key

theorem lookup_isSome {entries : List (κ × α)} {key : κ} :
    (entries.lookup key).isSome = true ↔ key ∈ entries.map Prod.fst := by
  rw [List.lookup_isSome_iff, List.mem_map]
  simp only [beq_iff_eq, eq_comm (a := key)]

/-- In a table without repetition a key has the value of its entry. -/
theorem lookup_eq_some {entries : List (κ × α)} (hentries : (entries.map Prod.fst).Nodup)
    {key : κ} {value : α} : entries.lookup key = some value ↔ (key, value) ∈ entries := by
  induction entries with
  | nil => simp
  | cons e entries ih =>
      obtain ⟨hnew, hentries⟩ := List.nodup_cons.mp hentries
      rw [List.lookup_cons, List.mem_cons]
      by_cases hkey : key = e.1
      · have hother : (key, value) ∉ entries := fun hmem =>
          hnew (List.mem_map.mpr ⟨_, hmem, hkey⟩)
        obtain ⟨k, a⟩ := e
        obtain rfl : key = k := hkey
        simp [hother, eq_comm]
      · have hne : (key, value) ≠ e := fun heq => hkey (by rw [← heq])
        have hbeq : (key == e.1) = false := by simpa using hkey
        simp only [hbeq, hne, ih hentries, false_or]

theorem latest_nil (key : κ) : latest ([] : List (κ × α)) key = none := rfl

/-! ## Lists without repetition of a key -/

omit [DecidableEq κ] in
/-- Two elements with one key are the same. -/
theorem eq_of_key {β : Type} {key : β → Option κ} {l : List β}
    (hdistinct : (l.filterMap key).Nodup) {a b : β} (ha : a ∈ l) (hb : b ∈ l) {k : κ}
    (hka : key a = some k) (hkb : key b = some k) : a = b := by
  induction l with
  | nil => simp at ha
  | cons c l ih =>
      have htail : (l.filterMap key).Nodup :=
        hdistinct.sublist ((List.sublist_cons_self c l).filterMap key)
      have hhead : ∀ d ∈ l, key c = some k → key d = some k → False := by
        intro d hd hkc hkd
        rw [List.filterMap_cons_some hkc, List.nodup_cons] at hdistinct
        exact hdistinct.1 (List.mem_filterMap.mpr ⟨d, hd, hkd⟩)
      obtain hac | ha := List.mem_cons.mp ha
      · obtain hbc | hb := List.mem_cons.mp hb
        · rw [hac, hbc]
        · exact (hhead b hb (hac ▸ hka) hkb).elim
      · obtain hbc | hb := List.mem_cons.mp hb
        · exact (hhead a ha (hbc ▸ hkb) hka).elim
        · exact ih htail ha hb

/-- What only one element can be found by is found in any order. -/
theorem find?_perm {β : Type} {p : β → Bool} {l l' : List β} (hperm : l.Perm l')
    (honly : ∀ a ∈ l, ∀ b ∈ l, p a → p b → a = b) : l.find? p = l'.find? p := by
  cases hfind : l.find? p with
  | none =>
      rw [List.find?_eq_none] at hfind
      exact (List.find?_eq_none.mpr fun a ha => hfind a (hperm.mem_iff.mpr ha)).symm
  | some a =>
      have hmem := List.mem_of_find?_eq_some hfind
      have hpa := List.find?_some hfind
      cases hfind' : l'.find? p with
      | none => exact absurd hpa (List.find?_eq_none.mp hfind' a (hperm.mem_iff.mp hmem))
      | some b =>
          have hmem' := hperm.mem_iff.mpr (List.mem_of_find?_eq_some hfind')
          rw [honly a hmem b hmem' hpa (List.find?_some hfind')]

end Lookup

/-! ## The first element of each key

A table is filled from a list by taking an element only if the table has none with its
key. It has every key of the list once.
-/

namespace FirstSeen

variable {α κ : Type} [DecidableEq κ] (key : α → κ)

/-- Take an element into the table unless its key is there. -/
def see (seen : List α) (a : α) : List α :=
  if key a ∈ seen.map key then seen else seen ++ [a]

/-- The table of a list. -/
def firstSeen (l : List α) : List α := l.foldl (see key) []

section

variable {key}

theorem nodup_see {seen : List α} (hseen : (seen.map key).Nodup) (a : α) :
    ((see key seen a).map key).Nodup := by
  unfold see
  split
  next hmem => exact hseen
  next hnew =>
    rw [List.map_append, List.map_singleton]
    exact hseen.append (List.nodup_singleton _) (by simpa using hnew)

theorem mem_map_see {seen : List α} {a : α} {k : κ} :
    k ∈ (see key seen a).map key ↔ k ∈ seen.map key ∨ k = key a := by
  unfold see
  split
  next hmem =>
    constructor
    · exact Or.inl
    · rintro (h | rfl)
      · exact h
      · exact hmem
  next hnew => rw [List.map_append, List.mem_append, List.map_singleton, List.mem_singleton]

theorem foldl_see_nodup (l : List α) {seen : List α} (hseen : (seen.map key).Nodup) :
    ((l.foldl (see key) seen).map key).Nodup := by
  induction l generalizing seen with
  | nil => exact hseen
  | cons a l ih => exact ih (nodup_see hseen a)

theorem mem_map_foldl_see (l : List α) {seen : List α} {k : κ} :
    k ∈ (l.foldl (see key) seen).map key ↔ k ∈ seen.map key ∨ k ∈ l.map key := by
  induction l generalizing seen with
  | nil => simp
  | cons a l ih => rw [List.foldl_cons, ih, mem_map_see, List.map_cons, List.mem_cons, or_assoc]

end

/-- No key occurs twice. -/
theorem nodup_map_firstSeen (l : List α) : ((firstSeen key l).map key).Nodup :=
  foldl_see_nodup l List.nodup_nil

/-- Every key of the list occurs, and no other. -/
theorem mem_map_firstSeen {l : List α} {k : κ} :
    k ∈ (firstSeen key l).map key ↔ k ∈ l.map key := by
  rw [firstSeen, mem_map_foldl_see]
  simp

end FirstSeen
