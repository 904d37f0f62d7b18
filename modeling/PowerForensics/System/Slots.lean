import Mathlib.Data.List.Induction
import Mathlib.Data.List.Perm.Subperm
import PowerForensics.System.Lookup

/-! # Items in slots

Items are put into slots one after another, each into the slot that it names. A later item replaces
what is there, and an item that names no slot is left over. Nothing is replaced as long as no two
items name one slot.
-/

namespace Slots

variable {α β : Type} (slot : β → Option Nat) (put : β → α → α)

def place (p : List α × List β) (b : β) : List α × List β :=
  match slot b with
  | some j => (p.1.modify j (put b), p.2)
  | none => (p.1, p.2 ++ [b])

/-- The last item that names a slot. -/
def occupant (items : List β) (j : Nat) : Option β := items.reverse.find? fun b => slot b = some j

theorem occupant_concat (items : List β) (b : β) (j : Nat) :
    occupant slot (items ++ [b]) j = if slot b = some j then some b else occupant slot items j := by
  rw [occupant, List.reverse_append, List.reverse_singleton, List.singleton_append,
    List.find?_cons]
  by_cases hslot : slot b = some j <;> simp [hslot, occupant]

variable {slot}

theorem mem_of_occupant {items : List β} {j : Nat} {b : β} (hb : occupant slot items j = some b) :
    b ∈ items ∧ slot b = some j := by
  rw [occupant] at hb
  have hslot := List.find?_some hb
  exact ⟨List.mem_reverse.mp (List.mem_of_find?_eq_some hb), of_decide_eq_true hslot⟩

/-- An item that alone names its slot is in it. -/
theorem occupant_of_mem {items : List β} (hdistinct : (items.filterMap slot).Nodup) {b : β}
    (hb : b ∈ items) {j : Nat} (hslot : slot b = some j) : occupant slot items j = some b := by
  cases hfind : occupant slot items j with
  | none =>
      have hother := List.find?_eq_none.mp hfind b (List.mem_reverse.mpr hb)
      exact absurd (decide_eq_true hslot) hother
  | some c =>
      obtain ⟨hc, hslot'⟩ := mem_of_occupant hfind
      rw [Lookup.eq_of_key hdistinct hc hb hslot' hslot]

variable {put}

/-- A slot has what its last item has put there. -/
theorem getElem?_foldl_place (hput : ∀ b b' a, put b (put b' a) = put b a) (slots : List α)
    (items : List β) (j : Nat) : (items.foldl (place slot put) (slots, [])).1[j]? =
      slots[j]?.map fun a => (occupant slot items j).elim a (put · a) := by
  induction items using List.reverseRecOn with
  | nil =>
      change slots[j]? = slots[j]?.map fun a => a
      rw [Option.map_id']
  | append_singleton items b ih =>
      rw [List.foldl_concat, occupant_concat, place]
      cases hslot : slot b with
      | none => simpa [hslot] using ih
      | some i =>
          simp only [List.getElem?_modify, ih, Option.some.injEq]
          by_cases hij : i = j
          · subst hij
            cases slots[i]? with
            | none => rfl
            | some a =>
                cases occupant slot items i with
                | none => simp
                | some c => simp [hput]
          · simp [hij]

theorem snd_foldl_place (slots : List α) (items : List β) :
    (items.foldl (place slot put) (slots, [])).2 = items.filter (slot · = none) := by
  induction items using List.reverseRecOn with
  | nil => rfl
  | append_singleton items b ih =>
      rw [List.foldl_concat, List.filter_append, ← ih, place]
      cases hslot : slot b <;> simp [hslot]

variable (slot) in
theorem length_named_add_left (items : List β) :
    (items.filterMap slot).length + (items.filter (slot · = none)).length = items.length := by
  induction items with
  | nil => rfl
  | cons b items ih =>
      cases hslot : slot b with
      | none => simp [List.filterMap_cons_none hslot, hslot, ← ih, Nat.add_assoc]
      | some j => simp [List.filterMap_cons_some hslot, hslot, ← ih, Nat.add_right_comm]

/-- Slots that are all taken, and each by one item, are named by one item each. -/
theorem nodup_of_taken {named taken : List Nat} (htaken : taken.Nodup) (hnamed : taken ⊆ named)
    (hlength : named.length ≤ taken.length) : named.Nodup :=
  ((htaken.subperm hnamed).perm_of_length_le hlength).nodup_iff.mp htaken

end Slots
