import Mathlib.Data.List.Basic

/-! # Texts that are read off

Values that are written one behind the other can be told apart again when each of their texts shows
where it ends. A sequence of such texts shows its own end by a stop that none of them begins with.
-/

namespace Codes

variable {α β : Type}

/-- Whatever follows it, a text tells its value and where it ends. -/
def ReadOff (code : α → List β) : Prop :=
  ∀ a a' rest rest', code a ++ rest = code a' ++ rest' → a = a' ∧ rest = rest'

/-- Nothing that is written begins with the stop. -/
def Avoids (code : α → List β) (stop : β) : Prop :=
  ∀ a, ∃ first text, code a = first :: text ∧ first ≠ stop

section Sequences

variable {code : α → List β} {stop : β}

theorem ReadOff.preceded (hcode : ReadOff code) (text : List β) :
    ReadOff fun a => text ++ code a := by
  intro a a' rest rest' h
  rw [List.append_assoc, List.append_assoc] at h
  exact hcode a a' rest rest' (List.append_cancel_left h)

theorem ReadOff.ne_stop (havoids : Avoids code stop) (a : α) (rest rest' : List β) :
    code a ++ rest ≠ stop :: rest' := by
  obtain ⟨first, text, hcode, hfirst⟩ := havoids a
  rw [hcode]
  intro h
  exact hfirst (List.cons.inj h).1

/-- One text behind the other, up to a stop. -/
theorem ReadOff.sequence (hcode : ReadOff code) (havoids : Avoids code stop) :
    ReadOff fun as : List α => as.flatMap code ++ [stop] := by
  intro as as' rest rest' h
  simp only [List.append_assoc, List.singleton_append] at h
  induction as generalizing as' with
  | nil =>
      cases as' with
      | nil => exact ⟨rfl, (List.cons.inj h).2⟩
      | cons a' as' =>
          rw [List.flatMap_cons, List.append_assoc] at h
          exact absurd h.symm (ReadOff.ne_stop havoids a' _ _)
  | cons a as ih =>
      rw [List.flatMap_cons, List.append_assoc] at h
      cases as' with
      | nil => exact absurd h (ReadOff.ne_stop havoids a _ _)
      | cons a' as' =>
          rw [List.flatMap_cons, List.append_assoc] at h
          obtain ⟨rfl, hbehind⟩ := hcode a a' _ _ h
          obtain ⟨rfl, hrest⟩ := ih as' hbehind
          exact ⟨rfl, hrest⟩

theorem intercalate_cons (separator : β) (text : List β) (texts : List (List β)) :
    [separator].intercalate (text :: texts) = text ++ texts.flatMap fun t => separator :: t := by
  induction texts generalizing text with
  | nil => rw [List.intercalate_singleton, List.flatMap_nil, List.append_nil]
  | cons next texts ih =>
      rw [List.intercalate_cons_cons, ih, List.flatMap_cons, List.append_assoc]
      rfl

/-- Texts with a separator between them, up to a stop. -/
theorem ReadOff.separated {separator : β} (hcode : ReadOff code) (havoids : Avoids code stop)
    (hseparator : separator ≠ stop) :
    ReadOff fun as : List α => [separator].intercalate (as.map code) ++ [stop] := by
  have htail : ReadOff fun as : List α => as.flatMap (fun a => separator :: code a) ++ [stop] :=
    (hcode.preceded [separator]).sequence fun a => ⟨separator, code a, rfl, hseparator⟩
  have hcons (a : α) (as : List α) (rest : List β) :
      [separator].intercalate ((a :: as).map code) ++ [stop] ++ rest =
        code a ++ (as.flatMap (fun a => separator :: code a) ++ [stop] ++ rest) := by
    rw [List.map_cons, intercalate_cons, List.flatMap_map]
    simp only [List.append_assoc]
  intro as as' rest rest' h
  dsimp only at h
  cases as with
  | nil =>
      cases as' with
      | nil => exact ⟨rfl, List.append_cancel_left h⟩
      | cons a' as' =>
          rw [hcons a' as'] at h
          exact absurd h.symm (ReadOff.ne_stop havoids a' _ _)
  | cons a as =>
      rw [hcons a as] at h
      cases as' with
      | nil => exact absurd h (ReadOff.ne_stop havoids a _ _)
      | cons a' as' =>
          rw [hcons a' as'] at h
          obtain ⟨rfl, hbehind⟩ := hcode a a' _ _ h
          obtain ⟨rfl, hrest⟩ := htail as as' rest rest' hbehind
          exact ⟨rfl, hrest⟩

end Sequences

/-- Sections in a fixed order, with a separator between them. -/
theorem sections_inj {κ : Type} {code : κ → α → List β} {separator : β}
    (hcode : ∀ k, ReadOff (code k)) {values values' : κ → α} {keys : List κ} {rest rest' : List β}
    (h : [separator].intercalate (keys.map fun k => code k (values k)) ++ rest =
      [separator].intercalate (keys.map fun k => code k (values' k)) ++ rest') :
    (∀ k ∈ keys, values k = values' k) ∧ rest = rest' := by
  induction keys with
  | nil => exact ⟨List.forall_mem_nil _, h⟩
  | cons k keys ih =>
      rw [List.forall_mem_cons, and_assoc]
      cases keys with
      | nil =>
          rw [List.map_singleton, List.map_singleton, List.intercalate_singleton,
            List.intercalate_singleton] at h
          obtain ⟨hk, hrest⟩ := hcode k _ _ _ _ h
          exact ⟨hk, List.forall_mem_nil _, hrest⟩
      | cons next keys =>
          simp only [List.map_cons, List.intercalate_cons_cons, List.append_assoc] at h
          obtain ⟨hk, h⟩ := hcode k _ _ _ _ h
          refine ⟨hk, ih ?_⟩
          simpa only [List.map_cons, List.append_assoc] using List.append_cancel_left h

end Codes
