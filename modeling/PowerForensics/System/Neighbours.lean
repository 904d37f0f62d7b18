import Mathlib.Data.List.Basic

/-! # Neighbours in a list and in a selection of it

The neighbours in a selection are the neighbours of the list that are both selected, and with
them the elements between which others were left out. A selection has no neighbours of the
second kind exactly if nothing was left out between two of its elements.
-/

namespace Neighbours

variable {α : Type}

/-- Each element with the one after it. -/
def neighbours (l : List α) : List (α × α) := l.zip l.tail

theorem neighbours_cons_cons (a b : α) (l : List α) :
    neighbours (a :: b :: l) = (a, b) :: neighbours (b :: l) := rfl

theorem neighbours_concat (l : List α) (a b : α) :
    neighbours (l ++ [a] ++ [b]) = neighbours (l ++ [a]) ++ [(a, b)] := by
  induction l with
  | nil => rfl
  | cons c l ih =>
      cases l with
      | nil => rfl
      | cons d l =>
          simp only [List.cons_append] at ih ⊢
          rw [neighbours_cons_cons, neighbours_cons_cons, ih, List.cons_append]

theorem neighbours_map {β : Type} (f : α → β) (l : List α) :
    neighbours (l.map f) = (neighbours l).map (Prod.map f f) := by
  rw [neighbours, neighbours, ← List.map_tail, List.zip_map]

/-! ## Selections -/

variable (p : α → Bool)

/-- Two elements are selected, and all between them, one at least, are not. -/
def Bridged (l : List α) (a b : α) : Prop :=
  ∃ front gap back, l = front ++ a :: (gap ++ b :: back) ∧ p a ∧ p b ∧ gap ≠ [] ∧
    ∀ c ∈ gap, p c = false

/-- The neighbours in a selection that begins with the last one selected so far, each with
whether nothing was left out between them. -/
def selectedFrom : Option (α × Bool) → List α → List ((α × α) × Bool)
  | _, [] => []
  | none, b :: l => selectedFrom (if p b then some (b, true) else none) l
  | some (a, near), b :: l =>
      if p b then ((a, b), near) :: selectedFrom (some (b, true)) l
      else selectedFrom (some (a, false)) l

def selected (l : List α) : List ((α × α) × Bool) := selectedFrom p none l

variable {p}

theorem selectedFrom_some (a : α) (near : Bool) (l : List α) :
    (selectedFrom p (some (a, near)) l).map Prod.fst = neighbours (a :: l.filter p) := by
  induction l generalizing a near with
  | nil => rfl
  | cons b l ih =>
      cases hb : p b with
      | true => rw [selectedFrom, if_pos hb, List.map_cons, ih, List.filter_cons_of_pos hb,
          neighbours_cons_cons]
      | false => rw [selectedFrom, if_neg (by simp [hb]), ih, List.filter_cons_of_neg (by simp [hb])]

/-- All of them are the neighbours in the selection. -/
theorem selected_fst (l : List α) : (selected p l).map Prod.fst = neighbours (l.filter p) := by
  induction l with
  | nil => rfl
  | cons b l ih =>
      cases hb : p b with
      | true =>
          rw [selected, selectedFrom, if_pos hb, selectedFrom_some, List.filter_cons_of_pos hb]
      | false =>
          rw [selected, selectedFrom, if_neg (by simp [hb]), List.filter_cons_of_neg (by simp [hb])]
          exact ih

/-- Neighbours that are both selected. -/
def within (p : α → Bool) (l : List α) : List (α × α) :=
  (neighbours l).filter fun q => p q.1 && p q.2

theorem within_cons_of_neg {a : α} (ha : p a = false) (l : List α) :
    within p (a :: l) = within p l := by
  cases l with
  | nil => rfl
  | cons b l => rw [within, neighbours_cons_cons, List.filter_cons_of_neg (by simp [ha]), within]

theorem within_cons_of_neg' {a b : α} (hb : p b = false) (l : List α) :
    within p (a :: b :: l) = within p l := by
  rw [within, neighbours_cons_cons, List.filter_cons_of_neg (by simp [hb])]
  exact within_cons_of_neg hb l

theorem within_cons_of_pos {a b : α} (ha : p a) (hb : p b) (l : List α) :
    within p (a :: b :: l) = (a, b) :: within p (b :: l) := by
  rw [within, neighbours_cons_cons, List.filter_cons_of_pos (by simp [ha, hb]), within]

theorem selectedFrom_near (l : List α) :
    (∀ a, p a → ((selectedFrom p (some (a, true)) l).filter Prod.snd).map Prod.fst =
      within p (a :: l)) ∧
    ∀ a, ((selectedFrom p (some (a, false)) l).filter Prod.snd).map Prod.fst = within p l := by
  induction l with
  | nil => exact ⟨fun _ _ => rfl, fun _ => rfl⟩
  | cons b l ih =>
      obtain ⟨hnear, hfar⟩ := ih
      cases hb : p b with
      | true =>
          refine ⟨fun a ha => ?_, fun a => ?_⟩
          · rw [selectedFrom, if_pos hb, List.filter_cons_of_pos rfl, List.map_cons, hnear b hb,
              within_cons_of_pos ha hb]
          · rw [selectedFrom, if_pos hb, List.filter_cons_of_neg (by simp), hnear b hb]
      | false =>
          refine ⟨fun a _ => ?_, fun a => ?_⟩
          · rw [selectedFrom, if_neg (by simp [hb]), hfar, within_cons_of_neg' hb]
          · rw [selectedFrom, if_neg (by simp [hb]), hfar, within_cons_of_neg hb]

/-- Those with nothing between them are the neighbours of the list that are both selected. -/
theorem selected_near (l : List α) :
    ((selected p l).filter Prod.snd).map Prod.fst = within p l := by
  induction l with
  | nil => rfl
  | cons b l ih =>
      cases hb : p b with
      | true =>
          rw [selected, selectedFrom, if_pos hb]
          exact (selectedFrom_near l).1 b hb
      | false =>
          rw [selected, selectedFrom, if_neg (by simp [hb]), within_cons_of_neg hb]
          exact ih

/-! ## Bridges -/

theorem Bridged.of_map {β : Type} {f : β → α} {l : List β} {a b : α}
    (h : Bridged p (l.map f) a b) : ∃ a' b', Bridged (p ∘ f) l a' b' ∧ f a' = a ∧ f b' = b := by
  obtain ⟨front, gap, back, hl, ha, hb, hgap, hout⟩ := h
  obtain ⟨front', tail, rfl, -, htail⟩ := List.map_eq_append_iff.mp hl
  obtain ⟨a', rest, rfl, rfl, hrest⟩ := List.map_eq_cons_iff.mp htail
  obtain ⟨gap', last, rfl, rfl, hlast⟩ := List.map_eq_append_iff.mp hrest
  obtain ⟨b', back', rfl, rfl, -⟩ := List.map_eq_cons_iff.mp hlast
  refine ⟨a', b', ⟨front', gap', back', rfl, ha, hb, ?_, fun c hc => ?_⟩, rfl, rfl⟩
  · simpa using hgap
  · exact hout (f c) (List.mem_map_of_mem hc)

/-- The next selected element comes after others, or after something was left out before. -/
def Reaches (p : α → Bool) (near : Bool) (l : List α) (b : α) : Prop :=
  ∃ gap back, l = gap ++ b :: back ∧ p b ∧ (near = true → gap ≠ []) ∧ ∀ c ∈ gap, p c = false

theorem bridged_cons {c : α} {l : List α} {a b : α} :
    Bridged p (c :: l) a b ↔ c = a ∧ p a ∧ Reaches p true l b ∨ Bridged p l a b := by
  constructor
  · rintro ⟨front, gap, back, hl, ha, hb, hgap, hout⟩
    cases front with
    | nil =>
        obtain ⟨rfl, rfl⟩ := List.cons_eq_cons.mp hl
        exact Or.inl ⟨rfl, ha, gap, back, rfl, hb, fun _ => hgap, hout⟩
    | cons d front =>
        obtain ⟨rfl, rfl⟩ := List.cons_eq_cons.mp hl
        exact Or.inr ⟨front, gap, back, rfl, ha, hb, hgap, hout⟩
  · rintro (⟨rfl, ha, gap, back, rfl, hb, hgap, hout⟩ | ⟨front, gap, back, rfl, hrest⟩)
    · exact ⟨[], gap, back, rfl, ha, hb, hgap rfl, hout⟩
    · exact ⟨c :: front, gap, back, rfl, hrest⟩

theorem reaches_cons_of_pos {near : Bool} {c : α} (hc : p c) {l : List α} {b : α} :
    Reaches p near (c :: l) b ↔ b = c ∧ near = false := by
  constructor
  · rintro ⟨gap, back, hl, hb, hgap, hout⟩
    cases gap with
    | nil =>
        obtain ⟨rfl, -⟩ := List.cons_eq_cons.mp hl
        exact ⟨rfl, by simpa using hgap⟩
    | cons d gap =>
        obtain ⟨rfl, -⟩ := List.cons_eq_cons.mp hl
        have hd := hout c List.mem_cons_self
        rw [hc] at hd
        cases hd
  · rintro ⟨rfl, rfl⟩
    exact ⟨[], l, rfl, hc, nofun, nofun⟩

theorem reaches_cons_of_neg {near : Bool} {c : α} (hc : p c = false) {l : List α} {b : α} :
    Reaches p near (c :: l) b ↔ Reaches p false l b := by
  constructor
  · rintro ⟨gap, back, hl, hb, -, hout⟩
    cases gap with
    | nil =>
        obtain ⟨rfl, -⟩ := List.cons_eq_cons.mp hl
        rw [hc] at hb
        cases hb
    | cons d gap =>
        obtain ⟨-, rfl⟩ := List.cons_eq_cons.mp hl
        exact ⟨gap, back, rfl, hb, nofun, fun e he => hout e (List.mem_cons_of_mem _ he)⟩
  · rintro ⟨gap, back, rfl, hb, -, hout⟩
    refine ⟨c :: gap, back, rfl, hb, fun _ => List.cons_ne_nil _ _, fun e he => ?_⟩
    obtain rfl | he := List.mem_cons.mp he
    · exact hc
    · exact hout e he

theorem mem_selectedFrom_far {l : List α} {x : α} {near : Bool} (hx : p x) {a b : α} :
    ((a, b), false) ∈ selectedFrom p (some (x, near)) l ↔
      x = a ∧ Reaches p near l b ∨ Bridged p l a b := by
  induction l generalizing x near with
  | nil => simp [selectedFrom, Reaches, Bridged]
  | cons c l ih =>
      cases hc : p c with
      | true =>
          rw [selectedFrom, if_pos hc, List.mem_cons, ih hc, bridged_cons, reaches_cons_of_pos hc]
          constructor
          · rintro (heq | ⟨rfl, hreach⟩ | hbridged)
            · simp only [Prod.mk.injEq] at heq
              obtain ⟨⟨rfl, rfl⟩, rfl⟩ := heq
              exact Or.inl ⟨rfl, rfl, rfl⟩
            · exact Or.inr (Or.inl ⟨rfl, hc, hreach⟩)
            · exact Or.inr (Or.inr hbridged)
          · rintro (⟨rfl, rfl, rfl⟩ | ⟨rfl, -, hreach⟩ | hbridged)
            · exact Or.inl rfl
            · exact Or.inr (Or.inl ⟨rfl, hreach⟩)
            · exact Or.inr (Or.inr hbridged)
      | false =>
          rw [selectedFrom, if_neg (by simp [hc]), ih hx, bridged_cons, reaches_cons_of_neg hc]
          constructor
          · rintro (hreach | hbridged)
            · exact Or.inl hreach
            · exact Or.inr (Or.inr hbridged)
          · rintro (hreach | ⟨rfl, ha, -⟩ | hbridged)
            · exact Or.inl hreach
            · rw [hc] at ha
              cases ha
            · exact Or.inr hbridged

/-- The others are those between which something was left out. -/
theorem mem_selected_far {l : List α} {a b : α} :
    ((a, b), false) ∈ selected p l ↔ Bridged p l a b := by
  induction l with
  | nil => simp [selected, selectedFrom, Bridged]
  | cons c l ih =>
      cases hc : p c with
      | true =>
          rw [selected, selectedFrom, if_pos hc, mem_selectedFrom_far hc, bridged_cons]
          constructor
          · rintro (⟨rfl, hreach⟩ | hbridged)
            · exact Or.inl ⟨rfl, hc, hreach⟩
            · exact Or.inr hbridged
          · rintro (⟨rfl, -, hreach⟩ | hbridged)
            · exact Or.inl ⟨rfl, hreach⟩
            · exact Or.inr hbridged
      | false =>
          rw [selected, selectedFrom, if_neg (by simp [hc]), bridged_cons]
          constructor
          · intro hmem
            exact Or.inr (ih.mp hmem)
          · rintro (⟨rfl, ha, -⟩ | hbridged)
            · rw [hc] at ha
              cases ha
            · exact ih.mpr hbridged

/-- The neighbours in a selection that are none in the list. -/
def bridges (p : α → Bool) (l : List α) : List (α × α) :=
  ((selected p l).filter fun e => !e.2).map Prod.fst

theorem mem_bridges {l : List α} {a b : α} : (a, b) ∈ bridges p l ↔ Bridged p l a b := by
  rw [← mem_selected_far, bridges, List.mem_map]
  constructor
  · rintro ⟨⟨q, near⟩, hmem, rfl⟩
    obtain ⟨hmem, hfar⟩ := List.mem_filter.mp hmem
    obtain rfl : near = false := by simpa using hfar
    exact hmem
  · intro hmem
    exact ⟨_, List.mem_filter.mpr ⟨hmem, rfl⟩, rfl⟩

/-- A selection has two kinds of neighbours. -/
theorem neighbours_filter_perm (l : List α) :
    (neighbours (l.filter p)).Perm (within p l ++ bridges p l) := by
  rw [← selected_fst, ← selected_near, bridges, ← List.map_append]
  exact (List.filter_append_perm Prod.snd (selected p l)).symm.map Prod.fst

/-- Where nothing was left out in between, a selection makes no new neighbours. -/
theorem neighbours_filter {l : List α} (hnone : ∀ a b, ¬ Bridged p l a b) :
    neighbours (l.filter p) = within p l := by
  have hall : (selected p l).filter Prod.snd = selected p l := by
    rw [List.filter_eq_self]
    rintro ⟨⟨a, b⟩, near⟩ hmem
    cases near with
    | true => rfl
    | false => exact absurd (mem_selected_far.mp hmem) (hnone a b)
  rw [← selected_fst, ← selected_near, hall]

end Neighbours
