import Mathlib.Data.List.Basic

/-! # Items under headings

Some of the items of a list are headings, and the details behind a heading belong to its name until
the next one. A reading that takes more items for headings loses those that belong to a name, and
whatever follows a heading that is none may be listed where it does not belong.
-/

namespace Headings

variable {α κ : Type} [DecidableEq κ]

/-- The details under a name, where it is known whether the first items are under it. -/
def under (heading : α → Option κ) (detail : α → Bool) (name : κ) : Bool → List α → List α
  | _, [] => []
  | on, item :: items =>
      match heading item with
      | some n => under heading detail name (n = name) items
      | none =>
          if on && detail item then item :: under heading detail name on items
          else under heading detail name on items

section Under

variable {heading : α → Option κ} {detail : α → Bool} {name : κ}

theorem under_heading {item : α} {n : κ} (h : heading item = some n) (on : Bool) (items : List α) :
    under heading detail name on (item :: items) = under heading detail name (n = name) items := by
  rw [under, h]

theorem under_detail {item : α} (h : heading item = none) (hdetail : detail item = true)
    (items : List α) :
    under heading detail name true (item :: items) =
      item :: under heading detail name true items := by
  rw [under, h]
  exact if_pos (by simpa using hdetail)

theorem under_skipped {item : α} {on : Bool} (h : heading item = none)
    (hskip : (on && detail item) = false) (items : List α) :
    under heading detail name on (item :: items) = under heading detail name on items := by
  rw [under, h]
  exact if_neg (by simpa using hskip)

/-- A heading is not listed. -/
theorem heading_of_mem_under {on : Bool} {items : List α} {item : α}
    (hmem : item ∈ under heading detail name on items) : heading item = none := by
  induction items generalizing on with
  | nil => cases hmem
  | cons first items ih =>
      cases h : heading first with
      | some n =>
          rw [under_heading h] at hmem
          exact ih hmem
      | none =>
          cases hon : on && detail first with
          | false =>
              rw [under_skipped h hon] at hmem
              exact ih hmem
          | true =>
              obtain ⟨rfl, hdetail⟩ := Bool.and_eq_true_iff.mp hon
              rw [under_detail h hdetail] at hmem
              rcases List.mem_cons.mp hmem with rfl | hmem
              · exact h
              · exact ih hmem

end Under

/-! ## Two readings -/

section Readings

variable {heading heading' : α → Option κ} {detail : α → Bool} {name : κ}

/-- A detail that the next items have in front of every heading. -/
def Follows (heading' : α → Option κ) (detail : α → Bool) (items : List α) : Prop :=
  ∃ between item behind, items = between ++ item :: behind ∧ (∀ x ∈ between, heading' x = none) ∧
    heading' item = none ∧ detail item = true

/-- An item that is no heading is read as one with this name, and a detail follows. -/
def Strays (heading heading' : α → Option κ) (detail : α → Bool) (name : κ) (items : List α) :
    Prop :=
  ∃ before item behind, items = before ++ item :: behind ∧ heading item = none ∧
    heading' item = some name ∧ Follows heading' detail behind

omit [DecidableEq κ] in
theorem follows_cons {item : α} {items : List α} : Follows heading' detail (item :: items) ↔
    heading' item = none ∧ (detail item = true ∨ Follows heading' detail items) := by
  constructor
  · rintro ⟨between, x, behind, heq, hbetween, hx, hdetail⟩
    cases between with
    | nil =>
        obtain ⟨rfl, -⟩ := List.cons.inj heq
        exact ⟨hx, Or.inl hdetail⟩
    | cons first between =>
        obtain ⟨rfl, rfl⟩ := List.cons.inj heq
        obtain ⟨hfirst, hbetween⟩ := List.forall_mem_cons.mp hbetween
        exact ⟨hfirst, Or.inr ⟨between, x, behind, rfl, hbetween, hx, hdetail⟩⟩
  · rintro ⟨hitem, hdetail | ⟨between, x, behind, rfl, hbetween, hx, hdetail⟩⟩
    · exact ⟨[], item, items, rfl, by simp, hitem, hdetail⟩
    · exact ⟨item :: between, x, behind, rfl, List.forall_mem_cons.mpr ⟨hitem, hbetween⟩, hx,
        hdetail⟩

omit [DecidableEq κ] in
theorem strays_cons {item : α} {items : List α} :
    Strays heading heading' detail name (item :: items) ↔
      heading item = none ∧ heading' item = some name ∧ Follows heading' detail items ∨
        Strays heading heading' detail name items := by
  constructor
  · rintro ⟨before, x, behind, heq, hx, hx', hfollows⟩
    cases before with
    | nil =>
        obtain ⟨rfl, rfl⟩ := List.cons.inj heq
        exact Or.inl ⟨hx, hx', hfollows⟩
    | cons first before =>
        obtain ⟨-, rfl⟩ := List.cons.inj heq
        exact Or.inr ⟨before, x, behind, rfl, hx, hx', hfollows⟩
  · rintro (⟨hx, hx', hfollows⟩ | ⟨before, x, behind, rfl, hx, hx', hfollows⟩)
    · exact ⟨[], item, items, rfl, hx, hx', hfollows⟩
    · exact ⟨item :: before, x, behind, rfl, hx, hx', hfollows⟩

variable (hmore : ∀ item n, heading item = some n → heading' item = some n)
  (hdetails : ∀ item, (heading' item).isSome → detail item = true)

include hmore hdetails

/-- Where no item under a name is read as a heading, nothing that belongs to it is lost. -/
theorem under_sublist {on on' : Bool} (hon : on = true → on' = true) {items : List α}
    (hkept : ∀ item ∈ under heading detail name on items, heading' item = none) :
    (under heading detail name on items).Sublist (under heading' detail name on' items) := by
  induction items generalizing on on' with
  | nil => exact List.nil_sublist _
  | cons item items ih =>
      cases h : heading item with
      | some n =>
          rw [under_heading h] at hkept ⊢
          rw [under_heading (hmore item n h)]
          exact ih id hkept
      | none =>
          cases hdetail : on && detail item with
          | true =>
              obtain ⟨rfl, hdetail⟩ := Bool.and_eq_true_iff.mp hdetail
              obtain rfl := hon rfl
              rw [under_detail h hdetail, List.forall_mem_cons] at hkept
              rw [under_detail h hdetail, under_detail hkept.1 hdetail]
              exact (ih id hkept.2).cons_cons item
          | false =>
              rw [under_skipped h hdetail] at hkept ⊢
              cases h' : heading' item with
              | some n =>
                  rw [under_heading h']
                  -- an item that is read as a heading would be a detail, so none is under the name
                  rw [hdetails item (by rw [h']; rfl), Bool.and_true] at hdetail
                  subst hdetail
                  exact ih nofun hkept
              | none =>
                  cases hdetail' : on' && detail item with
                  | true =>
                      obtain ⟨rfl, hdetail'⟩ := Bool.and_eq_true_iff.mp hdetail'
                      rw [under_detail h' hdetail']
                      exact (ih hon hkept).cons item
                  | false =>
                      rw [under_skipped h' hdetail']
                      exact ih hon hkept

/-- Both readings list the same under a name exactly if no item under it is read as a heading, and
no detail follows an item that is read as a heading with the name. -/
theorem under_eq_iff {on on' : Bool} (hon : on = true → on' = true) {items : List α} :
    under heading detail name on items = under heading' detail name on' items ↔
      (∀ item ∈ under heading detail name on items, heading' item = none) ∧
        ¬Strays heading heading' detail name items ∧
        (on = false → on' = true → ¬Follows heading' detail items) := by
  induction items generalizing on on' with
  | nil =>
      refine ⟨fun _ => ⟨nofun, ?_, fun _ _ => ?_⟩, fun _ => rfl⟩
      · rintro ⟨before, item, behind, heq, -⟩
        simp at heq
      · rintro ⟨between, item, behind, heq, -⟩
        simp at heq
  | cons item items ih =>
      rw [strays_cons, follows_cons]
      cases h : heading item with
      | some n =>
          have h' := hmore item n h
          rw [under_heading h, under_heading h', ih id, h']
          simp only [reduceCtorEq, false_and, false_or, not_false_eq_true, implies_true, and_true,
            decide_eq_false_iff_not, decide_eq_true_eq]
          exact ⟨fun hkept => ⟨hkept.1, hkept.2.1⟩,
            fun hkept => ⟨hkept.1, hkept.2, fun hne heq => absurd heq hne⟩⟩
      | none =>
          cases h' : heading' item with
          | some n =>
              have hdetail := hdetails item (by rw [h']; rfl)
              rw [under_heading h']
              cases on with
              | true =>
                  -- the item belongs to the name, and the other reading never lists it
                  rw [under_detail h hdetail]
                  refine ⟨fun heq => ?_, fun hkept => ?_⟩
                  · have hmem : item ∈ under heading' detail name (n = name) items :=
                      heq ▸ List.mem_cons_self
                    rw [heading_of_mem_under hmem] at h'
                    cases h'
                  · have hnone := hkept.1 item List.mem_cons_self
                    rw [h'] at hnone
                    cases hnone
              | false =>
                  have hoff : false = true → decide (n = name) = true := nofun
                  rw [under_skipped h (Bool.false_and _), ih hoff]
                  by_cases hn : n = name
                  · simp [hn, not_or, and_comm]
                  · simp [hn]
          | none =>
              cases hdetail : detail item with
              | false =>
                  rw [under_skipped h (by rw [hdetail, Bool.and_false]),
                    under_skipped h' (by rw [hdetail, Bool.and_false]), ih hon]
                  simp
              | true =>
                  cases on with
                  | true =>
                      obtain rfl := hon rfl
                      rw [under_detail h hdetail, under_detail h' hdetail, List.cons_inj_right,
                        ih id, List.forall_mem_cons]
                      simp [h']
                  | false =>
                      rw [under_skipped h (Bool.false_and _)]
                      cases on' with
                      | false =>
                          rw [under_skipped h' (Bool.false_and _), ih id]
                          simp
                      | true =>
                          -- the detail is listed by the other reading alone
                          rw [under_detail h' hdetail]
                          refine ⟨fun heq => ?_, fun hkept => ?_⟩
                          · have hkept : ∀ x ∈ under heading detail name false items,
                                heading' x = none := by
                              intro x hx
                              rw [heq] at hx
                              rcases List.mem_cons.mp hx with rfl | hx
                              · exact h'
                              · exact heading_of_mem_under hx
                            have hoff : false = true → true = true := nofun
                            have hlen := (under_sublist hmore hdetails hoff hkept).length_le
                            rw [heq, List.length_cons] at hlen
                            omega
                          · exact absurd ⟨rfl, Or.inl rfl⟩ (hkept.2.2 rfl rfl)

end Readings

end Headings
