import Mathlib.Data.List.Induction
import Mathlib.Data.List.Infix
import Mathlib.Data.List.Nodup
import Mathlib.Data.List.SplitBy

/-! # Collecting in pieces

Items are collected one after another, and what has been collected is dropped when it is full. So
the items fall into pieces that are full with their last item, and a rest that is collected.
-/

namespace Pieces

variable {α : Type} (full : List α → Bool)

def collect (cur : List α) (a : α) : List α :=
  let cur := cur ++ [a]
  if full cur then [] else cur

/-- Items that are not full, and have not been before. -/
def Short (p : List α) : Prop := ∀ q, q <+: p → q ≠ [] → full q = false

/-- Items that are full with the last one. -/
def Piece (p : List α) : Prop := ∃ init a, p = init ++ [a] ∧ Short full init ∧ full p = true

structure Cut (items : List α) (pieces : List (List α)) (rest : List α) : Prop where
  items : pieces.flatten ++ rest = items
  pieces : ∀ p ∈ pieces, Piece full p
  rest : Short full rest

variable {full}

theorem short_nil : Short full [] := fun _ hq hne => absurd (List.prefix_nil.mp hq) hne

theorem short_concat_iff {p : List α} {a : α} :
    Short full (p ++ [a]) ↔ Short full p ∧ full (p ++ [a]) = false := by
  constructor
  · intro hshort
    exact ⟨fun q hq => hshort q (hq.trans (List.prefix_append p [a])),
      hshort _ (List.prefix_refl _) (by simp)⟩
  · rintro ⟨hshort, hfull⟩ q hq hne
    obtain rfl | hq := List.prefix_concat_iff.mp hq
    · exact hfull
    · exact hshort q hq hne

theorem foldl_short {p : List α} (hp : Short full p) : p.foldl (collect full) [] = p := by
  induction p using List.reverseRecOn with
  | nil => rfl
  | append_singleton p a ih =>
      obtain ⟨hshort, hfull⟩ := short_concat_iff.mp hp
      rw [List.foldl_concat, ih hshort, collect]
      exact if_neg (by simp [hfull])

theorem foldl_piece {p : List α} (hp : Piece full p) : p.foldl (collect full) [] = [] := by
  obtain ⟨init, a, rfl, hshort, hfull⟩ := hp
  rw [List.foldl_concat, foldl_short hshort, collect]
  exact if_pos hfull

/-- There is one way to cut the items, and what is collected is the rest. -/
theorem Cut.foldl_eq {items rest : List α} {pieces : List (List α)}
    (hcut : Cut full items pieces rest) : items.foldl (collect full) [] = rest := by
  have hpieces : pieces.flatten.foldl (collect full) [] = [] := by
    have hall := hcut.pieces
    clear hcut
    induction pieces with
    | nil => rfl
    | cons p pieces ih =>
        obtain ⟨hp, hpieces⟩ := List.forall_mem_cons.mp hall
        rw [List.flatten_cons, List.foldl_append, foldl_piece hp, ih hpieces]
  rw [← hcut.items, List.foldl_append, hpieces, foldl_short hcut.rest]

theorem cut_foldl (full : List α → Bool) (items : List α) :
    ∃ pieces, Cut full items pieces (items.foldl (collect full) []) := by
  induction items using List.reverseRecOn with
  | nil => exact ⟨[], rfl, by simp, short_nil⟩
  | append_singleton items a ih =>
      obtain ⟨pieces, hitems, hpieces, hrest⟩ := ih
      rw [List.foldl_concat, collect]
      set rest := items.foldl (collect full) []
      cases hfull : full (rest ++ [a]) with
      | true =>
          refine ⟨pieces ++ [rest ++ [a]], ?_, ?_, short_nil⟩
          · simp [← hitems]
          · intro p hp
            obtain hp | hp := List.mem_append.mp hp
            · exact hpieces p hp
            · exact ⟨rest, a, List.mem_singleton.mp hp, hrest, List.mem_singleton.mp hp ▸ hfull⟩
      | false =>
          refine ⟨pieces, ?_, hpieces, short_concat_iff.mpr ⟨hrest, hfull⟩⟩
          simp [← hitems]

end Pieces

/-! ## Neighbours in groups

A list is split into groups of neighbours that belong together. Two neighbours of the list that
belong together are neighbours in a group, two neighbours in a group belong together, and what
belongs to neither of its neighbours is a group of its own.
-/

namespace Grouping

variable {α : Type} {r : α → α → Bool} {l g : List α} {u v w : α}

/-- Two elements that follow each other. -/
def Next (l : List α) (u w : α) : Prop := [u, w] <:+: l

theorem Next.within (h : Next g u w) (hg : g <:+: l) : Next l u w := h.trans hg

theorem Next.mem (h : Next l u w) : u ∈ l ∧ w ∈ l :=
  ⟨h.subset (by simp), h.subset (by simp)⟩

/-- In a list of groups two neighbours are in one group or at a border. -/
theorem next_flatten {gs : List (List α)} (hne : [] ∉ gs) (h : Next gs.flatten u w) :
    (∃ g ∈ gs, Next g u w) ∨
      ∃ g g', Next gs g g' ∧ (∃ hg, g.getLast hg = u) ∧ ∃ hg', g'.head hg' = w := by
  induction gs with
  | nil => simp [Next] at h
  | cons g gs ih =>
      have hrest : [] ∉ gs := fun hmem => hne (List.mem_cons_of_mem _ hmem)
      rw [Next, List.flatten_cons] at h
      obtain hin | hin | ⟨hu, hw⟩ : Next g u w ∨ Next gs.flatten u w ∨
          (∃ hg, g.getLast hg = u) ∧ ∃ hf, gs.flatten.head hf = w := by
        rw [List.infix_append_iff_ne_nil] at h
        obtain hin | hin | ⟨t₁, t₂, hne₁, hne₂, hsplit, hsuffix, hprefix⟩ := h
        · exact Or.inl hin
        · exact Or.inr (Or.inl hin)
        · rcases t₁ with _ | ⟨a, _ | ⟨b, t₁⟩⟩
          · exact absurd rfl hne₁
          · obtain ⟨rfl, rfl⟩ : u = a ∧ t₂ = [w] := by simpa [eq_comm] using hsplit
            obtain ⟨init, rfl⟩ := hsuffix
            obtain ⟨back, hback⟩ := hprefix
            refine Or.inr (Or.inr ⟨⟨by simp, by simp⟩, by simp [← hback], ?_⟩)
            simp [← hback]
          · have hempty : u = a ∧ w = b ∧ t₁ = [] ∧ t₂ = [] := by simpa using hsplit
            exact absurd hempty.2.2.2 hne₂
      · exact Or.inl ⟨g, List.mem_cons_self, hin⟩
      · obtain ⟨g', hg', hin'⟩ | ⟨g', g'', hnext, hends⟩ := ih hrest hin
        · exact Or.inl ⟨g', List.mem_cons_of_mem _ hg', hin'⟩
        · exact Or.inr ⟨g', g'', hnext.within (List.suffix_cons g gs).isInfix, hends⟩
      · cases gs with
        | nil => simp at hw
        | cons g' gs =>
            have hne' : g' ≠ [] := fun hnil => hrest (by simp [hnil])
            refine Or.inr ⟨g, g', ⟨[], gs, rfl⟩, hu, hne', ?_⟩
            obtain ⟨hf, hw⟩ := hw
            rw [← hw]
            simp [List.flatten_cons, List.head_append_of_ne_nil, hne']

theorem next_in_group (h : Next l u w) (hr : r u w = true) : ∃ g ∈ l.splitBy r, Next g u w := by
  have hflat := List.flatten_splitBy r l
  rw [← hflat] at h
  obtain hin | ⟨g, g', hnext, ⟨hg, hu⟩, hg', hw⟩ := next_flatten (List.nil_notMem_splitBy r l) h
  · exact hin
  · have hborder := List.IsChain.infix (List.isChain_getLast_head_splitBy r l) hnext
    rw [List.isChain_pair] at hborder
    obtain ⟨_, _, hnot⟩ := hborder
    rw [hu, hw, hr] at hnot
    cases hnot

theorem group_part (hg : g ∈ l.splitBy r) : g <:+: l := by
  have hin := List.infix_of_mem_flatten hg
  rwa [List.flatten_splitBy] at hin

theorem related_of_next (hg : g ∈ l.splitBy r) (h : Next g u w) : r u w = true := by
  have hchain := List.IsChain.infix (List.isChain_of_mem_splitBy hg) h
  simpa using hchain

/-- What belongs to neither neighbour is a group. -/
theorem singleton_mem_splitBy (hv : v ∈ l) (hbefore : ∀ u, Next l u v → r u v = false)
    (hbehind : ∀ w, Next l v w → r v w = false) : [v] ∈ l.splitBy r := by
  obtain ⟨front, back, rfl⟩ := List.append_of_mem hv
  have hfront : ∀ u ∈ front.getLast?, r u v = false := by
    intro u hu
    obtain ⟨init, rfl⟩ := List.getLast?_eq_some_iff.mp hu
    exact hbefore u ⟨init, back, by simp⟩
  have hback : ∀ x ∈ [v].getLast?, ∀ w ∈ back.head?, r x w = false := by
    intro x hx w hw
    obtain rfl : v = x := by simpa using hx
    obtain ⟨rest, rfl⟩ := List.head?_eq_some_iff.mp hw
    exact hbehind w ⟨front, rest, by simp⟩
  have hsplit : (v :: back).splitBy r = [v].splitBy r ++ back.splitBy r :=
    List.splitBy_append (l := [v]) hback
  rw [List.splitBy_append_cons back hfront, hsplit,
    List.splitBy_of_isChain (List.cons_ne_nil v []) (List.isChain_singleton v)]
  simp

/-- A group of its own belongs to no neighbour. -/
theorem not_related_of_singleton (hnodup : l.Nodup) (hv : [v] ∈ l.splitBy r)
    (h : Next l u w) (heq : u = v ∨ w = v) : r u w = false := by
  by_contra hr
  obtain ⟨g, hg, hin⟩ := next_in_group h (Bool.not_eq_false _ ▸ hr)
  have hdisjoint : (l.splitBy r).Pairwise List.Disjoint := by
    rw [← List.flatten_splitBy r l, List.nodup_flatten] at hnodup
    exact hnodup.2
  have hmem : v ∈ g := by
    obtain rfl | rfl := heq
    · exact hin.mem.1
    · exact hin.mem.2
  have hne : [v] ≠ g := by
    rintro rfl
    have hlength := hin.length_le
    simp at hlength
  have hsymm : Std.Symm (List.Disjoint (α := α)) := ⟨fun _ _ hd _ ha hb => hd hb ha⟩
  exact hdisjoint.forall hv hg hne (List.mem_singleton_self v) hmem

/-- An element of a longer list has a neighbour. -/
theorem exists_next (hv : v ∈ l) (hlong : 2 ≤ l.length) : ∃ u, Next l u v ∨ Next l v u := by
  obtain ⟨front, back, rfl⟩ := List.append_of_mem hv
  cases back with
  | cons w back => exact ⟨w, Or.inr ⟨front, back, by simp⟩⟩
  | nil =>
      obtain rfl | ⟨init, u, rfl⟩ := List.eq_nil_or_concat' front
      · simp at hlong
      · exact ⟨u, Or.inl ⟨init, [], by simp⟩⟩

end Grouping
