import Mathlib.Data.List.Sort
import Mathlib.Data.List.Perm.Subperm
import Mathlib.Data.List.Range
import Mathlib.Algebra.Order.Ring.Nat

/-! # Thinning a list

A list is cut into chunks and some positions of each chunk are kept. What is kept is a
subsequence of the list; it is described by its positions, and a position of the list belongs to
it exactly when it is one of those kept of its chunk. If every chunk keeps its ends, two
neighbours of what is kept that are apart in the list come from one chunk.
-/

namespace Thinning

variable {α β : Type}

/-! ## Chunks -/

/-- The chunk of some number, empty behind the end of the list. -/
def chunk (size b : Nat) (l : List α) : List α := (l.drop (b * size)).take size

/-- How many chunks a list of some length has. -/
def chunkCount (size n : Nat) : Nat := (n + size - 1) / size

def chunks (size : Nat) (l : List α) : List (List α) :=
  (List.range (chunkCount size l.length)).map fun b => chunk size b l

theorem getElem?_chunk (size b i : Nat) (l : List α) :
    (chunk size b l)[i]? = if i < size then l[b * size + i]? else none := by
  rw [chunk, List.getElem?_take]
  split
  · rw [List.getElem?_drop]
  · rfl

theorem chunk_map (f : α → β) (size b : Nat) (l : List α) :
    chunk size b (l.map f) = (chunk size b l).map f := by
  rw [chunk, chunk, List.map_take, List.map_drop]

section Size

variable {size : Nat} (hsize : 0 < size)

include hsize

theorem lt_chunkCount {b n : Nat} : b < chunkCount size n ↔ b * size < n := by
  rw [chunkCount, Nat.lt_iff_add_one_le, Nat.le_div_iff_mul_le hsize, Nat.add_mul, Nat.one_mul]
  omega

theorem chunk_ne_nil {b : Nat} {l : List α} (hb : b < chunkCount size l.length) :
    chunk size b l ≠ [] := by
  rw [lt_chunkCount hsize] at hb
  intro hnil
  have hlength := congrArg List.length hnil
  rw [chunk, List.length_take, List.length_drop, List.length_nil] at hlength
  omega

theorem flatten_chunks (l : List α) : (chunks size l).flatten = l := by
  have hprefix : ∀ k, ((List.range k).map fun b => chunk size b l).flatten = l.take (k * size) := by
    intro k
    induction k with
    | zero => simp
    | succ k ih =>
        rw [List.range_succ, List.map_append, List.flatten_append, ih, List.map_singleton,
          List.flatten_singleton, chunk, Nat.succ_mul, List.take_add]
  rw [chunks, hprefix, List.take_of_length_le]
  have hlast : ¬chunkCount size l.length < chunkCount size l.length := lt_irrefl _
  rw [lt_chunkCount hsize] at hlast
  omega

end Size

/-! ## What is kept -/

/-- The elements at some positions. -/
def selected (l : List α) (positions : List Nat) : List α := positions.filterMap (l[·]?)

theorem selected_range (l : List α) : selected l (List.range l.length) = l := by
  induction l with
  | nil => rfl
  | cons a l ih =>
      rw [selected, List.length_cons, List.range_succ_eq_map, List.filterMap_cons]
      simp only [List.getElem?_cons_zero, List.filterMap_map]
      exact congrArg (a :: ·) ih

theorem selected_map (f : α → β) (l : List α) (positions : List Nat) :
    selected (l.map f) positions = (selected l positions).map f := by
  simp only [selected, List.map_filterMap, List.getElem?_map]

theorem selected_sublist {l : List α} {positions : List Nat}
    (hascending : positions.Pairwise (· < ·))
    (hbound : ∀ i ∈ positions, i < l.length) : (selected l positions).Sublist l := by
  have hsub : positions.Sublist (List.range l.length) := by
    apply List.sublist_of_subperm_of_pairwise (r := (· < ·)) _ hascending List.pairwise_lt_range
    apply List.Nodup.subperm (hascending.imp fun h => h.ne)
    exact fun i hi => List.mem_range.mpr (hbound i hi)
  have hkept := hsub.filterMap (l[·]?)
  rwa [show (List.range l.length).filterMap (l[·]?) = l from selected_range l] at hkept

/-- A choice of positions in every chunk: in their order, and within the chunk. -/
structure Picking (pick : List α → List Nat) : Prop where
  ascending : ∀ c, (pick c).Pairwise (· < ·)
  bounded : ∀ c ≠ [], ∀ i ∈ pick c, i < c.length

def thinned (pick : List α → List Nat) (size : Nat) (l : List α) : List α :=
  (chunks size l).flatMap fun c => selected c (pick c)

/-- The positions that are kept of a list. -/
def positions (pick : List α → List Nat) (size : Nat) (l : List α) : List Nat :=
  (thinned (fun c => pick (c.map Prod.fst)) size l.zipIdx).map Prod.snd

section Picks

variable {pick : List α → List Nat} (hpick : Picking pick) {size : Nat} (hsize : 0 < size)

theorem thinned_map (f : β → α) (pick : List α → List Nat) (size : Nat) (l : List β) :
    thinned pick size (l.map f) = (thinned (fun c => pick (c.map f)) size l).map f := by
  simp only [thinned, chunks, List.length_map, List.flatMap_map, List.map_flatMap, chunk_map,
    selected_map]

theorem thinned_eq_map (pick : List α → List Nat) (size : Nat) (l : List α) :
    thinned pick size l =
      (thinned (fun c => pick (c.map Prod.fst)) size l.zipIdx).map Prod.fst := by
  conv_lhs => rw [← List.zipIdx_map_fst 0 l]
  exact thinned_map Prod.fst pick size l.zipIdx

include hpick in
theorem Picking.comp (f : β → α) : Picking fun c : List β => pick (c.map f) where
  ascending c := hpick.ascending _
  bounded c hc i hi := by
    simpa using hpick.bounded (c.map f) (by simpa using hc) i hi

include hpick hsize

/-- What is kept is a subsequence. -/
theorem thinned_sublist (l : List α) : (thinned pick size l).Sublist l := by
  have hparts : ∀ c ∈ chunks size l, (selected c (pick c)).Sublist c := by
    intro c hc
    obtain ⟨b, hb, rfl⟩ := List.mem_map.mp hc
    have hne := chunk_ne_nil hsize (List.mem_range.mp hb)
    exact selected_sublist (hpick.ascending _) (hpick.bounded _ hne)
  have hall : ∀ cs : List (List α), (∀ c ∈ cs, (selected c (pick c)).Sublist c) →
      (cs.flatMap fun c => selected c (pick c)).Sublist cs.flatten := by
    intro cs hcs
    induction cs with
    | nil => exact List.Sublist.refl _
    | cons c cs ih =>
        rw [List.flatMap_cons, List.flatten_cons]
        exact (hcs c List.mem_cons_self).append (ih fun d hd => hcs d (List.mem_cons_of_mem _ hd))
  have hsub := hall _ hparts
  rwa [flatten_chunks hsize] at hsub

theorem ascending_positions (l : List α) : (positions pick size l).Pairwise (· < ·) := by
  have hsub := (thinned_sublist (hpick.comp Prod.fst) hsize l.zipIdx).map Prod.snd
  rw [List.zipIdx_map_snd] at hsub
  exact (List.pairwise_lt_range' _).sublist hsub

omit hpick in
theorem mem_thinned_zipIdx {l : List α} {a : α} {g : Nat} :
    (a, g) ∈ thinned (fun c => pick (c.map Prod.fst)) size l.zipIdx ↔
      l[g]? = some a ∧ g % size ∈ pick (chunk size (g / size) l) := by
  have hfst : ∀ b, (chunk size b l.zipIdx).map Prod.fst = chunk size b l := by
    intro b
    rw [← chunk_map, List.zipIdx_map_fst]
  simp only [thinned, chunks, List.mem_flatMap, List.mem_map, List.mem_range, selected,
    List.mem_filterMap, exists_exists_and_eq_and, List.length_zipIdx, hfst, getElem?_chunk]
  constructor
  · rintro ⟨b, hb, i, hi, hget⟩
    split at hget
    next hlt =>
      rw [List.getElem?_zipIdx, Option.map_eq_some_iff] at hget
      obtain ⟨a', ha', heq⟩ := hget
      obtain ⟨rfl, rfl⟩ := Prod.mk.inj heq
      have hdiv : (0 + (b * size + i)) / size = b := by
        rw [Nat.zero_add, Nat.mul_comm, Nat.mul_add_div hsize, Nat.div_eq_of_lt hlt, Nat.add_zero]
      have hmod : (0 + (b * size + i)) % size = i := by
        rw [Nat.zero_add, Nat.mul_comm, Nat.mul_add_mod, Nat.mod_eq_of_lt hlt]
      rw [hdiv, hmod]
      exact ⟨by rwa [Nat.zero_add], hi⟩
    next => cases hget
  · rintro ⟨hget, hi⟩
    have hsplit : g / size * size + g % size = g := Nat.div_add_mod' g size
    refine ⟨g / size, ?_, g % size, hi, ?_⟩
    · rw [lt_chunkCount hsize]
      have hlt := (List.getElem?_eq_some_iff.mp hget).1
      have hle := Nat.div_mul_le_self g size
      omega
    · rw [if_pos (Nat.mod_lt _ hsize), hsplit, List.getElem?_zipIdx, hget]
      simp

omit hpick in
/-- A position is kept if its chunk keeps it. -/
theorem mem_positions {l : List α} {g : Nat} :
    g ∈ positions pick size l ↔ g < l.length ∧ g % size ∈ pick (chunk size (g / size) l) := by
  rw [positions, List.mem_map]
  constructor
  · rintro ⟨⟨a, g'⟩, hmem, rfl⟩
    obtain ⟨hget, hi⟩ := (mem_thinned_zipIdx hsize).mp hmem
    exact ⟨(List.getElem?_eq_some_iff.mp hget).1, hi⟩
  · rintro ⟨hlt, hi⟩
    exact ⟨(l[g], g), (mem_thinned_zipIdx hsize).mpr ⟨List.getElem?_eq_getElem hlt, hi⟩, rfl⟩

omit hpick in
/-- What is kept is what stands at the positions. -/
theorem thinned_eq_selected (l : List α) :
    thinned pick size l = selected l (positions pick size l) := by
  have hget : ∀ q ∈ thinned (fun c => pick (c.map Prod.fst)) size l.zipIdx,
      l[q.2]? = some q.1 := fun q hq => ((mem_thinned_zipIdx hsize).mp hq).1
  rw [thinned_eq_map, positions, selected, List.filterMap_map]
  generalize thinned (fun c => pick (c.map Prod.fst)) size l.zipIdx = kept at hget ⊢
  induction kept with
  | nil => rfl
  | cons q kept ih =>
      rw [List.map_cons, List.filterMap_cons, Function.comp_apply, hget q List.mem_cons_self]
      exact congrArg (q.1 :: ·) (ih fun r hr => hget r (List.mem_cons_of_mem _ hr))

omit hpick hsize in
theorem mem_selected {l : List α} {positions : List Nat} {a : α} :
    a ∈ selected l positions ↔ ∃ i ∈ positions, l[i]? = some a := List.mem_filterMap

end Picks

/-! ## The ends -/

section Ends

variable {l : List α} {positions : List Nat} (hascending : positions.Pairwise (· < ·))

include hascending

theorem head_selected (hzero : 0 ∈ positions) : (selected l positions).head? = l.head? := by
  cases positions with
  | nil => cases hzero
  | cons i rest =>
      obtain rfl : i = 0 := by
        obtain heq | hrest := List.mem_cons.mp hzero
        · exact heq.symm
        · exact absurd ((List.pairwise_cons.mp hascending).1 0 hrest) (Nat.not_lt_zero i)
      cases l with
      | nil => simp [selected]
      | cons a l => rfl

theorem getLast_selected (hlast : l.length - 1 ∈ positions)
    (hbound : ∀ i ∈ positions, i < l.length) : (selected l positions).getLast? = l.getLast? := by
  obtain rfl | ⟨front, i, rfl⟩ := List.eq_nil_or_concat' positions
  · cases hlast
  · have hi : i < l.length := hbound i (by simp)
    obtain rfl : i = l.length - 1 := by
      obtain hfront | heq := List.mem_append.mp hlast
      · have hlt := (List.pairwise_append.mp hascending).2.2 _ hfront i (List.mem_singleton_self i)
        omega
      · exact (List.mem_singleton.mp heq).symm
    have hend : l.getLast? = some l[l.length - 1] := by
      rw [List.getLast?_eq_getElem?, List.getElem?_eq_getElem hi]
    rw [selected, List.filterMap_append, hend]
    simp [List.getElem?_eq_getElem hi]

end Ends

/-! ## Neighbours of what is kept -/

/-- Something at a position of a list. -/
def Holds (p : α → Prop) (l : List α) (i : Nat) : Prop := ∃ a, l[i]? = some a ∧ p a

/-- Between two chosen positions where a property holds, and between which it fails somewhere,
another one is chosen. -/
def Broken (p : α → Prop) (chosen : Nat → Prop) (l : List α) : Prop :=
  ∀ i u j, chosen i → chosen j → i < u → u < j → Holds p l i → Holds p l j →
    Holds (fun a => ¬p a) l u → ∃ k, chosen k ∧ i < k ∧ k < j

section Breaks

variable {pick : List α → List Nat} {size : Nat} (hsize : 0 < size)

include hsize

omit hsize in
theorem holds_chunk {p : α → Prop} {l : List α} {b i : Nat} (hi : i < size) :
    Holds p (chunk size b l) i ↔ Holds p l (b * size + i) := by
  rw [Holds, Holds, getElem?_chunk, if_pos hi]

omit hsize in
theorem holds_lt {p : α → Prop} {l : List α} {b i : Nat} (h : Holds p (chunk size b l) i) :
    i < size := by
  obtain ⟨a, hget, -⟩ := h
  rw [getElem?_chunk] at hget
  by_contra hlt
  rw [if_neg hlt] at hget
  cases hget

theorem div_mod_offset {b i : Nat} (hi : i < size) :
    (b * size + i) / size = b ∧ (b * size + i) % size = i := by
  constructor
  · rw [Nat.mul_comm, Nat.mul_add_div hsize, Nat.div_eq_of_lt hi, Nat.add_zero]
  · rw [Nat.mul_comm, Nat.mul_add_mod, Nat.mod_eq_of_lt hi]

/-- A position of a chunk is kept of it if it is kept of the list. -/
theorem offset_mem_positions {l : List α} {b i : Nat} (hi : i < size) :
    b * size + i ∈ positions pick size l ↔
      b * size + i < l.length ∧ i ∈ pick (chunk size b l) := by
  obtain ⟨hdiv, hmod⟩ := div_mod_offset hsize (b := b) hi
  rw [mem_positions hsize, hdiv, hmod]

/-- If every chunk keeps its ends, no more than one chunk lies between two neighbours. -/
theorem same_chunk {l : List α} (hends : ∀ c : List α, c ≠ [] → 0 ∈ pick c ∧ c.length - 1 ∈ pick c)
    {i u j : Nat} (hj : j ∈ positions pick size l) (hiu : i < u) (huj : u < j)
    (hnone : ∀ k ∈ positions pick size l, ¬(i < k ∧ k < j)) :
    i / size = u / size ∧ j / size = u / size := by
  have hjlen := ((mem_positions hsize).mp hj).1
  have hu := Nat.div_add_mod' u size
  have humod := Nat.mod_lt u hsize
  have hlength : (chunk size (u / size) l).length = min size (l.length - u / size * size) := by
    rw [chunk, List.length_take, List.length_drop]
  have hne : chunk size (u / size) l ≠ [] := by
    intro hnil
    rw [hnil, List.length_nil] at hlength
    omega
  obtain ⟨hfirst, hlast⟩ := hends _ hne
  rw [hlength] at hlast
  -- the first position of the chunk is not behind the left neighbour, nor the last one before
  -- the right one
  have hleft : u / size * size ≤ i := by
    by_contra hlt
    refine hnone (u / size * size + 0) ?_ (by omega)
    exact (offset_mem_positions hsize hsize).mpr ⟨by omega, hfirst⟩
  have hright : j ≤ u / size * size + (min size (l.length - u / size * size) - 1) := by
    by_contra hlt
    refine hnone (u / size * size + (min size (l.length - u / size * size) - 1)) ?_ (by omega)
    exact (offset_mem_positions hsize (by omega)).mpr ⟨by omega, hlast⟩
  have hiquot : i = u / size * size + (i - u / size * size) := by omega
  have hjquot : j = u / size * size + (j - u / size * size) := by omega
  constructor
  · rw [hiquot]
    exact (div_mod_offset hsize (by omega)).1
  · rw [hjquot]
    exact (div_mod_offset hsize (by omega)).1

/-- What is kept of a list is broken where it has to be if it is in every chunk. -/
theorem broken_iff {l : List α}
    (hends : ∀ c : List α, c ≠ [] → 0 ∈ pick c ∧ c.length - 1 ∈ pick c) (p : α → Prop) :
    Broken p (· ∈ positions pick size l) l ↔
      ∀ c ∈ chunks size l, Broken p (· ∈ pick c) c := by
  constructor
  · intro hbroken c hc i u j hi hj hiu huj hpi hpj hpu
    obtain ⟨b, -, rfl⟩ := List.mem_map.mp hc
    have hilt := holds_lt hpi
    have hjlt := holds_lt hpj
    have hult := holds_lt hpu
    rw [holds_chunk hilt] at hpi
    rw [holds_chunk hjlt] at hpj
    rw [holds_chunk hult] at hpu
    have hmem : ∀ {m}, m < size → Holds p l (b * size + m) → m ∈ pick (chunk size b l) →
        b * size + m ∈ positions pick size l := by
      intro m hm hpm hpick
      obtain ⟨a, hget, -⟩ := hpm
      exact (offset_mem_positions hsize hm).mpr ⟨(List.getElem?_eq_some_iff.mp hget).1, hpick⟩
    -- what is kept between the two in the list is in their chunk
    obtain ⟨k, hk, hik, hkj⟩ := hbroken _ _ _ (hmem hilt hpi hi) (hmem hjlt hpj hj)
      (Nat.add_lt_add_left hiu _) (Nat.add_lt_add_left huj _) hpi hpj hpu
    have hkquot : k = b * size + (k - b * size) := by omega
    rw [hkquot] at hk
    exact ⟨k - b * size, ((offset_mem_positions hsize (by omega)).mp hk).2, by omega, by omega⟩
  · intro hchunks i u j hi hj hiu huj hpi hpj hpu
    by_contra hnot
    have hnone : ∀ k ∈ positions pick size l, ¬(i < k ∧ k < j) :=
      fun k hk hbetween => hnot ⟨k, hk, hbetween⟩
    -- every chunk keeps its ends, so two neighbours of the kept are in the chunk of what is between
    obtain ⟨hidiv, hjdiv⟩ := same_chunk hsize hends hj hiu huj hnone
    have hiq := Nat.div_add_mod' i size
    have huq := Nat.div_add_mod' u size
    have hjq := Nat.div_add_mod' j size
    have himod := Nat.mod_lt i hsize
    have humod := Nat.mod_lt u hsize
    have hjmod := Nat.mod_lt j hsize
    rw [hidiv] at hiq
    rw [hjdiv] at hjq
    rw [mem_positions hsize, hidiv] at hi
    rw [mem_positions hsize, hjdiv] at hj
    have hulen : u < l.length := huj.trans hj.1
    have hc : chunk size (u / size) l ∈ chunks size l := by
      refine List.mem_map.mpr ⟨u / size, List.mem_range.mpr ((lt_chunkCount hsize).mpr ?_), rfl⟩
      omega
    have hinner : ∀ {q : α → Prop} {m g : Nat}, m < size → u / size * size + m = g → Holds q l g →
        Holds q (chunk size (u / size) l) m := by
      intro q m g hm hg hq
      rw [holds_chunk hm, hg]
      exact hq
    obtain ⟨k, hk, hik, hkj⟩ := hchunks _ hc _ _ _ hi.2 hj.2 (by omega) (by omega)
      (hinner himod hiq hpi) (hinner hjmod hjq hpj) (hinner humod huq hpu)
    refine hnone (u / size * size + k) ?_ (by omega)
    exact (offset_mem_positions hsize (by omega)).mpr ⟨by omega, hk⟩

end Breaks

end Thinning
