import PowerForensics.Core.Session
import PowerForensics.System.Distinct
import PowerForensics.System.Extremes
import PowerForensics.System.Thinning

/-! # Downsampled timelines

A timeline is cut into buckets, and of each bucket some readings are kept: its ends, its least
and its greatest value, its first gap and its first change of provenance or quality. So the ends
and the extremes always survive. A second gap of a bucket, or a third kind of reading, survives
only where it happens to be one of those.
-/

namespace PowerForensics.Evidence

open Extremes Thinning Distinct

structure TimelinePoint where
  tMs : UInt64
  value : Option Binary64
  provenance : String
  quality : String
  deriving DecidableEq

/-! ## Buckets and their representatives -/

def below (v u : Binary64) : Bool := v < u

def above (v u : Binary64) : Bool := u < v

/-- Readings of one provenance and quality. -/
def sameClass (p q : TimelinePoint) : Bool := p.provenance = q.provenance ∧ p.quality = q.quality

def minAt (chunk : List TimelinePoint) : Option Nat :=
  (extreme below (chunk.map TimelinePoint.value)).map Prod.fst

def maxAt (chunk : List TimelinePoint) : Option Nat :=
  (extreme above (chunk.map TimelinePoint.value)).map Prod.fst

/-- The first gap. -/
def gapAt (chunk : List TimelinePoint) : Option Nat := chunk.findIdx? fun p => p.value.isNone

/-- The first reading that is of another class than the first one. -/
def transitionAt (chunk : List TimelinePoint) : Option Nat :=
  chunk.head?.bind fun first => chunk.findIdx? fun p => !sameClass p first

def picks (chunk : List TimelinePoint) : List Nat :=
  sortedDistinct ([0] ++ (minAt chunk).toList ++ (maxAt chunk).toList ++ (gapAt chunk).toList ++
    (transitionAt chunk).toList ++ [chunk.length - 1])

def bucketSize (n max : Nat) : Nat :=
  let buckets := Nat.max (Nat.max max 4 / 4) 1
  (n + buckets - 1) / buckets

/-- A timeline of more than some points is reduced; the flag says so. -/
def downsample (points : List TimelinePoint) (max : Nat) : List TimelinePoint × Bool :=
  if max = 0 ∨ points.length ≤ max then (points, false)
  else (thinned picks (bucketSize points.length max) points, true)

/-! ## Landmarks -/

/-- The first position where something holds. -/
def FirstSuch (p : TimelinePoint → Prop) (chunk : List TimelinePoint) (i : Nat) : Prop :=
  Holds p chunk i ∧ ∀ j < i, ¬Holds p chunk j

def IsNumber (v : Binary64) : Prop := v.isNaN = false

/-- What a bucket shows of itself. -/
inductive Landmark (chunk : List TimelinePoint) : Nat → Prop where
  | first : Landmark chunk 0
  | least (i : Nat) (v : Binary64)
      (h : IsExtreme below IsNumber (chunk.map TimelinePoint.value) i v) : Landmark chunk i
  | greatest (i : Nat) (v : Binary64)
      (h : IsExtreme above IsNumber (chunk.map TimelinePoint.value) i v) : Landmark chunk i
  | gap (i : Nat) (h : FirstSuch (fun p => p.value = none) chunk i) : Landmark chunk i
  | transition (i : Nat) (start : TimelinePoint) (hstart : chunk.head? = some start)
      (h : FirstSuch (fun p => ¬sameClass p start) chunk i) : Landmark chunk i
  | last : Landmark chunk (chunk.length - 1)

theorem ordered_below : Ordered below IsNumber where
  numbers w v h := by
    obtain ⟨hw, hv, -⟩ := of_decide_eq_true h
    exact ⟨hw, hv⟩
  asymm w v h := decide_eq_false fun h' => lt_asymm (of_decide_eq_true h).2.2 h'.2.2
  trans w v u h hnot hu := by
    obtain ⟨hw, hv, hlt⟩ := of_decide_eq_true h
    have hle : v.rank ≤ u.rank := not_lt.mp fun h' => of_decide_eq_false hnot ⟨hu, hv, h'⟩
    exact decide_eq_true ⟨hw, hu, hlt.trans_le hle⟩

theorem ordered_above : Ordered above IsNumber where
  numbers w v h := by
    obtain ⟨hv, hw, -⟩ := of_decide_eq_true h
    exact ⟨hw, hv⟩
  asymm w v h := decide_eq_false fun h' => lt_asymm (of_decide_eq_true h).2.2 h'.2.2
  trans w v u h hnot hu := by
    obtain ⟨hv, hw, hlt⟩ := of_decide_eq_true h
    have hle : u.rank ≤ v.rank := not_lt.mp fun h' => of_decide_eq_false hnot ⟨hv, hu, h'⟩
    exact decide_eq_true ⟨hu, hw, hle.trans_lt hlt⟩

theorem findIdx?_eq_some_iff (p : TimelinePoint → Bool) (chunk : List TimelinePoint) (i : Nat) :
    chunk.findIdx? p = some i ↔ FirstSuch (fun q => p q = true) chunk i := by
  rw [List.findIdx?_eq_some_iff_getElem]
  constructor
  · rintro ⟨hi, hp, hbefore⟩
    refine ⟨⟨chunk[i], List.getElem?_eq_getElem hi, hp⟩, ?_⟩
    rintro j hj ⟨q, hget, hq⟩
    obtain ⟨hjlt, rfl⟩ := List.getElem?_eq_some_iff.mp hget
    exact hbefore j hj hq
  · rintro ⟨⟨q, hget, hq⟩, hbefore⟩
    obtain ⟨hi, rfl⟩ := List.getElem?_eq_some_iff.mp hget
    exact ⟨hi, hq, fun j hj hp => hbefore j hj ⟨chunk[j], List.getElem?_eq_getElem (hj.trans hi), hp⟩⟩

theorem extreme_at_iff {beats : Binary64 → Binary64 → Bool} (hbeats : Ordered beats IsNumber)
    (values : List (Option Binary64)) (i : Nat) :
    (extreme beats values).map Prod.fst = some i ↔ ∃ v, IsExtreme beats IsNumber values i v := by
  rw [Option.map_eq_some_iff]
  constructor
  · rintro ⟨⟨j, v⟩, hv, rfl⟩
    exact ⟨v, (extreme_eq_some hbeats).mp hv⟩
  · rintro ⟨v, hv⟩
    exact ⟨(i, v), (extreme_eq_some hbeats).mpr hv, rfl⟩

/-- The positions that are kept of a bucket are its landmarks. -/
theorem mem_picks {chunk : List TimelinePoint} {i : Nat} : i ∈ picks chunk ↔ Landmark chunk i := by
  have hgap : gapAt chunk = some i ↔ FirstSuch (fun p => p.value = none) chunk i := by
    rw [gapAt, findIdx?_eq_some_iff]
    simp only [Option.isNone_iff_eq_none]
  have htransition : transitionAt chunk = some i ↔ ∃ start, chunk.head? = some start ∧
      FirstSuch (fun p => ¬sameClass p start) chunk i := by
    rw [transitionAt, Option.bind_eq_some_iff]
    simp only [findIdx?_eq_some_iff, Bool.not_eq_true']
    simp
  have hleast := extreme_at_iff ordered_below (chunk.map TimelinePoint.value) i
  have hgreatest := extreme_at_iff ordered_above (chunk.map TimelinePoint.value) i
  rw [picks, mem_sortedDistinct]
  simp only [List.mem_append, List.mem_singleton, Option.mem_toList, or_assoc]
  rw [minAt, maxAt, hleast, hgreatest, hgap, htransition]
  constructor
  · rintro (rfl | ⟨v, hv⟩ | ⟨v, hv⟩ | hfirst | ⟨start, hstart, hfirst⟩ | rfl)
    · exact .first
    · exact .least i v hv
    · exact .greatest i v hv
    · exact .gap i hfirst
    · exact .transition i start hstart hfirst
    · exact .last
  · rintro (_ | ⟨_, v, hv⟩ | ⟨_, v, hv⟩ | ⟨_, hfirst⟩ | ⟨_, start, hstart, hfirst⟩ | _)
    · exact Or.inl rfl
    · exact Or.inr (Or.inl ⟨v, hv⟩)
    · exact Or.inr (Or.inr (Or.inl ⟨v, hv⟩))
    · exact Or.inr (Or.inr (Or.inr (Or.inl hfirst)))
    · exact Or.inr (Or.inr (Or.inr (Or.inr (Or.inl ⟨start, hstart, hfirst⟩))))
    · exact Or.inr (Or.inr (Or.inr (Or.inr (Or.inr rfl))))

theorem holds_length {p : TimelinePoint → Prop} {chunk : List TimelinePoint} {i : Nat}
    (h : Holds p chunk i) : i < chunk.length := by
  obtain ⟨a, hget, -⟩ := h
  exact (List.getElem?_eq_some_iff.mp hget).1

theorem picking_picks : Picking picks where
  ascending _ := ascending_sortedDistinct _
  bounded chunk hne i hi := by
    have hpos := List.length_pos_iff.mpr hne
    cases mem_picks.mp hi with
    | first => exact hpos
    | least _ v h => simpa using known_lt h.known
    | greatest _ v h => simpa using known_lt h.known
    | gap _ h => exact holds_length h.1
    | transition _ start hstart h => exact holds_length h.1
    | last => omega

/-! ## What is kept -/

/-- Nothing is left out. -/
def Whole (points : List TimelinePoint) (max : Nat) : Prop := max = 0 ∨ points.length ≤ max

instance (points : List TimelinePoint) (max : Nat) : Decidable (Whole points max) := by
  unfold Whole
  infer_instance

def bucketsOf (points : List TimelinePoint) (max : Nat) : List (List TimelinePoint) :=
  chunks (bucketSize points.length max) points

/-- What is kept of a bucket. -/
def keptOf (points : List TimelinePoint) (max : Nat) (bucket : List TimelinePoint) :
    List TimelinePoint :=
  if Whole points max then bucket else selected bucket (picks bucket)

/-- The positions that are kept of a timeline. -/
def keptPositions (points : List TimelinePoint) (max : Nat) : List Nat :=
  if Whole points max then List.range points.length
  else positions picks (bucketSize points.length max) points

/-- A timeline that stands for another one: a subsequence of it with its ends, with the extremes
and all classes of every bucket, and with a gap wherever a known point and the next one that is
kept had one between them. -/
structure Keeps (points : List TimelinePoint) (max : Nat) : Prop where
  sublist : (downsample points max).1.Sublist points
  first : (downsample points max).1.head? = points.head?
  last : (downsample points max).1.getLast? = points.getLast?
  parts : (downsample points max).1 = (bucketsOf points max).flatMap (keptOf points max)
  places : (keptPositions points max).Pairwise (· < ·) ∧
    (downsample points max).1 = selected points (keptPositions points max)
  least : ∀ c ∈ bucketsOf points max, ∀ p ∈ c, p.value.isSome →
    ∃ q ∈ keptOf points max c, ∃ x, q.value = some x ∧
      ∀ r ∈ c, ∀ v, r.value = some v → ¬v < x
  greatest : ∀ c ∈ bucketsOf points max, ∀ p ∈ c, p.value.isSome →
    ∃ q ∈ keptOf points max c, ∃ x, q.value = some x ∧
      ∀ r ∈ c, ∀ v, r.value = some v → ¬x < v
  classes : ∀ c ∈ bucketsOf points max, ∀ p ∈ c, ∃ q ∈ keptOf points max c, sameClass p q
  gaps : Broken (fun p => p.value.isSome = true) (· ∈ keptPositions points max) points

/-- A bucket that its landmarks represent: each of its classes is that of a landmark, and between
two known landmarks with a gap between them there is another one. -/
structure Represented (bucket : List TimelinePoint) : Prop where
  classes : ∀ p ∈ bucket, ∃ i, Landmark bucket i ∧ Holds (fun q => sameClass p q) bucket i
  gaps : Broken (fun p => p.value.isSome = true) (Landmark bucket) bucket

section Reduced

variable {points : List TimelinePoint} {max : Nat}

theorem bucketSize_pos (max : Nat) (hpos : 0 < points.length) :
    0 < bucketSize points.length max := by
  have hbuckets : 0 < Nat.max (Nat.max max 4 / 4) 1 := lt_max_of_lt_right Nat.one_pos
  rw [bucketSize]
  exact Nat.div_pos (by omega) hbuckets

theorem length_pos_of_reduced (hreduced : ¬Whole points max) : 0 < points.length := by
  unfold Whole at hreduced
  omega

theorem landmark_kept {bucket : List TimelinePoint} {i : Nat} {q : TimelinePoint}
    (hi : Landmark bucket i) (hget : bucket[i]? = some q) : q ∈ keptOf points max bucket := by
  unfold keptOf
  split
  · exact List.mem_of_getElem? hget
  · exact mem_selected.mpr ⟨i, mem_picks.mpr hi, hget⟩

/-- An extreme of a bucket is kept. -/
theorem extreme_kept {beats : Binary64 → Binary64 → Bool} (hbeats : Ordered beats IsNumber)
    {c : List TimelinePoint}
    (hlandmark : ∀ i v, IsExtreme beats IsNumber (c.map TimelinePoint.value) i v → Landmark c i)
    {p : TimelinePoint} (hp : p ∈ c) (hknown : p.value.isSome) :
    ∃ q ∈ keptOf points max c, ∃ x, q.value = some x ∧
      ∀ r ∈ c, ∀ v, r.value = some v → ¬beats v x = true := by
  have hplace : ∀ {r v}, r ∈ c → r.value = some v →
      ∃ j, Known (c.map TimelinePoint.value) j v := by
    intro r v hr hv
    obtain ⟨j, hj⟩ := List.mem_iff_getElem?.mp hr
    exact ⟨j, by rw [Known, List.getElem?_map, hj, Option.map_some, hv]⟩
  obtain ⟨v, hv⟩ := Option.isSome_iff_exists.mp hknown
  obtain ⟨j, hj⟩ := hplace hp hv
  obtain ⟨i, x, hx⟩ := exists_extreme hbeats hj
  have hget := hx.known
  rw [Known, List.getElem?_map, Option.map_eq_some_iff] at hget
  obtain ⟨q, hq, hvalue⟩ := hget
  refine ⟨q, landmark_kept (hlandmark i x hx) hq, x, hvalue, fun r hr u hu => ?_⟩
  obtain ⟨k, hk⟩ := hplace hr hu
  exact Bool.eq_false_iff.mp (hx.unbeaten hbeats hk)

theorem least_kept : ∀ c ∈ bucketsOf points max, ∀ p ∈ c, p.value.isSome →
    ∃ q ∈ keptOf points max c, ∃ x, q.value = some x ∧
      ∀ r ∈ c, ∀ v, r.value = some v → ¬v < x := by
  intro c _ p hp hknown
  simpa only [below, decide_eq_true_eq] using
    extreme_kept ordered_below (fun i v h => Landmark.least i v h) hp hknown

theorem greatest_kept : ∀ c ∈ bucketsOf points max, ∀ p ∈ c, p.value.isSome →
    ∃ q ∈ keptOf points max c, ∃ x, q.value = some x ∧
      ∀ r ∈ c, ∀ v, r.value = some v → ¬x < v := by
  intro c _ p hp hknown
  simpa only [above, decide_eq_true_eq] using
    extreme_kept ordered_above (fun i v h => Landmark.greatest i v h) hp hknown

/-- What is kept of a bucket is what stands at its landmarks. -/
theorem mem_keptOf (hreduced : ¬Whole points max) {bucket : List TimelinePoint}
    {q : TimelinePoint} :
    q ∈ keptOf points max bucket ↔ ∃ i, Landmark bucket i ∧ bucket[i]? = some q := by
  rw [keptOf, if_neg hreduced, mem_selected]
  simp only [mem_picks]

theorem picks_ends (c : List TimelinePoint) (_ : c ≠ []) : 0 ∈ picks c ∧ c.length - 1 ∈ picks c :=
  ⟨mem_picks.mpr .first, mem_picks.mpr .last⟩

theorem downsample_reduced (hreduced : ¬Whole points max) :
    (downsample points max).1 = thinned picks (bucketSize points.length max) points := by
  have hlong : ¬(max = 0 ∨ points.length ≤ max) := hreduced
  rw [downsample, if_neg hlong]

theorem keptPositions_reduced (hreduced : ¬Whole points max) :
    keptPositions points max = positions picks (bucketSize points.length max) points :=
  if_neg hreduced

theorem keptPositions_bound (hreduced : ¬Whole points max) :
    ∀ i ∈ keptPositions points max, i < points.length := by
  intro i hi
  rw [keptPositions_reduced hreduced,
    mem_positions (bucketSize_pos max (length_pos_of_reduced hreduced))] at hi
  exact hi.1

/-- The ends of the timeline are ends of buckets. -/
theorem ends_kept (hreduced : ¬Whole points max) :
    0 ∈ keptPositions points max ∧ points.length - 1 ∈ keptPositions points max := by
  have hpos := length_pos_of_reduced hreduced
  have hsize := bucketSize_pos max hpos
  rw [keptPositions_reduced hreduced, mem_positions hsize, mem_positions hsize]
  refine ⟨⟨hpos, ?_⟩, by omega, ?_⟩
  · rw [Nat.zero_mod]
    exact mem_picks.mpr .first
  · generalize bucketSize points.length max = size at hsize
    have hsplit := Nat.div_add_mod' (points.length - 1) size
    have hmod := Nat.mod_lt (points.length - 1) hsize
    have hlength : (chunk size ((points.length - 1) / size) points).length =
        (points.length - 1) % size + 1 := by
      rw [chunk, List.length_take, List.length_drop]
      omega
    have hlast : (points.length - 1) % size =
        (chunk size ((points.length - 1) / size) points).length - 1 := by omega
    rw [hlast]
    exact mem_picks.mpr .last

theorem gaps_iff (hreduced : ¬Whole points max) :
    Broken (fun p => p.value.isSome = true) (· ∈ keptPositions points max) points ↔
      ∀ c ∈ bucketsOf points max,
        Broken (fun p => p.value.isSome = true) (Landmark c) c := by
  rw [keptPositions_reduced hreduced,
    broken_iff (bucketSize_pos max (length_pos_of_reduced hreduced)) picks_ends]
  simp only [mem_picks]
  rfl

theorem classes_iff (hreduced : ¬Whole points max) (c : List TimelinePoint) :
    (∀ p ∈ c, ∃ q ∈ keptOf points max c, sameClass p q) ↔
      ∀ p ∈ c, ∃ i, Landmark c i ∧ Holds (fun q => sameClass p q) c i := by
  refine forall₂_congr fun p _ => ?_
  constructor
  · rintro ⟨q, hq, hclass⟩
    obtain ⟨i, hi, hget⟩ := (mem_keptOf hreduced).mp hq
    exact ⟨i, hi, q, hget, hclass⟩
  · rintro ⟨i, hi, q, hget, hclass⟩
    exact ⟨q, (mem_keptOf hreduced).mpr ⟨i, hi, hget⟩, hclass⟩

theorem keeps_of_represented (hreduced : ¬Whole points max)
    (hall : ∀ c ∈ bucketsOf points max, Represented c) : Keeps points max := by
  have hsize := bucketSize_pos max (length_pos_of_reduced hreduced)
  have hascending : (keptPositions points max).Pairwise (· < ·) := by
    rw [keptPositions_reduced hreduced]
    exact ascending_positions picking_picks hsize points
  have hplaces : (downsample points max).1 = selected points (keptPositions points max) := by
    rw [downsample_reduced hreduced, keptPositions_reduced hreduced]
    exact thinned_eq_selected hsize points
  obtain ⟨hzero, hlast⟩ := ends_kept hreduced
  refine ⟨?_, ?_, ?_, ?_, ⟨hascending, hplaces⟩, least_kept, greatest_kept, ?_, ?_⟩
  · rw [downsample_reduced hreduced]
    exact thinned_sublist picking_picks hsize points
  · rw [hplaces]
    exact head_selected hascending hzero
  · rw [hplaces]
    exact getLast_selected hascending hlast (keptPositions_bound hreduced)
  · rw [downsample_reduced hreduced]
    have hkept : keptOf points max = fun c => selected c (picks c) := by
      funext c
      exact if_neg hreduced
    rw [hkept]
    rfl
  · exact fun c hc => (classes_iff hreduced c).mpr (hall c hc).classes
  · exact (gaps_iff hreduced).mpr fun c hc => (hall c hc).gaps

theorem represented_of_keeps (hreduced : ¬Whole points max) (hkeeps : Keeps points max) :
    ∀ c ∈ bucketsOf points max, Represented c := fun c hc =>
  ⟨(classes_iff hreduced c).mp (hkeeps.classes c hc), (gaps_iff hreduced).mp hkeeps.gaps c hc⟩

/-- Whatever is not reduced stands for itself. -/
theorem keeps_of_whole (hwhole : Whole points max) : Keeps points max := by
  have hsame : (downsample points max).1 = points := by
    have hshort : max = 0 ∨ points.length ≤ max := hwhole
    rw [downsample, if_pos hshort]
  have hpositions : keptPositions points max = List.range points.length := if_pos hwhole
  have hkept : keptOf points max = fun c => c := by
    funext c
    exact if_pos hwhole
  have hflatten : (bucketsOf points max).flatten = points := by
    obtain rfl | hne := eq_or_ne points []
    · simp [bucketsOf, chunks, chunk]
    · exact flatten_chunks (bucketSize_pos max (List.length_pos_iff.mpr hne)) points
  refine ⟨?_, ?_, ?_, ?_, ⟨?_, ?_⟩, least_kept, greatest_kept, ?_, ?_⟩
  · rw [hsame]
  · rw [hsame]
  · rw [hsame]
  · rw [hsame, hkept, List.flatMap_id', hflatten]
  · rw [hpositions]
    exact List.pairwise_lt_range
  · rw [hsame, hpositions, selected_range]
  · intro c _ p hp
    rw [hkept]
    exact ⟨p, hp, by simp [sameClass]⟩
  · intro i u j _ _ hiu huj _ _ hgap
    rw [hpositions]
    exact ⟨u, List.mem_range.mpr (holds_length hgap), hiu, huj⟩

end Reduced

/-- A downsampled timeline stands for the whole one exactly if nothing is left out or every
bucket is represented by its landmarks. -/
theorem downsample_keeps_iff (points : List TimelinePoint) (max : Nat) :
    Keeps points max ↔ Whole points max ∨ ∀ c ∈ bucketsOf points max, Represented c := by
  by_cases hwhole : Whole points max
  · exact ⟨fun _ => Or.inl hwhole, fun _ => keeps_of_whole hwhole⟩
  · refine ⟨fun hkeeps => Or.inr (represented_of_keeps hwhole hkeeps), fun h => ?_⟩
    exact keeps_of_represented hwhole (h.resolve_left hwhole)

/-! ## A bridged gap and a lost class -/

def pointAt (tMs : UInt64) (value : Option Binary64) (provenance : String) : TimelinePoint :=
  { tMs, value, provenance, quality := "fresh" }

/-- Six readings with two gaps. -/
def twoGaps : List TimelinePoint :=
  [pointAt 0 (some 5.0) "measured", pointAt 1 none "unavailable", pointAt 2 (some 7.0) "measured",
    pointAt 3 none "unavailable", pointAt 4 (some 3.0) "measured", pointAt 5 (some 5.0) "measured"]

/-- Five readings of three classes. -/
def threeClasses : List TimelinePoint :=
  [pointAt 0 (some 6.0) "measured", pointAt 1 (some 6.0) "derived",
    pointAt 2 (some 6.0) "estimated", pointAt 3 (some 6.0) "measured",
    pointAt 4 (some 6.0) "measured"]

theorem kept_samples : keptPositions twoGaps 4 = [0, 1, 2, 4, 5] ∧
    bucketsOf threeClasses 4 = [threeClasses] ∧
    ∀ q ∈ keptOf threeClasses 4 threeClasses, q.provenance ≠ "estimated" := by
  decide +kernel

/-- The second gap is bridged, and the third class is gone. -/
theorem gap_bridged : ¬Keeps twoGaps 4 ∧ ¬Keeps threeClasses 4 := by
  obtain ⟨hpositions, hbuckets, hlost⟩ := kept_samples
  constructor
  · intro hkeeps
    have hgaps := hkeeps.gaps
    rw [hpositions] at hgaps
    obtain ⟨k, hk, hlow, hhigh⟩ := hgaps 2 3 4 (by simp) (by simp) (by omega) (by omega)
      ⟨_, rfl, rfl⟩ ⟨_, rfl, rfl⟩ ⟨_, rfl, by simp [pointAt]⟩
    obtain rfl : k = 3 := by omega
    simp at hk
  · intro hkeeps
    obtain ⟨q, hq, hclass⟩ := hkeeps.classes threeClasses (by simp [hbuckets])
      (pointAt 2 (some 6.0) "estimated") (by simp [threeClasses])
    refine hlost q hq ?_
    simp only [sameClass, Bool.decide_and, Bool.and_eq_true, decide_eq_true_eq] at hclass
    exact hclass.1.symm

end PowerForensics.Evidence
