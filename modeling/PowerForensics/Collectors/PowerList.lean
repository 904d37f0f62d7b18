import PowerForensics.System.Pieces
import PowerForensics.Text.Cuts
import PowerForensics.Text.LittleEndian
import PowerForensics.Text.Utf16

/-! # The list of power devices

The buffer of the list has names in UTF-16 that are ended by zeros. The scan collects the characters
of a name, and the plausible names are taken. A name should be the whole of its segment.

The scan passes over a unit that is no character and goes on behind it, and it drops what it has
collected at more than 160 bytes and goes on with nothing. In both cases a plausible remainder of
the segment is a name.
-/

namespace PowerForensics.Collectors

def units : List UInt8 → List UInt16
  | low :: high :: buf => UInt16.ofNat (LittleEndian.decode [low, high]) :: units buf
  | _ => []

/-- The segments so far, and the current one. -/
def scanUnit (p : List (List Char) × List Char) (u : UInt16) : List (List Char) × List Char :=
  if u = 0 then (p.1 ++ [p.2], [])
  else
    match Utf16.charOf u with
    | some c =>
        let cur := p.2 ++ [c]
        (p.1, if 160 < (Utf8.encode cur).length then [] else cur)
    | none => p

def scanUnits (us : List UInt16) : List (List Char) :=
  let p := us.foldl scanUnit ([], [])
  p.1 ++ [p.2]

section Names

-- the letters and numbers of Unicode
variable (isAlphanumeric : Char → Bool)

def isAllowed (c : Char) : Bool := isAlphanumeric c || " _:;()-.\x7b\x7d\\/".toList.contains c

def isPlausible (s : List Char) : Bool :=
  3 ≤ (Utf8.encode s).length && (Utf8.encode s).length ≤ 128 && s.all (isAllowed isAlphanumeric)

def parsePowerList (buf : List UInt8) : List String :=
  ((((scanUnits (units buf)).map Lines.trim).filter (isPlausible isAlphanumeric)).take 64).map
    String.ofList

/-! ## What is asked of the names -/

def segments (buf : List UInt8) : List (List UInt16) := (units buf).splitOn 0

/-- The names with the segments they come from. -/
def contributions (buf : List UInt8) : List (List UInt16 × List Char) :=
  (((segments buf).zip ((scanUnits (units buf)).map Lines.trim)).filter
    fun p => isPlausible isAlphanumeric p.2).take 64

/-- A name is the whole of a segment, without the white space at its ends. -/
structure Names (seg : List UInt16) (name : List Char) : Prop where
  whole : ∃ text, Utf16.decode seg = some text ∧ name = Lines.trim text
  atLeast : 3 ≤ (Utf8.encode name).length
  atMost : (Utf8.encode name).length ≤ 128
  allowed : ∀ c ∈ name, isAllowed isAlphanumeric c

/-- Every name is the whole of a segment, and a segment contributes no other name. -/
structure NeverInvents (buf : List UInt8) : Prop where
  whole : ∀ name ∈ parsePowerList isAlphanumeric buf,
    ∃ seg ∈ segments buf, Names isAlphanumeric seg name.toList
  own : ∀ p ∈ contributions isAlphanumeric buf, Names isAlphanumeric p.1 p.2

end Names

/-! ## The scan by segments -/

def overlong (s : List Char) : Bool := 160 < (Utf8.encode s).length

/-- The units of a segment that are characters. -/
def characters (seg : List UInt16) : List Char := seg.filterMap Utf16.charOf

/-- What the scan has of a segment at its end. -/
def kept (seg : List UInt16) : List Char := (characters seg).foldl (Pieces.collect overlong) []

theorem scanUnit_none {u : UInt16} (hu : u ≠ 0) (hc : Utf16.charOf u = none)
    (p : List (List Char) × List Char) : scanUnit p u = p := by
  rw [scanUnit, if_neg hu, hc]

theorem scanUnit_some {u : UInt16} (hu : u ≠ 0) {c : Char} (hc : Utf16.charOf u = some c)
    (p : List (List Char) × List Char) :
    scanUnit p u = (p.1, Pieces.collect overlong p.2 c) := by
  rw [scanUnit, if_neg hu, hc]
  simp only [Pieces.collect, overlong, decide_eq_true_eq]

/-- The scan ends the current segment and has the others after it. -/
theorem foldl_scanUnit (us : List UInt16) (done : List (List Char)) (cur : List Char) :
    ∃ first others, us.splitOn 0 = first :: others ∧
      (us.foldl scanUnit (done, cur)).1 ++ [(us.foldl scanUnit (done, cur)).2] =
        done ++ (characters first).foldl (Pieces.collect overlong) cur :: others.map kept := by
  induction us generalizing done cur with
  | nil => exact ⟨[], [], List.splitOn_nil 0, rfl⟩
  | cons u us ih =>
      -- a zero ends the first segment, and any other unit belongs to it
      rw [List.splitOn_cons_eq_if_modifyHead, List.foldl_cons]
      by_cases hu : u = 0
      · subst hu
        obtain ⟨first, others, hsplit, hscan⟩ := ih (done ++ [cur]) []
        refine ⟨[], first :: others, ?_, ?_⟩
        · rw [hsplit]
          rfl
        · rw [scanUnit, if_pos rfl, hscan, List.append_assoc]
          rfl
      · have hmodify : ∀ first others, us.splitOn 0 = first :: others →
            (if u == 0 then [] :: us.splitOn 0 else (us.splitOn 0).modifyHead (List.cons u)) =
              (u :: first) :: others := by
          intro first others hsplit
          rw [if_neg (by simpa using hu), hsplit]
          rfl
        cases hc : Utf16.charOf u with
        | none =>
            obtain ⟨first, others, hsplit, hscan⟩ := ih done cur
            refine ⟨u :: first, others, hmodify first others hsplit, ?_⟩
            rw [scanUnit_none hu hc, hscan, characters, characters, List.filterMap_cons_none hc]
        | some c =>
            obtain ⟨first, others, hsplit, hscan⟩ := ih done (Pieces.collect overlong cur c)
            refine ⟨u :: first, others, hmodify first others hsplit, ?_⟩
            rw [scanUnit_some hu hc, hscan, characters, characters, List.filterMap_cons_some hc,
              List.foldl_cons]

theorem scanUnits_eq (us : List UInt16) : scanUnits us = (us.splitOn 0).map kept := by
  obtain ⟨first, others, hsplit, hscan⟩ := foldl_scanUnit us [] []
  rw [hsplit, scanUnits]
  exact hscan

section Contributions

variable (isAlphanumeric : Char → Bool) (buf : List UInt8)

/-- A segment has a plausible remainder. -/
def hasName (seg : List UInt16) : Bool := isPlausible isAlphanumeric (Lines.trim (kept seg))

theorem contributions_eq : contributions isAlphanumeric buf =
    (((segments buf).filter (hasName isAlphanumeric)).take 64).map fun seg =>
      (seg, Lines.trim (kept seg)) := by
  have hzip : (segments buf).zip ((scanUnits (units buf)).map Lines.trim) =
      (segments buf).map fun seg => (seg, Lines.trim (kept seg)) := by
    have hpairs := List.zip_map' (f := id) (g := Lines.trim ∘ kept) (l := segments buf)
    rwa [List.map_id, ← List.map_map, segments, ← scanUnits_eq] at hpairs
  rw [contributions, hzip, List.filter_map, ← List.map_take]
  rfl

/-- The names are the ones of the segments. -/
theorem parsePowerList_eq : parsePowerList isAlphanumeric buf =
    (contributions isAlphanumeric buf).map fun p => String.ofList p.2 := by
  rw [contributions_eq, parsePowerList, scanUnits_eq, List.map_map, List.filter_map,
    ← List.map_take, List.map_map, List.map_map]
  rfl

theorem neverInvents_of_own (hown : ∀ p ∈ contributions isAlphanumeric buf,
    Names isAlphanumeric p.1 p.2) : NeverInvents isAlphanumeric buf where
  whole := by
    intro name hname
    rw [parsePowerList_eq] at hname
    obtain ⟨p, hp, rfl⟩ := List.mem_map.mp hname
    have hseg : p.1 ∈ segments buf := by
      rw [contributions_eq] at hp
      obtain ⟨seg, hseg, rfl⟩ := List.mem_map.mp hp
      exact (List.mem_filter.mp (List.mem_of_mem_take hseg)).1
    refine ⟨p.1, hseg, ?_⟩
    rw [String.toList_ofList]
    exact hown p hp
  own := hown

end Contributions

/-! ## Segments that are read as a whole -/

/-- A character that is a unit by itself is from the basic plane. -/
theorem toNat_characters {seg : List UInt16} {c : Char} (hc : c ∈ characters seg) :
    c.toNat < 0x10000 := by
  obtain ⟨u, -, hu⟩ := List.mem_filterMap.mp hc
  rw [Utf16.toNat_charOf hu]
  exact u.toNat_lt

/-- White space is from the basic plane. -/
theorem not_isWhitespace_of_beyond {c : Char} (hc : 0x10000 ≤ c.toNat) :
    Lines.isWhitespace c = false := by
  simp only [Lines.isWhitespace, decide_eq_false_iff_not]
  omega

section Segments

variable {isAlphanumeric : Char → Bool} {seg : List UInt16} {pieces : List (List Char)}
  {rest : List Char}

/-- The remainder of a segment is its whole text exactly where every unit is a character and
nothing but white space has been dropped. -/
theorem whole_iff (hcut : Pieces.Cut overlong (characters seg) pieces rest) :
    (∃ text, Utf16.decode seg = some text ∧ Lines.trim rest = Lines.trim text) ↔
      (∀ u ∈ seg, Utf16.charOf u ≠ none) ∧ ∀ c ∈ pieces.flatten, Lines.isWhitespace c := by
  constructor
  · rintro ⟨text, htext, htrim⟩
    have hbasic : ∀ u ∈ seg, Utf16.charOf u ≠ none := by
      intro u hu hsurrogate
      -- the pair would be a character of the text, and the scan has no such character
      obtain ⟨c, hc, hbeyond⟩ := Utf16.beyond_of_decode htext hu hsurrogate
      have hkept : c ∈ Lines.trim rest := by
        rw [htrim]
        exact Lines.mem_trim hc (not_isWhitespace_of_beyond hbeyond)
      have hmem : c ∈ characters seg := by
        rw [← hcut.items]
        exact List.mem_append_right _ (Lines.mem_of_mem_trim hkept)
      exact absurd (toNat_characters hmem) (Nat.not_lt.mpr hbeyond)
    refine ⟨hbasic, ?_⟩
    rw [Utf16.decode_of_charOf hbasic, Option.some.injEq] at htext
    apply (Lines.trim_append_eq_iff pieces.flatten rest).mp
    rw [htrim, ← htext, hcut.items]
    rfl
  · rintro ⟨hbasic, hdropped⟩
    refine ⟨characters seg, Utf16.decode_of_charOf hbasic, ?_⟩
    rw [← hcut.items]
    exact ((Lines.trim_append_eq_iff pieces.flatten rest).mpr hdropped).symm

/-- A plausible name has the length and the characters of a name. -/
theorem names_iff (name : List Char) (hname : isPlausible isAlphanumeric name) :
    Names isAlphanumeric seg name ↔
      ∃ text, Utf16.decode seg = some text ∧ name = Lines.trim text := by
  simp only [isPlausible, Bool.and_eq_true, decide_eq_true_eq, List.all_eq_true] at hname
  obtain ⟨⟨hatLeast, hatMost⟩, hallowed⟩ := hname
  exact ⟨Names.whole, fun hwhole => ⟨hwhole, hatLeast, hatMost, hallowed⟩⟩

end Segments

/-! ## When no name is invented -/

section Invented

variable (isAlphanumeric : Char → Bool)

/-- When pieces just over the limit are cut off the front of a segment's characters, what remains
of it is plausible. -/
def Yields (seg : List UInt16) : Prop :=
  ∃ pieces rest, Pieces.Cut overlong (characters seg) pieces rest ∧
    isPlausible isAlphanumeric (Lines.trim rest)

/-- Before the plausible remainder something other than white space is cut off, or there is a unit
that is no character. -/
def Misread (seg : List UInt16) : Prop :=
  ∃ pieces rest, Pieces.Cut overlong (characters seg) pieces rest ∧
    isPlausible isAlphanumeric (Lines.trim rest) ∧
      ((∃ u ∈ seg, Utf16.charOf u = none) ∨ ∃ c ∈ pieces.flatten, Lines.isWhitespace c = false)

theorem hasName_iff (seg : List UInt16) :
    hasName isAlphanumeric seg = true ↔ Yields isAlphanumeric seg := by
  constructor
  · intro hname
    obtain ⟨pieces, hcut⟩ := Pieces.cut_foldl overlong (characters seg)
    exact ⟨pieces, kept seg, hcut, hname⟩
  · rintro ⟨pieces, rest, hcut, hplausible⟩
    rwa [hasName, kept, hcut.foldl_eq]

instance : DecidablePred (Yields isAlphanumeric) := fun seg =>
  decidable_of_iff (hasName isAlphanumeric seg = true) (hasName_iff isAlphanumeric seg)

variable {isAlphanumeric}

/-- A segment whose name is not its own is one that is misread. -/
theorem misread_iff {seg : List UInt16} (hname : hasName isAlphanumeric seg) :
    Misread isAlphanumeric seg ↔ ¬ Names isAlphanumeric seg (Lines.trim (kept seg)) := by
  have hwhole : ∀ pieces rest, Pieces.Cut overlong (characters seg) pieces rest →
      (Names isAlphanumeric seg (Lines.trim (kept seg)) ↔
        (∀ u ∈ seg, Utf16.charOf u ≠ none) ∧ ∀ c ∈ pieces.flatten, Lines.isWhitespace c) := by
    intro pieces rest hcut
    rw [names_iff _ hname, ← whole_iff hcut, kept, hcut.foldl_eq]
  constructor
  · rintro ⟨pieces, rest, hcut, -, hmisread⟩ hnames
    obtain ⟨hbasic, hdropped⟩ := (hwhole pieces rest hcut).mp hnames
    rcases hmisread with ⟨u, hu, hsurrogate⟩ | ⟨c, hc, hblack⟩
    · exact hbasic u hu hsurrogate
    · exact absurd (hdropped c hc) (by simp [hblack])
  · intro hnames
    obtain ⟨pieces, hcut⟩ := Pieces.cut_foldl overlong (characters seg)
    refine ⟨pieces, kept seg, hcut, hname, ?_⟩
    by_contra hnone
    simp only [not_or, not_exists, not_and, Bool.not_eq_false] at hnone
    exact hnames ((hwhole pieces _ hcut).mpr hnone)

/-- The first elements with a property all have another one exactly where each that does not comes
after as many with the first property. -/
theorem forall_mem_take_filter {α : Type} (p : α → Bool) (q : α → Prop) (n : Nat) (l : List α) :
    (∀ a ∈ (l.filter p).take n, q a) ↔
      ∀ before a after, l = before ++ a :: after → p a → ¬ q a → n ≤ before.countP p := by
  induction l generalizing n with
  | nil => simp
  | cons b l ih =>
      have hdecompose : (∀ before a after, b :: l = before ++ a :: after → p a → ¬ q a →
          n ≤ before.countP p) ↔ (p b → ¬ q b → n = 0) ∧
            ∀ before a after, l = before ++ a :: after → p a → ¬ q a →
              n ≤ (b :: before).countP p := by
        constructor
        · intro hall
          exact ⟨fun hp hq => Nat.le_zero.mp (hall [] b l rfl hp hq),
            fun before a after hl => hall (b :: before) a after (by rw [hl, List.cons_append])⟩
        · rintro ⟨hhead, htail⟩ before a after hl hp hq
          cases before with
          | nil =>
              obtain ⟨rfl, rfl⟩ := List.cons.inj hl
              exact (hhead hp hq).le
          | cons b' before =>
              obtain ⟨rfl, hl'⟩ := List.cons.inj hl
              exact htail before a after hl' hp hq
      rw [hdecompose]
      cases hp : p b with
      | false =>
          rw [List.filter_cons_of_neg (by simp [hp]), ih]
          simp [hp]
      | true =>
          rw [List.filter_cons_of_pos hp]
          cases n with
          | zero => simp
          | succ n =>
              rw [List.take_succ_cons, List.forall_mem_cons, ih]
              simp [hp]

/-- No name is invented exactly where every segment that is misread comes after 64 others with a
plausible remainder. -/
theorem neverInvents_iff (isAlphanumeric : Char → Bool) (buf : List UInt8) :
    NeverInvents isAlphanumeric buf ↔
      ∀ before seg after, segments buf = before ++ seg :: after → Misread isAlphanumeric seg →
        64 ≤ before.countP (Yields isAlphanumeric ·) := by
  have hcount : ∀ before : List (List UInt16),
      before.countP (Yields isAlphanumeric ·) = before.countP (hasName isAlphanumeric) := by
    intro before
    apply List.countP_congr
    intro seg _
    rw [decide_eq_true_eq, hasName_iff]
  have hown : NeverInvents isAlphanumeric buf ↔
      ∀ seg ∈ ((segments buf).filter (hasName isAlphanumeric)).take 64,
        Names isAlphanumeric seg (Lines.trim (kept seg)) := by
    constructor
    · intro hnever seg hseg
      apply hnever.own (seg, Lines.trim (kept seg))
      rw [contributions_eq]
      exact List.mem_map.mpr ⟨seg, hseg, rfl⟩
    · intro hall
      apply neverInvents_of_own
      intro p hp
      rw [contributions_eq] at hp
      obtain ⟨seg, hseg, rfl⟩ := List.mem_map.mp hp
      exact hall seg hseg
  rw [hown, forall_mem_take_filter]
  constructor
  · intro hall before seg after hsegments hmisread
    have hname : hasName isAlphanumeric seg := by
      obtain ⟨pieces, rest, hcut, hplausible, -⟩ := hmisread
      exact (hasName_iff isAlphanumeric seg).mpr ⟨pieces, rest, hcut, hplausible⟩
    rw [hcount]
    exact hall before seg after hsegments hname ((misread_iff hname).mp hmisread)
  · intro hall before seg after hsegments hname hnames
    rw [← hcount]
    exact hall before seg after hsegments ((misread_iff hname).mpr hnames)

/-- Three letters with half of a surrogate pair before the last. -/
def brokenName : List UInt8 := [0x61, 0, 0x62, 0, 0x00, 0xD8, 0x63, 0]

/-- The letters are taken for a name, though their segment has no text. -/
theorem fragment_named : ¬ NeverInvents Char.isAlphanum brokenName := by
  intro hnever
  have hmem : ([0x61, 0x62, 0xD800, 0x63], "abc".toList) ∈
      contributions Char.isAlphanum brokenName := by decide +kernel
  obtain ⟨text, htext, -⟩ := (hnever.own _ hmem).whole
  have hnone : Utf16.decode [0x61, 0x62, 0xD800, 0x63] = none := by decide +kernel
  rw [hnone] at htext
  cases htext

end Invented

end PowerForensics.Collectors
