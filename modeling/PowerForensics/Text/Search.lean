import Mathlib.Algebra.Order.Ring.Nat
import Mathlib.Data.List.Flatten
import PowerForensics.Text.Cuts

/-! # Searching texts and files

The first occurrence of a key in a text, the decimal number that a text begins with, and the
lines of a file with their bytes: a file is cut behind every line feed, and what is read from
the start of a line on are the lines from there.
-/

namespace Search

/-! ## Substrings -/

/-- What stands behind the first occurrence of a key. -/
def behind (key : List Char) : List Char → Option (List Char)
  | [] => if key = [] then some [] else none
  | c :: cs => if key.isPrefixOf (c :: cs) then some ((c :: cs).drop key.length) else behind key cs

def trimStart (cs : List Char) : List Char := cs.dropWhile Lines.isWhitespace

def isDigit (c : Char) : Bool := '0' ≤ c ∧ c ≤ '9'

/-- The number that some digits denote, unless there are none or it is too large. -/
def parseU64 (ds : List Char) : Option UInt64 :=
  let n := ds.foldl (fun n d => 10 * n + (d.toNat - '0'.toNat)) 0
  if ds = [] then none else if n < 2 ^ 64 then some (UInt64.ofNat n) else none

def digitOf (radix : Nat) (c : Char) : Option Nat :=
  let d :=
    if '0' ≤ c ∧ c ≤ '9' then some (c.toNat - '0'.toNat)
    else if 'a' ≤ c ∧ c ≤ 'z' then some (c.toNat - 'a'.toNat + 10)
    else if 'A' ≤ c ∧ c ≤ 'Z' then some (c.toNat - 'A'.toNat + 10)
    else none
  d.filter (· < radix)

/-- The number that a text denotes. A sign may stand in front; there have to be digits behind. -/
def parseRadix (radix : Nat) (cs : List Char) : Option Nat :=
  let digits := match cs with
    | '+' :: rest => rest
    | _ => cs
  if digits = [] then none
  else (digits.mapM (digitOf radix)).map fun ds => ds.foldl (fun n d => radix * n + d) 0

section Behind

variable {key blank cs : List Char} (hkey : ∀ c ∈ key, Lines.isWhitespace c = false)
  (hblank : ∀ c ∈ blank, Lines.isWhitespace c)
include hkey hblank

/-- A key without blanks is not found in the blanks in front of a text. -/
theorem behind_blank_append (hne : key ≠ []) : behind key (blank ++ cs) = behind key cs := by
  induction blank with
  | nil => rfl
  | cons c blank ih =>
      have hrest := ih fun d hd => hblank d (List.mem_cons_of_mem c hd)
      obtain ⟨k, key, rfl⟩ := List.exists_cons_of_ne_nil hne
      have hother : (k == c) = false := by
        rw [beq_eq_false_iff_ne]
        rintro rfl
        have hblack := hkey k List.mem_cons_self
        rw [hblank k List.mem_cons_self] at hblack
        cases hblack
      rw [List.cons_append, behind, List.isPrefixOf, hother, Bool.false_and]
      exact hrest

/-- Blanks behind a text are behind the key, if it is found. -/
theorem behind_append_blank (hne : key ≠ []) :
    behind key (cs ++ blank) = (behind key cs).map (· ++ blank) := by
  induction cs with
  | nil =>
      have hnone := @behind_blank_append key blank [] hkey hblank hne
      rw [List.append_nil] at hnone
      rw [List.nil_append, hnone, behind, if_neg hne, Option.map_none]
  | cons c cs ih =>
      have hbegins : key <+: c :: cs ++ blank ↔ key <+: c :: cs := by
        refine ⟨fun h => ?_, fun h => h.trans (List.prefix_append _ _)⟩
        obtain hlt | hle := Nat.lt_or_ge (c :: cs).length key.length
        · -- a longer key would end with a blank
          obtain ⟨more, hmore⟩ :=
            List.prefix_of_prefix_length_le (List.prefix_append _ blank) h hlt.le
          rw [← hmore, List.prefix_append_right_inj] at h
          cases more with
          | nil => rw [← hmore, List.append_nil] at hlt; omega
          | cons d more =>
              have hblack := hkey d (hmore ▸ List.mem_append_right _ List.mem_cons_self)
              rw [hblank d (h.subset List.mem_cons_self)] at hblack
              cases hblack
        · exact List.prefix_of_prefix_length_le h (List.prefix_append _ _) hle
      by_cases hhere : key <+: c :: cs
      · have hle := hhere.length_le
        rw [behind, if_pos (List.isPrefixOf_iff_prefix.mpr hhere), List.cons_append, behind,
          ← List.cons_append, if_pos (List.isPrefixOf_iff_prefix.mpr (hbegins.mpr hhere)),
          List.drop_append_of_le_length hle, Option.map_some]
      · rw [behind, if_neg (by rwa [List.isPrefixOf_iff_prefix]), List.cons_append, behind,
          ← List.cons_append, if_neg (by rwa [List.isPrefixOf_iff_prefix, hbegins]), ih]

end Behind

theorem isDigit_of_whitespace {c : Char} (h : Lines.isWhitespace c) : isDigit c = false := by
  have hnat := of_decide_eq_true h
  rw [isDigit, decide_eq_false_iff_not, Char.le_def, Char.le_def, UInt32.le_iff_toNat_le,
    UInt32.le_iff_toNat_le]
  change ¬(48 ≤ c.toNat ∧ c.toNat ≤ 57)
  omega

/-- Blanks behind a number do not change it. -/
theorem digits_append_blank {rest blank : List Char} (hblank : ∀ c ∈ blank, Lines.isWhitespace c) :
    (trimStart (rest ++ blank)).takeWhile isDigit = (trimStart rest).takeWhile isDigit := by
  have hnone : blank.takeWhile isDigit = [] := by
    cases blank with
    | nil => rfl
    | cons c blank =>
        rw [List.takeWhile_cons_of_neg]
        simp [isDigit_of_whitespace (hblank c List.mem_cons_self)]
  have hall : blank.dropWhile Lines.isWhitespace = [] := List.dropWhile_eq_nil_iff.mpr hblank
  rw [trimStart, trimStart, List.dropWhile_append, hall]
  split
  next hempty => rw [List.isEmpty_iff.mp hempty]
  next =>
    rw [List.takeWhile_append]
    split
    next hfull =>
      rw [hnone, List.append_nil]
      exact ((List.takeWhile_prefix _).eq_of_length hfull).symm
    next => rfl

/-! ## Binary search -/

section BinarySearch

variable {α : Type} (cmp : α → Ordering) (xs : List α)

/-- Narrow a range of indices; what compares greater lies behind it. -/
def narrow : Nat → Nat → Nat → Nat
  | 0, _, base => base
  | fuel + 1, size, base =>
      if size ≤ 1 then base
      else
        let mid := base + size / 2
        narrow fuel (size - size / 2) (if (xs[mid]?).map cmp = some .gt then base else mid)

/-- The index of an element that compares equal, or the one where it could be inserted. -/
def binarySearchBy : Except Nat Nat :=
  if xs = [] then .error 0
  else
    let base := narrow cmp xs xs.length xs.length 0
    match (xs[base]?).map cmp with
    | some .eq => .ok base
    | some .lt => .error (base + 1)
    | _ => .error base

/-- The index at which halving the range of all indices ends. -/
def halved : Nat := narrow cmp xs xs.length xs.length 0

variable {cmp xs}

/-- The index is in the range, and only where the range begins may it compare greater. -/
theorem narrow_spec {fuel size base : Nat} (hsize : 0 < size) (hrange : base + size ≤ xs.length) :
    narrow cmp xs fuel size base < xs.length ∧
      (narrow cmp xs fuel size base = base ∨
        (xs[narrow cmp xs fuel size base]?).map cmp ≠ some .gt) := by
  induction fuel generalizing size base with
  | zero => exact ⟨by rw [narrow]; omega, Or.inl rfl⟩
  | succ fuel ih =>
      rw [narrow]
      split
      · exact ⟨by omega, Or.inl rfl⟩
      · dsimp only
        split
        · exact ih (by omega) (by omega)
        · next hmid =>
          obtain ⟨hlt, hend⟩ := @ih (size - size / 2) (base + size / 2) (by omega) (by omega)
          refine ⟨hlt, Or.inr ?_⟩
          rcases hend with heq | hend
          · rwa [heq]
          · exact hend

/-- Where what compares greater stands behind the rest, everything behind the index does so. -/
theorem narrow_beyond
    (hsorted : ∀ i j, i ≤ j → j < xs.length → (xs[i]?).map cmp = some .gt →
      (xs[j]?).map cmp = some .gt)
    {fuel size base : Nat} (hfuel : size ≤ fuel + 1) (hsize : 0 < size)
    (hbeyond : ∀ j < xs.length, base + size ≤ j → (xs[j]?).map cmp = some .gt) :
    ∀ j < xs.length, narrow cmp xs fuel size base < j → (xs[j]?).map cmp = some .gt := by
  induction fuel generalizing size base with
  | zero =>
      intro j hj hlt
      exact hbeyond j hj (by rw [narrow] at hlt; omega)
  | succ fuel ih =>
      rw [narrow]
      split
      · intro j hj hlt
        exact hbeyond j hj (by omega)
      · dsimp only
        split
        · next hmid =>
          apply ih (by omega) (by omega)
          exact fun j hj hle => hsorted (base + size / 2) j (by omega) hj hmid
        · apply ih (by omega) (by omega)
          exact fun j hj hle => hbeyond j hj (by omega)

theorem halved_spec (hne : xs ≠ []) (cmp : α → Ordering) :
    ∃ hlt : halved cmp xs < xs.length, halved cmp xs = 0 ∨ cmp xs[halved cmp xs] ≠ .gt := by
  obtain ⟨hlt, hend⟩ := @narrow_spec α cmp xs xs.length xs.length 0 (List.length_pos_of_ne_nil hne)
    (by omega)
  refine ⟨hlt, hend.imp_right fun hend hgreater => hend ?_⟩
  exact (congrArg _ (List.getElem?_eq_getElem hlt)).trans (congrArg some hgreater)

/-- In ascending order the halving ends at the last element that does not compare greater, or at
the first one. -/
theorem halved_ascending (hsorted : xs.Pairwise fun a b => cmp a = .gt → cmp b = .gt)
    {j : Nat} (hj : j < xs.length) (hlt : halved cmp xs < j) : cmp xs[j] = .gt := by
  have hmono : ∀ i j, i ≤ j → j < xs.length → (xs[i]?).map cmp = some .gt →
      (xs[j]?).map cmp = some .gt := by
    intro i j hij hj hi
    obtain rfl | hlt := Nat.eq_or_lt_of_le hij
    · exact hi
    · rw [List.getElem?_eq_getElem (by omega), Option.map_some, Option.some.injEq] at hi
      rw [List.getElem?_eq_getElem hj, Option.map_some,
        List.pairwise_iff_getElem.mp hsorted i j (by omega) hj hlt hi]
  have hgreater := narrow_beyond hmono (Nat.le_succ xs.length) (by omega)
    (fun k hk hle => absurd hle (by omega)) j hj hlt
  rwa [List.getElem?_eq_getElem hj, Option.map_some, Option.some.injEq] at hgreater

/-- A search ends where the halving does, or behind it. -/
theorem binarySearchBy_cases (hne : xs ≠ []) :
    binarySearchBy cmp xs = .ok (halved cmp xs) ∨
      binarySearchBy cmp xs = .error (halved cmp xs + 1) ∨
      (binarySearchBy cmp xs = .error 0 ∧ halved cmp xs = 0) := by
  obtain ⟨hlt, hend⟩ := halved_spec hne cmp
  have hsearch : binarySearchBy cmp xs = match (xs[halved cmp xs]?).map cmp with
      | some .eq => .ok (halved cmp xs)
      | some .lt => .error (halved cmp xs + 1)
      | _ => .error (halved cmp xs) := if_neg hne
  rw [hsearch]
  rw [List.getElem?_eq_getElem hlt, Option.map_some]
  cases hcmp : cmp xs[halved cmp xs] with
  | eq => exact Or.inl rfl
  | lt => exact Or.inr (Or.inl rfl)
  | gt =>
      -- Nothing but the first element may compare greater where the halving ends.
      have hzero := hend.resolve_right fun h => h hcmp
      exact Or.inr (Or.inr ⟨congrArg _ hzero, hzero⟩)

end BinarySearch

/-! ## Lines of a file -/

/-- The lines of a file whose first line has begun, its bytes in reverse. -/
def byteLinesFrom (begun : List UInt8) : List UInt8 → List (List UInt8)
  | [] => if begun = [] then [] else [begun.reverse]
  | b :: bs =>
      if b = 0x0A then (b :: begun).reverse :: byteLinesFrom [] bs
      else byteLinesFrom (b :: begun) bs

/-- The lines of a file, each with the line feed that ends it. -/
def byteLines (bs : List UInt8) : List (List UInt8) := byteLinesFrom [] bs

/-- The first line ends at a line feed or with the file, wherever the rest is cut off. -/
theorem byteLinesFrom_cons {begun bs : List UInt8} (hne : begun ≠ [] ∨ bs ≠ []) :
    ∃ line rest, bs = line ++ rest ∧ ∀ more, (rest = [] → more = []) →
      byteLinesFrom begun (line ++ more) = (begun.reverse ++ line) :: byteLinesFrom [] more := by
  induction bs generalizing begun with
  | nil =>
      refine ⟨[], [], rfl, fun more hmore => ?_⟩
      have hbegun : begun ≠ [] := by simpa using hne
      rw [hmore rfl, List.append_nil, byteLinesFrom, if_neg hbegun, List.append_nil]
      rfl
  | cons b bs ih =>
      by_cases hb : b = 0x0A
      · refine ⟨[b], bs, rfl, fun more _ => ?_⟩
        rw [List.singleton_append, byteLinesFrom, if_pos hb, List.reverse_cons]
      · obtain ⟨line, rest, rfl, hline⟩ := ih (Or.inl (List.cons_ne_nil b begun))
        refine ⟨b :: line, rest, rfl, fun more hmore => ?_⟩
        rw [List.cons_append, byteLinesFrom, if_neg hb, hline more hmore, List.reverse_cons,
          List.append_assoc, List.singleton_append]

theorem byteLines_cons {bs : List UInt8} (hne : bs ≠ []) :
    ∃ line rest, bs = line ++ rest ∧ ∀ more, (rest = [] → more = []) →
      byteLines (line ++ more) = line :: byteLines more := by
  obtain ⟨line, rest, hbs, hline⟩ := @byteLinesFrom_cons [] bs (Or.inr hne)
  refine ⟨line, rest, hbs, fun more hmore => ?_⟩
  have hcut := hline more hmore
  rwa [List.reverse_nil, List.nil_append] at hcut

/-- A line has a line feed at its end or nowhere. -/
theorem byteLinesFrom_shape {begun bs line : List UInt8} (hbegun : 0x0A ∉ begun)
    (hline : line ∈ byteLinesFrom begun bs) :
    ∃ body, 0x0A ∉ body ∧ (line = body ∨ line = body ++ [0x0A]) := by
  have hreverse : 0x0A ∉ begun.reverse := by simpa using hbegun
  induction bs generalizing begun with
  | nil =>
      rw [byteLinesFrom] at hline
      split at hline
      · cases hline
      · exact ⟨begun.reverse, hreverse, Or.inl (List.mem_singleton.mp hline)⟩
  | cons b bs ih =>
      rw [byteLinesFrom] at hline
      split at hline
      next hb =>
        rcases List.mem_cons.mp hline with rfl | hline
        · refine ⟨begun.reverse, hreverse, Or.inr ?_⟩
          rw [List.reverse_cons, hb]
        · have hnil : 0x0A ∉ ([] : List UInt8) := List.not_mem_nil
          exact ih hnil hline (by simp)
      next hb =>
        have hbegun' : 0x0A ∉ b :: begun := by
          simp only [List.mem_cons, not_or]
          exact ⟨fun h => hb h.symm, hbegun⟩
        exact ih hbegun' hline (by simpa [and_comm] using hbegun')

theorem byteLines_shape {bs line : List UInt8} (hline : line ∈ byteLines bs) :
    ∃ body, 0x0A ∉ body ∧ (line = body ∨ line = body ++ [0x0A]) :=
  byteLinesFrom_shape (by simp) hline

theorem flatten_byteLinesFrom (begun bs : List UInt8) :
    (byteLinesFrom begun bs).flatten = begun.reverse ++ bs := by
  induction bs generalizing begun with
  | nil =>
      rw [byteLinesFrom]
      split
      · next hnil => rw [hnil]; rfl
      · simp
  | cons b bs ih =>
      rw [byteLinesFrom]
      split
      · rw [List.flatten_cons, ih]
        simp
      · rw [ih]
        simp

theorem flatten_byteLines (bs : List UInt8) : (byteLines bs).flatten = bs :=
  flatten_byteLinesFrom [] bs

theorem byteLinesFrom_newline (begun before after : List UInt8) :
    byteLinesFrom begun (before ++ 0x0A :: after) =
      byteLinesFrom begun (before ++ [0x0A]) ++ byteLines after := by
  induction before generalizing begun with
  | nil => simp [byteLinesFrom, byteLines]
  | cons b before ih =>
      rw [List.cons_append, List.cons_append, byteLinesFrom, byteLinesFrom]
      split
      · rw [ih, List.cons_append]
      · exact ih _

/-- A file is cut behind a line feed. -/
theorem byteLines_newline (before after : List UInt8) :
    byteLines (before ++ 0x0A :: after) = byteLines (before ++ [0x0A]) ++ byteLines after :=
  byteLinesFrom_newline [] before after

/-- The byte at which a line starts. -/
def lineStart (bs : List UInt8) (k : Nat) : Nat := ((byteLines bs).take k).flatten.length

/-- Cutting a file at the start of a line cuts its lines there. -/
theorem byteLines_cut (bs : List UInt8) (k : Nat) :
    byteLines (bs.take (lineStart bs k)) = (byteLines bs).take k ∧
      byteLines (bs.drop (lineStart bs k)) = (byteLines bs).drop k := by
  induction k generalizing bs with
  | zero => simp [lineStart, byteLines, byteLinesFrom]
  | succ k ih =>
      rcases eq_or_ne bs [] with rfl | hne
      · simp [lineStart, byteLines, byteLinesFrom]
      · obtain ⟨line, rest, rfl, hline⟩ := byteLines_cons hne
        have hrest := hline rest id
        have hstart : lineStart (line ++ rest) (k + 1) = line.length + lineStart rest k := by
          simp [lineStart, hrest]
        have hnil : rest = [] → rest.take (lineStart rest k) = [] := by
          rintro rfl
          exact List.take_nil
        rw [hstart, List.take_length_add_append, List.drop_length_add_append, hline _ hnil, hrest,
          List.take_succ_cons, List.drop_succ_cons, (ih rest).1, (ih rest).2]
        exact ⟨rfl, rfl⟩

end Search
