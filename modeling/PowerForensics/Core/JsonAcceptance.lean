import Mathlib.Data.List.TakeWhile
import PowerForensics.Core.JsonPrinter
import PowerForensics.Text.JsonGrammar

/-! # What the parser accepts

The parser accepts a relaxed dialect: a number may lack digits on one side of its
point or start with superfluous zeros, and the first digit of a `\u` escape may be a
plus sign, because both tokens are handed to the standard number readers. Apart from
these tokens the dialect is JSON, and a scan of the text finds them.
-/

namespace PowerForensics.Json

open Binary64 (Numeral Exponent NoDigit splitSign parseExponent splitFraction parseNumber parseName)
open JsonGrammar

/-- A number token: a numeral that starts with a minus sign or a digit. -/
def RelaxedNumber (cs : List Char) : Prop :=
  ∃ n : Numeral, n.text = cs ∧ (n.negative ∨ n.int ≠ [])

/-- The digits of an escape, possibly with a plus sign in place of the first. -/
def RelaxedQuad (cs : List Char) : Prop :=
  cs.length = 4 ∧ ∃ n, fromStrRadix16 cs = some n

def relaxed : Tokens := ⟨RelaxedNumber, RelaxedQuad⟩

/-! ## Blanks -/

theorem isBlank_iff (c : Char) : isBlank c = true ↔ c ∈ blanks := by
  simp [isBlank, blanks]

theorem skipBlanks_append {before : List Char} (hbefore : Blank before) (cs : List Char) :
    skipBlanks (before ++ cs) = skipBlanks cs :=
  List.dropWhile_append_of_pos fun c hc => (isBlank_iff c).mpr (hbefore c hc)

/-- What is skipped is a run of blanks. -/
theorem eq_blanks_append (cs : List Char) : ∃ gap, Blank gap ∧ cs = gap ++ skipBlanks cs :=
  ⟨cs.takeWhile isBlank, fun c hc => (isBlank_iff c).mp (List.mem_takeWhile_imp hc),
    (List.takeWhile_append_dropWhile).symm⟩

theorem endsNumber_blank {gap rest : List Char} (hgap : Blank gap) (hrest : EndsNumber rest) :
    EndsNumber (gap ++ rest) := by
  cases gap with
  | nil => exact hrest
  | cons c cs =>
      have hc : c ∈ blanks := hgap c List.mem_cons_self
      simp only [blanks, List.mem_cons, List.not_mem_nil, or_false] at hc
      rcases hc with rfl | rfl | rfl | rfl <;> exact endsNumber_cons (by decide) (by decide) _

/-! ## Numbers -/

theorem skipSign_split (cs : List Char) :
    ∃ negative : Bool, cs = (if negative then ['-'] else []) ++ skipChar (· = '-') cs := by
  cases cs with
  | nil => exact ⟨false, rfl⟩
  | cons c rest =>
      by_cases hc : c = '-'
      · exact ⟨true, by simp [skipChar, hc]⟩
      · exact ⟨false, by simp [skipChar, hc]⟩

theorem noDigit_dropWhile (cs : List Char) : NoDigit (cs.dropWhile Char.isDigit) := by
  intro c hc
  by_contra hdigit
  have hne : cs.dropWhile Char.isDigit ≠ [] := by
    intro hnil
    simp [hnil] at hc
  have hhead := List.head_dropWhile_not Char.isDigit hne
  rw [List.head?_eq_some_head hne, Option.mem_some_iff] at hc
  rw [hc] at hhead
  exact hdigit hhead

theorem skipFraction_split (cs : List Char) :
    ∃ frac : Option (List Char), (∀ c ∈ frac.getD [], c.isDigit) ∧
      cs = frac.elim [] ('.' :: ·) ++ skipFraction cs ∧
      (NoDigit cs → NoDigit (skipFraction cs)) := by
  by_cases hpoint : cs.head?.any (· = '.') = true
  · obtain ⟨rest, rfl⟩ : ∃ rest, cs = '.' :: rest := by
      cases cs with
      | nil => simp at hpoint
      | cons c rest => exact ⟨rest, by simpa using hpoint⟩
    have hskip : skipFraction ('.' :: rest) = rest.dropWhile Char.isDigit := by
      rw [skipFraction, if_pos hpoint, List.tail_cons, skipDigits]
    refine ⟨some (rest.takeWhile Char.isDigit), fun c hc => List.mem_takeWhile_imp hc, ?_, ?_⟩
    · simp [hskip, List.takeWhile_append_dropWhile]
    · intro _
      rw [hskip]
      exact noDigit_dropWhile rest
  · have hskip : skipFraction cs = cs := by rw [skipFraction, if_neg hpoint]
    exact ⟨none, by simp, by simp [hskip], fun h => by rwa [hskip]⟩

/-- The exponent that a number token ends with, as far as it was written. -/
theorem skipExponent_split (cs : List Char) :
    cs = skipExponent cs ∨ ∃ letter sign ds, (letter = 'e' ∨ letter = 'E') ∧
      (sign = [] ∨ sign = ['+'] ∨ sign = ['-']) ∧ (∀ c ∈ ds, c.isDigit) ∧
      cs = letter :: (sign ++ ds) ++ skipExponent cs := by
  by_cases hletter : cs.head?.any (· ∈ ['e', 'E']) = true
  · obtain ⟨letter, rest, rfl, hmem⟩ : ∃ letter rest, cs = letter :: rest ∧
        (letter = 'e' ∨ letter = 'E') := by
      cases cs with
      | nil => simp at hletter
      | cons c rest => exact ⟨c, rest, rfl, by simpa using hletter⟩
    have hskip : skipExponent (letter :: rest) =
        (skipChar (· ∈ ['+', '-']) rest).dropWhile Char.isDigit := by
      rw [skipExponent, if_pos hletter, List.tail_cons, skipDigits]
    obtain ⟨sign, hsign, hrest⟩ : ∃ sign, (sign = [] ∨ sign = ['+'] ∨ sign = ['-']) ∧
        rest = sign ++ skipChar (· ∈ ['+', '-']) rest := by
      cases rest with
      | nil => exact ⟨[], Or.inl rfl, rfl⟩
      | cons c tail =>
          by_cases hplus : c = '+'
          · exact ⟨['+'], by simp, by simp [skipChar, hplus]⟩
          · by_cases hminus : c = '-'
            · exact ⟨['-'], by simp, by simp [skipChar, hminus]⟩
            · exact ⟨[], by simp, by simp [skipChar, hplus, hminus]⟩
    refine Or.inr ⟨letter, sign, (skipChar (· ∈ ['+', '-']) rest).takeWhile Char.isDigit, hmem,
      hsign, fun c hc => List.mem_takeWhile_imp hc, ?_⟩
    rw [hskip, List.cons_append, List.append_assoc, List.takeWhile_append_dropWhile, ← hrest]
  · left
    rw [skipExponent, if_neg hletter]

/-- The pieces of a number token, before it is known that they have digits. -/
theorem numberToken_pieces (cs : List Char) :
    ∃ (negative : Bool) (int : List Char) (frac : Option (List Char)) (exp : List Char),
      numberToken cs = (if negative then ['-'] else []) ++
        (int ++ (frac.elim [] ('.' :: ·) ++ exp)) ∧
      (∀ c ∈ int, c.isDigit) ∧ (∀ c ∈ frac.getD [], c.isDigit) ∧
      (exp = [] ∨ ∃ letter sign ds, (letter = 'e' ∨ letter = 'E') ∧
        (sign = [] ∨ sign = ['+'] ∨ sign = ['-']) ∧ (∀ c ∈ ds, c.isDigit) ∧
        exp = letter :: (sign ++ ds)) ∧
      (negative = false → cs.head? ≠ some '-') := by
  obtain ⟨negative, hsign⟩ := skipSign_split cs
  let tail := skipChar (· = '-') cs
  obtain ⟨frac, hfrac, hfracsplit, -⟩ := skipFraction_split (skipDigits tail)
  have hint : tail = tail.takeWhile Char.isDigit ++ skipDigits tail :=
    List.takeWhile_append_dropWhile.symm
  have htoken := numberToken_append cs
  have hneg : negative = false → cs.head? ≠ some '-' := by
    rintro rfl hhead
    have hlen := congrArg List.length hsign
    cases cs with
    | nil => cases hhead
    | cons c rest =>
        obtain rfl : c = '-' := by simpa using hhead
        simp [skipChar] at hlen
  have hcases := skipExponent_split (skipFraction (skipDigits tail))
  have hnumber : skipNumber cs = skipExponent (skipFraction (skipDigits tail)) := rfl
  rcases hcases with hexp | ⟨letter, sign, ds, hletter, hsign', hds, hexp⟩
  · refine ⟨negative, tail.takeWhile Char.isDigit, frac, [], ?_,
      fun c hc => List.mem_takeWhile_imp hc, hfrac, Or.inl rfl, hneg⟩
    refine List.append_cancel_right (?_ : _ ++ skipNumber cs = _ ++ skipNumber cs)
    rw [htoken, hnumber, List.append_nil, ← hexp, List.append_assoc, List.append_assoc,
      ← hfracsplit, ← hint]
    exact hsign
  · refine ⟨negative, tail.takeWhile Char.isDigit, frac, letter :: (sign ++ ds), ?_,
      fun c hc => List.mem_takeWhile_imp hc, hfrac, Or.inr ⟨letter, sign, ds, hletter, hsign',
        hds, rfl⟩, hneg⟩
    refine List.append_cancel_right (?_ : _ ++ skipNumber cs = _ ++ skipNumber cs)
    rw [htoken, hnumber, List.append_assoc, List.append_assoc, List.append_assoc, ← hexp,
      ← hfracsplit, ← hint]
    exact hsign

theorem digit_mem {c : Char} (hc : c.isDigit) : c ∈ "0123456789".toList := by
  obtain ⟨hlow, hhigh⟩ := Char.isDigit_iff_toNat.mp hc
  have hzero : '0'.toNat = 48 := by decide
  have hnine : '9'.toNat = 57 := by decide
  rw [hzero] at hlow
  rw [hnine] at hhigh
  have hall : ∀ m < 10, Char.ofNat (48 + m) ∈ "0123456789".toList := by decide
  have hmem := hall (c.toNat - 48) (by omega)
  rwa [Nat.add_sub_of_le hlow, Char.ofNat_toNat] at hmem

/-- Neither an infinity nor a pattern that is not a number is written with digits. -/
theorem parseName_none {cs : List Char}
    (hcs : ∀ c ∈ cs.head?, c.isDigit ∨ c ∈ ['.', 'e', 'E']) (negative : Bool) :
    parseName negative cs = none := by
  cases cs with
  | nil => cases negative <;> rfl
  | cons c rest =>
      have hlower : c.toLower ≠ 'i' ∧ c.toLower ≠ 'n' := by
        have hall : ∀ d ∈ "0123456789".toList ++ ['.', 'e', 'E'],
            d.toLower ≠ 'i' ∧ d.toLower ≠ 'n' := by simp
        refine hall c ?_
        rcases hcs c rfl with h | h
        · exact List.mem_append_left _ (digit_mem h)
        · exact List.mem_append_right _ h
      simp [parseName, hlower]

theorem parseExponent_some {exp : List Char} {e : Int} (hparse : parseExponent exp = some e)
    {letter : Char} {sign ds : List Char} (hsign : sign = [] ∨ sign = ['+'] ∨ sign = ['-'])
    (hexp : exp = letter :: (sign ++ ds)) : ds ≠ [] := by
  rintro rfl
  subst hexp
  rcases hsign with rfl | rfl | rfl <;> simp [parseExponent, splitSign] at hparse

/-- Before the exponent or the end of a number there is a digit or a point. -/
theorem body_head {int exp : List Char} {frac : Option (List Char)} (hint : ∀ d ∈ int, d.isDigit)
    (hexp : ∀ c ∈ exp.head?, c = 'e' ∨ c = 'E') :
    ∀ c ∈ (int ++ (frac.elim [] ('.' :: ·) ++ exp)).head?, c.isDigit ∨ c ∈ ['.', 'e', 'E'] := by
  intro c hc
  cases int with
  | cons d ds =>
      obtain rfl : d = c := by simpa using hc
      exact Or.inl (hint d List.mem_cons_self)
  | nil =>
      cases frac with
      | some ds =>
          obtain rfl : '.' = c := by simpa using hc
          exact Or.inr (by decide)
      | none =>
          rcases hexp c (by simpa using hc) with rfl | rfl <;> exact Or.inr (by decide)

/-- A number that begins with a digit has digits before the point. -/
theorem int_ne_nil {int exp : List Char} {frac : Option (List Char)}
    (hexp : ∀ c ∈ exp.head?, c = 'e' ∨ c = 'E') {c : Char} (hdigit : c.isDigit)
    (hhead : (int ++ (frac.elim [] ('.' :: ·) ++ exp)).head? = some c) : int ≠ [] := by
  rintro rfl
  have hother : c ∈ ['.', 'e', 'E'] := by
    cases frac with
    | some ds =>
        obtain rfl : '.' = c := by simpa using hhead
        decide
    | none =>
        rcases hexp c (by simpa using hhead) with rfl | rfl <;> decide
  have hall : ∀ d ∈ ['.', 'e', 'E'], d.isDigit = false := by simp
  rw [hall c hother] at hdigit
  cases hdigit

/-- A token that the number reader accepts is a numeral. -/
theorem relaxedNumber_of_parse {cs : List Char} {x : Binary64}
    (hhead : ∀ c ∈ cs.head?, c = '-' ∨ c.isDigit) (hparse : Binary64.parse (numberToken cs) = some x) :
    RelaxedNumber (numberToken cs) := by
  obtain ⟨negative, int, frac, exp, htoken, hint, hfrac, hexp, hneg⟩ := numberToken_pieces cs
  have hexphead : ∀ c ∈ exp.head?, c = 'e' ∨ c = 'E' := by
    rcases hexp with rfl | ⟨letter, sign, ds, hletter, -, -, rfl⟩
    · simp
    · simpa using hletter
  have hnodigit : NoDigit exp := by
    intro c hc
    rcases hexphead c hc with rfl | rfl <;> decide
  have hbodyhead := @body_head int exp frac hint hexphead
  -- Without a minus sign the first character is a digit of the integer part.
  have hplain : negative = false → int ≠ [] := by
    rintro rfl
    have hne : numberToken cs ≠ [] := by
      intro hnil
      rw [hnil, parse_nil] at hparse
      cases hparse
    obtain ⟨c, rest, hcons⟩ := List.exists_cons_of_ne_nil hne
    have hc : cs.head? = some c := by rw [← numberToken_append cs, hcons]; rfl
    have hdigit : c.isDigit := by
      rcases hhead c hc with rfl | h
      · exact absurd hc (hneg rfl)
      · exact h
    refine @int_ne_nil int exp frac hexphead c hdigit ?_
    rw [htoken] at hcons
    exact congrArg List.head? hcons
  have hsplit : splitSign (numberToken cs) =
      (negative, int ++ (frac.elim [] ('.' :: ·) ++ exp)) := by
    rw [htoken]
    cases negative with
    | true => rfl
    | false =>
        obtain ⟨d, ds, rfl⟩ := List.exists_cons_of_ne_nil (hplain rfl)
        have hd : d.isDigit := hint d List.mem_cons_self
        refine Binary64.splitSign_plain ?_ ?_ _
        · rintro rfl
          exact absurd hd (by decide)
        · rintro rfl
          exact absurd hd (by decide)
  rw [Binary64.parse, hsplit] at hparse
  simp only [parseName_none hbodyhead, Option.or_none] at hparse
  have hpoint : exp.head? ≠ some '.' := by
    intro h
    rcases hexphead '.' h with h | h <;> cases h
  simp only [parseNumber, Binary64.takeWhile_digits hint (Binary64.noDigit_fraction hnodigit),
    Binary64.dropWhile_digits hint (Binary64.noDigit_fraction hnodigit),
    Binary64.splitFraction_append hnodigit hfrac hpoint] at hparse
  split at hparse
  · cases hparse
  next hdigits =>
    obtain ⟨e, he, -⟩ := Option.map_eq_some_iff.mp hparse
    have hsome : int ≠ [] ∨ frac.getD [] ≠ [] := not_and_or.mp hdigits
    rw [htoken]
    rcases hexp with rfl | ⟨letter, sign, ds, hletter, hsign, hds, hexp⟩
    · refine ⟨⟨negative, int, frac, none, hint, hfrac, hsome⟩, rfl, ?_⟩
      cases negative with
      | true => exact Or.inl rfl
      | false => exact Or.inr (hplain rfl)
    · have hne := parseExponent_some he hsign hexp
      refine ⟨⟨negative, int, frac, some ⟨letter, sign, ds, hletter, hsign, hne, hds⟩, hint,
        hfrac, hsome⟩, ?_, ?_⟩
      · rw [hexp]
        rfl
      · cases negative with
        | true => exact Or.inl rfl
        | false => exact Or.inr (hplain rfl)

/-! ## Strings -/

theorem readQuad_sound {cs : List Char} {n : Nat} {rest : List Char}
    (hread : readQuad cs = some (n, rest)) : ∃ quad, RelaxedQuad quad ∧ cs = quad ++ rest := by
  unfold readQuad at hread
  split at hread
  · cases hread
  next hlen =>
    obtain ⟨m, hm, heq⟩ := Option.map_eq_some_iff.mp hread
    obtain rfl : cs.drop 4 = rest := congrArg Prod.snd heq
    refine ⟨cs.take 4, ⟨?_, m, hm⟩, (List.take_append_drop 4 cs).symm⟩
    rw [List.length_take]
    omega

theorem readQuad_complete {quad : List Char} (hquad : RelaxedQuad quad) (rest : List Char) :
    ∃ n, readQuad (quad ++ rest) = some (n, rest) := by
  obtain ⟨hlen, n, hn⟩ := hquad
  refine ⟨n, ?_⟩
  rw [readQuad, if_neg (by rw [List.length_append]; omega), List.take_left' hlen,
    List.drop_left' hlen, hn]
  rfl

theorem escapedChar_some {c d : Char} (hc : escapedChar c = some d) : c ∈ escapeLetters := by
  obtain ⟨e, he, -⟩ := Option.map_eq_some_iff.mp hc
  have hmem := List.mem_of_find?_eq_some he
  have hletter : ∀ e ∈ escapes, e.1 ∈ escapeLetters := by decide
  have heq : decide (c = e.1) = true :=
    List.find?_some (p := fun e : Char × Char => decide (c = e.1)) he
  rw [of_decide_eq_true heq]
  exact hletter e hmem

theorem escapedChar_letter : ∀ c ∈ escapeLetters, c ≠ 'u' ∧ (escapedChar c).isSome := by
  simp [escapeLetters, escapedChar, escapes]

/-- One item of a string is an escape, one or two unicode escapes, or a plain character. -/
theorem readItem_sound {cs : List Char} {c : Char} {rest : List Char} (hne : cs.head? ≠ some '"')
    (hread : readItem cs = some (c, rest)) :
    ∃ item, cs = item ++ rest ∧ ∀ body, Chars relaxed body → Chars relaxed (item ++ body) := by
  cases cs with
  | nil => cases hread
  | cons d tail =>
      by_cases hslash : d = '\\'
      · subst hslash
        cases tail with
        | nil => cases hread
        | cons e tail =>
            by_cases hu : e = 'u'
            · subst hu
              simp only [readItem, if_true, readUnicode, Option.bind_eq_some_iff] at hread
              obtain ⟨⟨hi, mid⟩, hhi, hread⟩ := hread
              obtain ⟨quad, hquad, rfl⟩ := readQuad_sound hhi
              dsimp only at hread
              split at hread
              next hpair =>
                obtain ⟨⟨lo, last⟩, hlo, heq⟩ := Option.map_eq_some_iff.mp hread
                obtain rfl : last = rest := congrArg Prod.snd heq
                obtain ⟨quad', hquad', hdrop⟩ := readQuad_sound hlo
                have hmid : mid = '\\' :: 'u' :: (quad' ++ last) := by
                  rw [← hdrop, ← List.take_append_drop 2 mid, hpair.2.2]
                  rfl
                refine ⟨'\\' :: 'u' :: (quad ++ '\\' :: 'u' :: quad'), by simp [hmid], ?_⟩
                intro body hbody
                simpa using Chars.unicode (T := relaxed) hquad (.unicode hquad' hbody)
              · obtain rfl : mid = rest := by
                  have heq := Option.some.inj hread
                  exact congrArg Prod.snd heq
                refine ⟨'\\' :: 'u' :: quad, rfl, fun body hbody => ?_⟩
                simpa using Chars.unicode (T := relaxed) hquad hbody
            · simp only [readItem, hu, if_false] at hread
              obtain ⟨x, hx, heq⟩ := Option.map_eq_some_iff.mp hread
              obtain rfl : tail = rest := congrArg Prod.snd heq
              exact ⟨['\\', e], rfl, fun body hbody => .escape (escapedChar_some hx) hbody⟩
      · rw [readItem_raw hslash] at hread
        split at hread
        · cases hread
        next hlow =>
          obtain rfl : tail = rest := congrArg Prod.snd (Option.some.inj hread)
          have hquote : d ≠ '"' := by simpa using hne
          exact ⟨[d], rfl, fun body hbody => .plain hquote hslash (by omega) hbody⟩

theorem readBody_sound {cs s rest : List Char} (hread : readBody cs = some (s, rest)) :
    ∃ body, Chars relaxed body ∧ cs = body ++ '"' :: rest := by
  fun_induction readBody cs generalizing s rest with
  | case1 => cases hread
  | case2 tail =>
      obtain rfl : tail = rest := congrArg Prod.snd (Option.some.inj hread)
      exact ⟨[], .nil, rfl⟩
  | case3 => cases hread
  | case4 c tail hquote d mid hitem ih =>
      obtain ⟨⟨ds, last⟩, hbody, heq⟩ := Option.map_eq_some_iff.mp hread
      obtain rfl : last = rest := congrArg Prod.snd heq
      obtain ⟨body, hchars, rfl⟩ := ih hbody
      obtain ⟨item, hsplit, hextend⟩ := readItem_sound (by simpa using hquote) hitem
      exact ⟨item ++ body, hextend body hchars, by rw [hsplit, List.append_assoc]⟩

theorem readBody_of_item {c : Char} (hc : c ≠ '"') {cs : List Char} {d : Char}
    {rest : List Char} (hitem : readItem (c :: cs) = some (d, rest)) {s last : List Char}
    (hrest : readBody rest = some (s, last)) : readBody (c :: cs) = some (d :: s, last) := by
  rw [readBody_item hc, hitem, Option.bind_some, hrest]
  rfl

/-- A string of the dialect is read to its end. The induction is on the length, since a
surrogate pair takes two escapes at once. -/
theorem readBody_complete {body : List Char} (hbody : Chars relaxed body) (rest : List Char) :
    ∃ s, readBody (body ++ '"' :: rest) = some (s, rest) := by
  induction hlen : body.length using Nat.strong_induction_on generalizing body with
  | _ n ih =>
      have hnext : ∀ {body' : List Char}, Chars relaxed body' → body'.length < n →
          ∃ s, readBody (body' ++ '"' :: rest) = some (s, rest) :=
        fun hbody' hlt => ih _ hlt hbody' rfl
      cases hbody with
      | nil => exact ⟨[], by simp⟩
      | @plain c cs hquote hslash hlow hcs =>
          obtain ⟨s, hs⟩ := hnext hcs (by rw [← hlen]; simp)
          have hitem : readItem (c :: (cs ++ '"' :: rest)) = some (c, cs ++ '"' :: rest) := by
            rw [readItem_raw hslash, if_neg (by omega)]
          exact ⟨c :: s, readBody_of_item hquote hitem hs⟩
      | @escape c cs hletter hcs =>
          obtain ⟨s, hs⟩ := hnext hcs (by rw [← hlen]; simp only [List.length_cons]; omega)
          obtain ⟨hu, hsome⟩ := escapedChar_letter c hletter
          obtain ⟨d, hd⟩ := Option.isSome_iff_exists.mp hsome
          have hitem : readItem ('\\' :: c :: (cs ++ '"' :: rest)) =
              some (d, cs ++ '"' :: rest) := by
            simp only [readItem, hu, if_false, hd, Option.map_some]
          exact ⟨d :: s, readBody_of_item (by decide) hitem hs⟩
      | @unicode quad cs hquad hcs =>
          obtain ⟨hi, hhi⟩ := readQuad_complete hquad (cs ++ '"' :: rest)
          by_cases hpair : 0xD800 ≤ hi ∧ hi < 0xDC00 ∧
              (cs ++ '"' :: rest).take 2 = ['\\', 'u']
          · -- The first half of a pair: the next item is a unicode escape too.
            obtain ⟨quad', cs', hquad', hcs', rfl⟩ : ∃ quad' cs', RelaxedQuad quad' ∧
                Chars relaxed cs' ∧ cs = '\\' :: 'u' :: (quad' ++ cs') := by
              cases hcs with
              | nil => simp at hpair
              | plain hquote hslash => simp_all
              | @escape c cs' hletter =>
                  have hu := (escapedChar_letter c hletter).1
                  simp_all
              | unicode hquad' hcs' => exact ⟨_, _, hquad', hcs', rfl⟩
            obtain ⟨s, hs⟩ := hnext hcs' (by rw [← hlen]; simp; omega)
            obtain ⟨lo, hlo⟩ := readQuad_complete hquad' (cs' ++ '"' :: rest)
            have hdrop : ('\\' :: 'u' :: (quad' ++ cs') ++ '"' :: rest).drop 2 =
                quad' ++ (cs' ++ '"' :: rest) := by simp
            have hitem : ∃ d, readItem ('\\' :: 'u' ::
                (quad ++ ('\\' :: 'u' :: (quad' ++ cs') ++ '"' :: rest))) =
                  some (d, cs' ++ '"' :: rest) := by
              simp only [readItem, if_true, readUnicode, hhi, Option.bind_some, hpair, hdrop,
                hlo, Option.map_some, and_self]
              exact ⟨_, rfl⟩
            obtain ⟨d, hd⟩ := hitem
            refine ⟨d :: s, ?_⟩
            rw [← readBody_of_item (by decide) hd hs]
            simp
          · obtain ⟨s, hs⟩ := hnext hcs (by rw [← hlen]; simp; omega)
            have hitem : readItem ('\\' :: 'u' :: (quad ++ (cs ++ '"' :: rest))) =
                some ((fromU32 hi).getD '\uFFFD', cs ++ '"' :: rest) := by
              simp only [readItem, if_true, readUnicode, hhi, Option.bind_some, hpair, if_false]
            refine ⟨(fromU32 hi).getD '\uFFFD' :: s, ?_⟩
            rw [← readBody_of_item (by decide) hitem hs]
            simp

/-! ## Containers -/

section Containers

variable {α : Type} {reader : Reader α} {P : List Char → Prop} {close : Char}

theorem readItems_sound
    (hreader : ∀ {cs a rest}, reader.run cs = some (a, rest) →
      ∃ text, cs = text ++ rest ∧ ∀ after, Blank after → P (text ++ after))
    {cs : List Char} {as : List α} {rest : List Char}
    (hread : readItems reader close cs = some (as, rest)) :
    ∃ body, Separated P body ∧ cs = body ++ close :: rest := by
  fun_induction readItems reader close cs generalizing as rest with
  | case1 => cases hread
  | case2 => cases hread
  | case3 cs a mid hitem tail hskip ih =>
      obtain ⟨⟨bs, last⟩, hlast, heq⟩ := Option.map_eq_some_iff.mp hread
      obtain rfl : last = rest := congrArg Prod.snd heq
      obtain ⟨body, hbody, rfl⟩ := ih hlast
      obtain ⟨text, rfl, htext⟩ := hreader hitem
      obtain ⟨after, hafter, hmid⟩ := eq_blanks_append mid
      refine ⟨text ++ after ++ ',' :: body, .more (htext after hafter) hbody, ?_⟩
      rw [hmid, hskip]
      simp
  | case4 cs a mid hitem tail hskip hcomma =>
      obtain rfl : tail = rest := congrArg Prod.snd (Option.some.inj hread)
      obtain ⟨text, rfl, htext⟩ := hreader hitem
      obtain ⟨after, hafter, hmid⟩ := eq_blanks_append mid
      refine ⟨text ++ after, .one (htext after hafter), ?_⟩
      rw [hmid, hskip, List.append_assoc]
  | case5 => cases hread

theorem readItems_complete (hclose : close ≠ ',')
    (hreader : ∀ {text}, P text → ∀ c rest, c = ',' ∨ c = close →
      ∃ a mid, reader.run (text ++ c :: rest) = some (a, mid) ∧ skipBlanks mid = c :: rest)
    {body : List Char} (hbody : Separated P body) (rest : List Char) :
    ∃ as, readItems reader close (body ++ close :: rest) = some (as, rest) := by
  induction hbody with
  | one htext =>
      obtain ⟨a, mid, hrun, hskip⟩ := hreader htext close rest (Or.inr rfl)
      refine ⟨[a], ?_⟩
      rw [readItems_eq, hrun, Option.bind_some]
      simp only [hskip, hclose, if_false, if_true]
  | @more text body htext _ ih =>
      obtain ⟨as, has⟩ := ih
      obtain ⟨a, mid, hrun, hskip⟩ := hreader htext ',' (body ++ close :: rest) (Or.inl rfl)
      refine ⟨a :: as, ?_⟩
      rw [List.append_assoc, List.cons_append, readItems_eq, hrun, Option.bind_some]
      simp only [hskip, if_true, has, Option.map_some]

theorem readList_sound
    (hreader : ∀ {cs a rest}, reader.run cs = some (a, rest) →
      ∃ text, cs = text ++ rest ∧ ∀ after, Blank after → P (text ++ after))
    (hskip : ∀ cs, reader.run (skipBlanks cs) = reader.run cs)
    {cs : List Char} {as : List α} {rest : List Char}
    (hread : readList reader close cs = some (as, rest)) :
    ∃ body, (Blank body ∨ Separated P body) ∧ cs = body ++ close :: rest := by
  unfold readList at hread
  split at hread
  next hhead =>
    obtain rfl : (skipBlanks cs).tail = rest := congrArg Prod.snd (Option.some.inj hread)
    obtain ⟨gap, hgap, hcs⟩ := eq_blanks_append cs
    refine ⟨gap, Or.inl hgap, ?_⟩
    conv_lhs => rw [hcs]
    rw [List.append_cancel_left_eq]
    cases hskipped : skipBlanks cs with
    | nil => simp [hskipped] at hhead
    | cons c tail =>
        obtain rfl : c = close := by simpa [hskipped] using hhead
        rfl
  next hhead =>
    rw [readItems_eq, hskip, ← readItems_eq] at hread
    obtain ⟨body, hbody, hcs⟩ := readItems_sound hreader hread
    exact ⟨body, Or.inr hbody, hcs⟩

theorem readList_complete (hclose : close ≠ ',') (hblank : isBlank close = false)
    (hreader : ∀ {text}, P text → ∀ c rest, c = ',' ∨ c = close →
      ∃ a mid, reader.run (text ++ c :: rest) = some (a, mid) ∧ skipBlanks mid = c :: rest)
    (hskip : ∀ cs, reader.run (skipBlanks cs) = reader.run cs)
    (hclosed : ∀ cs, reader.run (close :: cs) = none)
    {body : List Char} (hbody : Blank body ∨ Separated P body) (rest : List Char) :
    ∃ as, readList reader close (body ++ close :: rest) = some (as, rest) := by
  rcases hbody with hgap | hitems
  · refine ⟨[], ?_⟩
    rw [readList, skipBlanks_append hgap, skipBlanks_cons hblank]
    simp
  · obtain ⟨as, has⟩ := readItems_complete hclose hreader hitems rest
    refine ⟨as, ?_⟩
    rw [readList, if_neg, readItems_eq, hskip, ← readItems_eq, has]
    intro hhead
    rw [readItems_eq, ← hskip] at has
    cases hskipped : skipBlanks (body ++ close :: rest) with
    | nil => simp [hskipped] at hhead
    | cons c tail =>
        obtain rfl : c = close := by simpa [hskipped] using hhead
        rw [hskipped, hclosed] at has
        cases has

end Containers

/-! ## Values -/

theorem readPair_sound {element : Reader JVal} {P : List Char → Prop}
    (helement : ∀ {cs v rest}, element.run cs = some (v, rest) →
      ∃ before text, Blank before ∧ P text ∧ cs = before ++ (text ++ rest))
    {cs : List Char} {kv : String × JVal} {rest : List Char}
    (hread : (pairReader element).run cs = some (kv, rest)) :
    ∃ text, cs = text ++ rest ∧ ∀ after, Blank after → Member relaxed P (text ++ after) := by
  simp only [pairReader, readPair, Option.bind_eq_some_iff] at hread
  obtain ⟨⟨key, mid⟩, hkey, hread⟩ := hread
  obtain ⟨before, hbefore, hcs⟩ := eq_blanks_append cs
  obtain ⟨gap, hgap, hmid⟩ := eq_blanks_append mid
  dsimp only at hread hmid
  split at hread
  next hcolon =>
    obtain ⟨⟨v, last⟩, hval, heq⟩ := Option.map_eq_some_iff.mp hread
    obtain rfl : last = rest := congrArg Prod.snd heq
    obtain ⟨pre, text, hpre, htext, htail⟩ := helement hval
    obtain ⟨body, hbody, hquoted⟩ : ∃ body, Chars relaxed body ∧
        skipBlanks cs = '"' :: (body ++ '"' :: mid) := by
      unfold readString at hkey
      split at hkey
      next tail hskipped =>
        obtain ⟨⟨s, end_⟩, hbody, heq⟩ := Option.map_eq_some_iff.mp hkey
        obtain rfl : end_ = mid := congrArg Prod.snd heq
        obtain ⟨body, hchars, rfl⟩ := readBody_sound hbody
        exact ⟨body, hchars, hskipped⟩
      · cases hkey
    have hcolon' : skipBlanks mid = ':' :: (pre ++ (text ++ last)) := by
      cases hskipped : skipBlanks mid with
      | nil => simp [hskipped] at hcolon
      | cons c tail =>
          obtain rfl : c = ':' := by simpa [hskipped] using hcolon
          rw [hskipped, List.tail_cons] at htail
          rw [htail]
    refine ⟨before ++ '"' :: (body ++ '"' :: (gap ++ ':' :: (pre ++ text))), ?_, ?_⟩
    · conv_lhs => rw [hcs, hquoted, hmid, hcolon']
      simp
    · intro after hafter
      have hmember : Member relaxed P (before ++ '"' :: (body ++ '"' :: (gap ++ ':' ::
          (pre ++ (text ++ after))))) := .intro hbefore hbody hgap (.intro hpre htext hafter)
      simpa using hmember
  · cases hread

theorem readNumber_sound {c : Char} {cs : List Char} (hc : c = '-' ∨ c.isDigit)
    {v : JVal} {rest : List Char} (hread : readNumber (c :: cs) = some (v, rest)) :
    ∃ text, RelaxedNumber text ∧ c :: cs = text ++ rest := by
  obtain ⟨n, hparse, heq⟩ := Option.map_eq_some_iff.mp hread
  obtain rfl : skipNumber (c :: cs) = rest := congrArg Prod.snd heq
  exact ⟨numberToken (c :: cs), relaxedNumber_of_parse (by simpa using hc) hparse,
    (numberToken_append _).symm⟩

theorem readWord_sound {word : String} {v w : JVal} {cs rest : List Char}
    (hread : readWord word v cs = some (w, rest)) : cs = word.toList ++ rest := by
  unfold readWord at hread
  split at hread
  next hbegins =>
    obtain ⟨tail, rfl⟩ := hbegins
    obtain rfl : (word.toList ++ tail).drop word.toList.length = rest :=
      congrArg Prod.snd (Option.some.inj hread)
    rw [List.drop_left]
  · cases hread

/-- One level of the reader is one level of the grammar. -/
theorem readHere_sound {element : Reader JVal} {P : List Char → Prop}
    (hskip : ∀ cs, element.run (skipBlanks cs) = element.run cs)
    (helement : ∀ {cs v rest}, element.run cs = some (v, rest) →
      ∃ before text, Blank before ∧ P text ∧ cs = before ++ (text ++ rest))
    {cs : List Char} {v : JVal} {rest : List Char} (hread : readHere element cs = some (v, rest)) :
    ∃ text, Value relaxed P text ∧ cs = text ++ rest := by
  have hpadded : ∀ {cs : List Char} {v : JVal} {rest : List Char},
      element.run cs = some (v, rest) →
      ∃ text, cs = text ++ rest ∧ ∀ after, Blank after → Padded P (text ++ after) := by
    intro cs v rest hrun
    obtain ⟨before, text, hbefore, htext, rfl⟩ := helement hrun
    refine ⟨before ++ text, by simp, fun after hafter => ?_⟩
    rw [List.append_assoc]
    exact .intro hbefore htext hafter
  -- the first character tells which kind of value is read
  cases cs with
  | nil => cases hread
  | cons c tail =>
      rw [readHere] at hread
      split at hread
      next hc =>
        obtain ⟨⟨ps, last⟩, hlist, heq⟩ := Option.map_eq_some_iff.mp hread
        obtain rfl : last = rest := congrArg Prod.snd heq
        obtain ⟨body, hbody, rfl⟩ := readList_sound (fun h => readPair_sound helement h)
          (readPair_skipBlanks element) hlist
        refine ⟨'{' :: (body ++ ['}']), ?_, by simp [hc]⟩
        rcases hbody with h | h
        · exact .emptyObject h
        · exact .object h
      split at hread
      next hc =>
        obtain ⟨⟨vs, last⟩, hlist, heq⟩ := Option.map_eq_some_iff.mp hread
        obtain rfl : last = rest := congrArg Prod.snd heq
        obtain ⟨body, hbody, rfl⟩ := readList_sound hpadded hskip hlist
        refine ⟨'[' :: (body ++ [']']), ?_, by simp [hc]⟩
        rcases hbody with h | h
        · exact .emptyArray h
        · exact .array h
      split at hread
      next hc =>
        obtain ⟨⟨s, last⟩, hbody, heq⟩ := Option.map_eq_some_iff.mp hread
        obtain rfl : last = rest := congrArg Prod.snd heq
        obtain ⟨body, hchars, rfl⟩ := readBody_sound hbody
        exact ⟨'"' :: (body ++ ['"']), .string hchars, by simp [hc]⟩
      split at hread
      · exact ⟨_, .true, readWord_sound hread⟩
      split at hread
      · exact ⟨_, .false, readWord_sound hread⟩
      split at hread
      · exact ⟨_, .null, readWord_sound hread⟩
      split at hread
      next hc =>
        obtain ⟨text, htext, heq⟩ := readNumber_sound hc hread
        exact ⟨text, .number htext, heq⟩
      · cases hread

theorem valueReader_sound {depth : Nat} {cs : List Char} {v : JVal} {rest : List Char}
    (hread : (valueReader (depth + 1)).run cs = some (v, rest)) :
    ∃ before text, Blank before ∧ ValueWithin relaxed depth text ∧
      cs = before ++ (text ++ rest) := by
  obtain ⟨before, hbefore, hcs⟩ := eq_blanks_append cs
  induction depth generalizing cs v rest before with
  | zero =>
      obtain ⟨text, htext, heq⟩ := readHere_sound (P := fun _ => False)
        (valueReader_skipBlanks 0) (fun h => by cases h) hread
      exact ⟨before, text, hbefore, htext, by rw [← heq, ← hcs]⟩
  | succ depth ih =>
      obtain ⟨text, htext, heq⟩ := readHere_sound (P := ValueWithin relaxed depth)
        (valueReader_skipBlanks (depth + 1))
        (fun {ds _ _} h => by
          obtain ⟨gap, hgap, hds⟩ := eq_blanks_append ds
          exact ih h gap hgap hds) hread
      exact ⟨before, text, hbefore, htext, by rw [← heq, ← hcs]⟩

/-- Everything the reader accepts is a text of the relaxed dialect. -/
theorem readText_sound {cs : List Char} {v : JVal} (hread : readText cs = some v) :
    Text relaxed Parser.depthLimit cs := by
  obtain ⟨⟨w, rest⟩, hrun, hrest⟩ := Option.bind_eq_some_iff.mp hread
  obtain ⟨before, text, hbefore, htext, rfl⟩ := valueReader_sound hrun
  obtain ⟨after, hafter, heq⟩ := eq_blanks_append rest
  have hnil : skipBlanks rest = [] := by
    by_contra hne
    simp [hne] at hrest
  rw [hnil, List.append_nil] at heq
  rw [heq]
  exact .intro hbefore htext hafter

/-- The reader accepts the text wherever it stands, and stops at its end. -/
def Accepts {α : Type} (reader : Reader α) (text : List Char) : Prop :=
  ∀ rest, EndsNumber rest → ∃ a, reader.run (text ++ rest) = some (a, rest)

theorem Takes.accepts {α : Type} {reader : Reader α} {text : List Char} {a : α}
    (htakes : Takes reader text a) : Accepts reader text :=
  fun rest hrest => ⟨a, htakes rest hrest⟩

section Complete

variable {levels : Nat} {P : List Char → Prop}

theorem padded_complete (hP : ∀ {text}, P text → Accepts (valueReader levels) text)
    {text : List Char} (htext : Padded P text) {c : Char} {rest : List Char}
    (hc : EndsNumber (c :: rest)) (hblank : isBlank c = false) :
    ∃ v mid, (valueReader levels).run (text ++ c :: rest) = some (v, mid) ∧
      skipBlanks mid = c :: rest := by
  cases htext with
  | @intro before mid after hbefore hmid hafter =>
      obtain ⟨v, hv⟩ := hP hmid (after ++ c :: rest) (endsNumber_blank hafter hc)
      refine ⟨v, after ++ c :: rest, ?_, ?_⟩
      · rw [← valueReader_skipBlanks, List.append_assoc, skipBlanks_append hbefore,
          valueReader_skipBlanks, List.append_assoc, hv]
      · rw [skipBlanks_append hafter, skipBlanks_cons hblank]

theorem member_complete (hP : ∀ {text}, P text → Accepts (valueReader levels) text)
    {text : List Char} (htext : Member relaxed P text) {c : Char} {rest : List Char}
    (hc : EndsNumber (c :: rest)) (hblank : isBlank c = false) :
    ∃ kv mid, (pairReader (valueReader levels)).run (text ++ c :: rest) = some (kv, mid) ∧
      skipBlanks mid = c :: rest := by
  cases htext with
  | @intro before key gap val hbefore hkey hgap hval =>
      obtain ⟨s, hs⟩ := readBody_complete hkey (gap ++ ':' :: (val ++ c :: rest))
      obtain ⟨v, mid, hv, hmid⟩ := padded_complete hP hval hc hblank
      refine ⟨(String.ofList s, v), mid, ?_, hmid⟩
      have htext : before ++ '"' :: (key ++ '"' :: (gap ++ ':' :: val)) ++ c :: rest =
          before ++ '"' :: (key ++ '"' :: (gap ++ ':' :: (val ++ c :: rest))) := by simp
      rw [htext]
      simp only [pairReader, readPair, skipBlanks_append hbefore,
        skipBlanks_cons (show isBlank '"' = false by decide), readString, hs, Option.map_some,
        Option.bind_some, skipBlanks_append hgap,
        skipBlanks_cons (show isBlank ':' = false by decide), List.head?_cons, if_true,
        List.tail_cons, hv]

theorem ends_of_comma_or {close c : Char} (hclose : close = ']' ∨ close = '}')
    (hc : c = ',' ∨ c = close) (rest : List Char) :
    EndsNumber (c :: rest) ∧ isBlank c = false := by
  rcases hc with rfl | rfl
  · exact ⟨endsNumber_comma rest, by decide⟩
  · rcases hclose with rfl | rfl <;>
      exact ⟨endsNumber_cons (by decide) (by decide) rest, by decide⟩

/-- One level of the grammar is accepted by one level of the reader. -/
theorem value_complete (hP : ∀ {text}, P text → Accepts (valueReader levels) text)
    {text : List Char} (htext : Value relaxed P text) :
    Accepts (valueReader (levels + 1)) text := by
  have hclosedArray : ∀ cs, (valueReader levels).run (']' :: cs) = none := by
    intro cs
    cases levels with
    | zero => rfl
    | succ levels =>
        rw [valueReader_run, skipBlanks_cons (by decide), readHere_none (by decide) (by decide)]
  have hclosedObject : ∀ cs, (pairReader (valueReader levels)).run ('}' :: cs) = none := by
    intro cs
    simp [pairReader, readPair, skipBlanks_cons (show isBlank '}' = false by decide), readString]
  have harray : ∀ {body}, Blank body ∨ Separated (Padded P) body →
      Accepts (valueReader (levels + 1)) ('[' :: (body ++ [']'])) := by
    intro body hbody rest _
    obtain ⟨vs, hvs⟩ := readList_complete (by decide) (by decide)
      (fun h c rest hc => (ends_of_comma_or (Or.inl rfl) hc rest).elim (padded_complete hP h))
      (valueReader_skipBlanks levels) hclosedArray hbody rest
    refine ⟨.arr vs, ?_⟩
    rw [valueReader_run, List.cons_append, skipBlanks_cons (by decide), List.append_assoc]
    simp [readHere, hvs]
  have hobject : ∀ {body}, Blank body ∨ Separated (Member relaxed P) body →
      Accepts (valueReader (levels + 1)) ('{' :: (body ++ ['}'])) := by
    intro body hbody rest _
    obtain ⟨ps, hps⟩ := readList_complete (by decide) (by decide)
      (fun h c rest hc => (ends_of_comma_or (Or.inr rfl) hc rest).elim (member_complete hP h))
      (readPair_skipBlanks (valueReader levels)) hclosedObject hbody rest
    refine ⟨.obj ps, ?_⟩
    rw [valueReader_run, List.cons_append, skipBlanks_cons (by decide), List.append_assoc]
    simp [readHere, hps]
  cases htext with
  | null => exact takes_null.accepts
  | «true» => exact takes_true.accepts
  | «false» => exact takes_false.accepts
  | number h =>
      obtain ⟨n, rfl, hstart⟩ := h
      exact (takes_numeral n hstart).accepts
  | @string body h =>
      intro rest _
      obtain ⟨s, hs⟩ := readBody_complete h rest
      refine ⟨.str (String.ofList s), ?_⟩
      rw [valueReader_run, List.cons_append, skipBlanks_cons (by decide), List.append_assoc]
      simp [readHere, hs]
  | emptyArray h => exact harray (Or.inl h)
  | array h => exact harray (Or.inr h)
  | emptyObject h => exact hobject (Or.inl h)
  | object h => exact hobject (Or.inr h)

theorem valueReader_complete {depth : Nat} {text : List Char}
    (htext : ValueWithin relaxed depth text) : Accepts (valueReader (depth + 1)) text := by
  induction depth generalizing text with
  | zero => exact value_complete (P := fun _ => False) False.elim htext
  | succ depth ih => exact value_complete ih htext

end Complete

/-- Every text of the relaxed dialect is accepted. -/
theorem readText_complete {cs : List Char} (hcs : Text relaxed Parser.depthLimit cs) :
    (readText cs).isSome := by
  cases hcs with
  | @intro before text after hbefore htext hafter =>
      obtain ⟨v, hv⟩ := valueReader_complete htext after
        (by simpa using endsNumber_blank hafter endsNumber_nil)
      have hafter' : skipBlanks after = [] := by
        simpa [skipBlanks] using skipBlanks_append hafter []
      have hrun : (valueReader (Parser.depthLimit + 1)).run (before ++ (text ++ after)) =
          some (v, after) := by
        rw [← valueReader_skipBlanks, skipBlanks_append hbefore, valueReader_skipBlanks, hv]
      simp [readText, hrun, hafter']

/-- The parser accepts exactly the texts of the relaxed dialect within its depth limit. -/
theorem parse_isOk_iff_relaxed (text : String) :
    (∃ v, parse text = .ok v) ↔ Text relaxed Parser.depthLimit text.toList := by
  rw [parse_isOk_iff, Option.isSome_iff_exists]
  constructor
  · rintro ⟨v, hv⟩
    exact readText_sound hv
  · intro hcs
    exact Option.isSome_iff_exists.mp (readText_complete hcs)

end PowerForensics.Json
