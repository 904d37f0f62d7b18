import PowerForensics.Core.JsonAcceptance

/-! # What a string decodes to

A string literal is a list of plain characters and escapes. Each of them stands for a character of
its own, apart from the two halves of a surrogate pair, which stand for one between them. Behind
the first half of a pair the parser takes every unicode escape for the second half, and where it is
none, that escape is lost.
-/

namespace PowerForensics.Json

open JsonGrammar

/-! ## Literals -/

/-- What stands between the quotes of a string, piece by piece. -/
inductive StringUnit where
  | plain (c : Char) (hquote : c ≠ '"') (hslash : c ≠ '\\') (hprint : 0x20 ≤ c.toNat)
  | escape (letter : Char) (hletter : letter ∈ escapeLetters)
  | unicode (quad : List Char) (hquad : RelaxedQuad quad)

/-- What an escape of one letter stands for. -/
def letterChar (letter : Char) : Char :=
  if letter = 'b' then '\x08'
  else if letter = 'f' then '\x0c'
  else if letter = 'n' then '\n'
  else if letter = 'r' then '\r'
  else if letter = 't' then '\t'
  else letter

namespace StringUnit

def text : StringUnit → List Char
  | plain c .. => [c]
  | escape letter _ => ['\\', letter]
  | unicode quad _ => '\\' :: 'u' :: quad

/-- The code unit of a unicode escape. -/
def codeUnit : StringUnit → Option Nat
  | unicode quad _ => fromStrRadix16 quad
  | _ => none

/-- The character that a piece stands for on its own. -/
def own : StringUnit → Char
  | plain c .. => c
  | escape letter _ => letterChar letter
  | unicode quad _ => ((fromStrRadix16 quad).bind fromU32).getD '\uFFFD'

/-- The first half of a surrogate pair. -/
def IsHigh (u : StringUnit) : Prop := ∃ n ∈ u.codeUnit, 0xD800 ≤ n ∧ n < 0xDC00

/-- The second half. -/
def IsLow (u : StringUnit) : Prop := ∃ n ∈ u.codeUnit, 0xDC00 ≤ n ∧ n < 0xE000

instance (u : StringUnit) : Decidable u.IsHigh := by unfold IsHigh; infer_instance

instance (u : StringUnit) : Decidable u.IsLow := by unfold IsLow; infer_instance

/-- The character that two halves stand for. -/
def pairChar (hi lo : StringUnit) : Char :=
  Char.ofNat (0x10000 + (hi.codeUnit.getD 0 - 0xD800) * 2 ^ 10 + (lo.codeUnit.getD 0 - 0xDC00))

end StringUnit

/-- The text between the quotes. -/
def bodyText (units : List StringUnit) : List Char := units.flatMap StringUnit.text

/-- The characters of a literal: of each piece its own, and one of two halves that make a pair. -/
def reference : List StringUnit → List Char
  | [] => []
  | [u] => [u.own]
  | u :: v :: units =>
      if u.IsHigh ∧ v.IsLow then u.pairChar v :: reference units
      else u.own :: reference (v :: units)

/-- The characters that the parser finds. -/
def decoded : List StringUnit → List Char
  | [] => []
  | [u] => [u.own]
  | u :: v :: units =>
      if u.IsHigh ∧ v.codeUnit.isSome then
        (if v.IsLow then u.pairChar v else '\uFFFD') :: decoded units
      else u.own :: decoded (v :: units)

/-- Somewhere the first half of a pair stands before an escape that is not the second one. -/
def Swallows (units : List StringUnit) : Prop :=
  ∃ before hi next after, units = before ++ hi :: next :: after ∧ hi.IsHigh ∧
    next.codeUnit.isSome ∧ ¬ next.IsLow

/-! ## The parser on a literal -/

namespace StringUnit

theorem text_ne_quote (u : StringUnit) (rest : List Char) :
    ∃ c cs, c ≠ '"' ∧ u.text ++ rest = c :: cs := by
  cases u with
  | plain c hquote => exact ⟨c, rest, hquote, rfl⟩
  | escape letter => exact ⟨'\\', letter :: rest, by decide, rfl⟩
  | unicode quad => exact ⟨'\\', 'u' :: (quad ++ rest), by decide, rfl⟩

/-- A unicode escape is known by its first two characters. -/
theorem take_two_text (v : StringUnit) (rest : List Char) :
    (v.text ++ rest).take 2 = ['\\', 'u'] ↔ v.codeUnit.isSome := by
  cases v with
  | plain c hquote hslash =>
      simp only [text, codeUnit, Option.isSome_none, Bool.false_eq_true, iff_false]
      intro htake
      exact hslash (List.cons.inj htake).1
  | escape letter hletter =>
      have hu := (escapedChar_letter letter hletter).1
      simp [text, codeUnit, hu]
  | unicode quad hquad =>
      obtain ⟨-, n, hn⟩ := hquad
      simp [text, codeUnit, hn]

theorem readQuad_quad {quad : List Char} {n : Nat} (hlen : quad.length = 4)
    (hn : fromStrRadix16 quad = some n) (rest : List Char) :
    readQuad (quad ++ rest) = some (n, rest) := by
  rw [readQuad, if_neg (by rw [List.length_append]; omega), List.take_left' hlen,
    List.drop_left' hlen, hn]
  rfl

theorem escapedChar_eq :
    ∀ letter ∈ escapeLetters, escapedChar letter = some (letterChar letter) := by
  simp [escapeLetters, escapedChar, escapes, letterChar]

theorem isHigh_unicode {quad : List Char} {hquad : RelaxedQuad quad} {n : Nat}
    (hn : fromStrRadix16 quad = some n) :
    (unicode quad hquad).IsHigh ↔ 0xD800 ≤ n ∧ n < 0xDC00 := by
  simp [IsHigh, codeUnit, hn]

theorem isLow_unicode {quad : List Char} {hquad : RelaxedQuad quad} {n : Nat}
    (hn : fromStrRadix16 quad = some n) :
    (unicode quad hquad).IsLow ↔ 0xDC00 ≤ n ∧ n < 0xE000 := by
  simp [IsLow, codeUnit, hn]

/-- Without an escape behind the first half of a pair, a piece is read for itself. -/
theorem readItem_own (u : StringUnit) {rest : List Char}
    (halone : ¬ (u.IsHigh ∧ rest.take 2 = ['\\', 'u'])) :
    readItem (u.text ++ rest) = some (u.own, rest) := by
  cases u with
  | plain c hquote hslash hprint =>
      have hread := readItem_raw hslash rest
      rw [if_neg (Nat.not_lt.mpr hprint)] at hread
      exact hread
  | escape letter hletter =>
      have hu := (escapedChar_letter letter hletter).1
      have hread : readItem ('\\' :: letter :: rest) = some (letterChar letter, rest) := by
        simp only [readItem, hu, if_false, escapedChar_eq letter hletter, Option.map_some]
      exact hread
  | unicode quad hquad =>
      obtain ⟨hlen, n, hn⟩ := id hquad
      rw [isHigh_unicode hn, and_assoc] at halone
      have hread : readItem ('\\' :: 'u' :: (quad ++ rest)) =
          some ((fromU32 n).getD '\uFFFD', rest) := by
        simp only [readItem, if_true, readUnicode, readQuad_quad hlen hn, Option.bind_some,
          if_neg halone]
      rw [own, hn, Option.bind_some]
      exact hread

/-- The code point of a pair has a character. -/
theorem fromU32_pair {hi lo : Nat} (hhi : 0xD800 ≤ hi ∧ hi < 0xDC00)
    (hlo : 0xDC00 ≤ lo ∧ lo < 0xE000) :
    fromU32 (0x10000 + (hi - 0xD800) * 2 ^ 10 + (lo - 0xDC00)) =
      some (Char.ofNat (0x10000 + (hi - 0xD800) * 2 ^ 10 + (lo - 0xDC00))) := by
  refine if_pos ?_
  right
  constructor <;> omega

/-- The first half of a pair takes the next escape with it. -/
theorem readItem_pair {u v : StringUnit} (hu : u.IsHigh) (hv : v.codeUnit.isSome)
    (rest : List Char) :
    readItem (u.text ++ (v.text ++ rest)) =
      some (if v.IsLow then u.pairChar v else '\uFFFD', rest) := by
  cases u with
  | plain => simp [IsHigh, codeUnit] at hu
  | escape => simp [IsHigh, codeUnit] at hu
  | unicode hi hhi =>
    cases v with
    | plain => cases hv
    | escape => cases hv
    | unicode lo hlo =>
        obtain ⟨hilen, m, hm⟩ := id hhi
        obtain ⟨lolen, n, hn⟩ := id hlo
        rw [isHigh_unicode hm] at hu
        have hread : readItem ('\\' :: 'u' :: (hi ++ ('\\' :: 'u' :: (lo ++ rest)))) =
            some (if 0xDC00 ≤ n ∧ n < 0xE000 then
              (fromU32 (0x10000 + (m - 0xD800) * 2 ^ 10 + (n - 0xDC00))).getD '\uFFFD'
              else '\uFFFD', rest) := by
          simp only [readItem, if_true, readUnicode, readQuad_quad hilen hm, Option.bind_some,
            List.take_succ_cons, List.take_zero, hu, and_self, List.drop_succ_cons, List.drop_zero,
            readQuad_quad lolen hn, Option.map_some]
        rw [text, text, List.cons_append, List.cons_append, List.cons_append, List.cons_append,
          hread]
        congr 2
        by_cases hlow : 0xDC00 ≤ n ∧ n < 0xE000
        · rw [if_pos hlow, if_pos ((isLow_unicode hn).mpr hlow), fromU32_pair hu hlow,
            Option.getD_some, pairChar, codeUnit, codeUnit, hm, hn, Option.getD_some,
            Option.getD_some]
        · rw [if_neg hlow, if_neg (mt (isLow_unicode hn).mp hlow)]

end StringUnit

theorem bodyText_cons (u : StringUnit) (units : List StringUnit) :
    bodyText (u :: units) = u.text ++ bodyText units := List.flatMap_cons

theorem readBody_units (units : List StringUnit) (rest : List Char) :
    readBody (bodyText units ++ '"' :: rest) = some (decoded units, rest) := by
  have hstep : ∀ (u : StringUnit) (behind : List Char) (c : Char) (next s last : List Char),
      readItem (u.text ++ behind) = some (c, next) → readBody next = some (s, last) →
        readBody (u.text ++ behind) = some (c :: s, last) := by
    intro u behind c next s last hitem hnext
    obtain ⟨d, ds, hd, htext⟩ := u.text_ne_quote behind
    rw [htext] at hitem ⊢
    exact readBody_of_item hd hitem hnext
  -- a piece is an item of the body, and two halves of a pair are one item
  induction units using decoded.induct with
  | case1 => exact readBody_quote rest
  | case2 u =>
      have hitem : readItem (u.text ++ '"' :: rest) = some (u.own, '"' :: rest) :=
        u.readItem_own (by simp)
      rw [bodyText, List.flatMap_singleton]
      exact hstep u _ _ _ _ _ hitem (readBody_quote rest)
  | case3 u v units hpair ih =>
      have hitem := StringUnit.readItem_pair hpair.1 hpair.2 (bodyText units ++ '"' :: rest)
      rw [decoded, if_pos hpair, bodyText_cons, bodyText_cons, List.append_assoc, List.append_assoc]
      exact hstep u _ _ _ _ _ hitem ih
  | case4 u v units halone ih =>
      rw [bodyText_cons, List.append_assoc] at ih
      have hown :
          ¬ (u.IsHigh ∧ (v.text ++ (bodyText units ++ '"' :: rest)).take 2 = ['\\', 'u']) := by
        rwa [v.take_two_text]
      rw [decoded, if_neg halone, bodyText_cons, bodyText_cons, List.append_assoc,
        List.append_assoc]
      exact hstep u _ _ _ _ _ (u.readItem_own hown) ih

/-- Text that is read is a literal. -/
theorem exists_units {body : List Char} (hbody : Chars relaxed body) :
    ∃ units, body = bodyText units := by
  induction hbody with
  | nil => exact ⟨[], rfl⟩
  | @plain c cs hquote hslash hprint _ ih =>
      obtain ⟨units, rfl⟩ := ih
      exact ⟨.plain c hquote hslash hprint :: units, rfl⟩
  | @escape c cs hletter _ ih =>
      obtain ⟨units, rfl⟩ := ih
      exact ⟨.escape c hletter :: units, rfl⟩
  | @unicode quad cs hquad _ ih =>
      obtain ⟨units, rfl⟩ := ih
      exact ⟨.unicode quad hquad :: units, rfl⟩

/-- The parser takes every literal, and gives its decoded characters. -/
theorem string_literal {p : Parser} {units : List StringUnit} {rest : List Char}
    (hp : p.At ('"' :: (bodyText units ++ '"' :: rest))) :
    ∃ q, p.string = .ok (String.ofList (decoded units), q) ∧ q.At rest := by
  have hquoted : readString ('"' :: (bodyText units ++ '"' :: rest)) =
      some (String.ofList (decoded units), rest) := by
    rw [readString, readBody_units]
    rfl
  have hagrees := Parser.string_refines p _ hp
  rw [hquoted] at hagrees
  obtain ⟨q, hq, -, hat⟩ := hagrees
  exact ⟨q, hq, hat⟩

/-- It takes nothing else for a string. -/
theorem literal_of_string {p q : Parser} {cs : List Char} {s : String} (hp : p.At cs)
    (hread : p.string = .ok (s, q)) :
    ∃ units rest, cs = '"' :: (bodyText units ++ '"' :: rest) := by
  have hagrees := Parser.string_refines p cs hp
  cases hstring : readString cs with
  | none =>
      rw [hstring, hread] at hagrees
      obtain ⟨e, he⟩ := hagrees
      cases he
  | some found =>
      unfold readString at hstring
      split at hstring
      next tail =>
        obtain ⟨⟨ds, rest⟩, hbody, -⟩ := Option.map_eq_some_iff.mp hstring
        obtain ⟨body, hchars, rfl⟩ := readBody_sound hbody
        obtain ⟨units, rfl⟩ := exists_units hchars
        exact ⟨units, rest, rfl⟩
      next => cases hstring

/-! ## What is lost -/

theorem not_isLow_of_isHigh {u : StringUnit} (hhigh : u.IsHigh) : ¬ u.IsLow := by
  rintro ⟨n, hn, hlow⟩
  obtain ⟨m, hm, hbounds⟩ := hhigh
  obtain rfl := Option.mem_unique hm hn
  omega

theorem own_of_surrogate {u : StringUnit} {n : Nat} (hn : n ∈ u.codeUnit)
    (hsurrogate : 0xD800 ≤ n ∧ n < 0xE000) : u.own = '\uFFFD' := by
  cases u with
  | plain => cases hn
  | escape => cases hn
  | unicode quad hquad =>
      have hvalue : fromStrRadix16 quad = some n := hn
      have hnone : fromU32 n = none := by
        refine if_neg ?_
        rintro (hlow | ⟨hhigh, -⟩) <;> omega
      rw [StringUnit.own, hvalue, Option.bind_some, hnone]
      rfl

theorem own_of_isHigh {u : StringUnit} (h : u.IsHigh) : u.own = '\uFFFD' := by
  obtain ⟨n, hn, hbounds⟩ := h
  exact own_of_surrogate hn (by omega)

theorem own_of_isLow {u : StringUnit} (h : u.IsLow) : u.own = '\uFFFD' := by
  obtain ⟨n, hn, hbounds⟩ := h
  exact own_of_surrogate hn (by omega)

/-- A pair stands for a character beyond the basic plane. -/
theorem pairChar_ne {u v : StringUnit} (hu : u.IsHigh) (hv : v.IsLow) :
    u.pairChar v ≠ '\uFFFD' := by
  obtain ⟨m, hm, hhigh⟩ := hu
  obtain ⟨n, hn, hlow⟩ := hv
  have hvalid : Nat.isValidChar (0x10000 + (m - 0xD800) * 2 ^ 10 + (n - 0xDC00)) := by
    right
    constructor <;> omega
  intro heq
  have htoNat := congrArg Char.toNat heq
  rw [StringUnit.pairChar, Option.mem_def.mp hm, Option.mem_def.mp hn, Option.getD_some,
    Option.getD_some, Utf8.toNat_ofNat hvalid] at htoNat
  have hreplacement : '\uFFFD'.toNat = 0xFFFD := rfl
  omega

theorem reference_alone {u : StringUnit} {units : List StringUnit}
    (halone : ∀ v ∈ units.head?, ¬ (u.IsHigh ∧ v.IsLow)) :
    reference (u :: units) = u.own :: reference units := by
  cases units with
  | nil => rfl
  | cons v units => rw [reference, if_neg (halone v rfl)]

theorem decoded_alone {u : StringUnit} {units : List StringUnit}
    (halone : ¬ u.IsHigh) : decoded (u :: units) = u.own :: decoded units := by
  cases units with
  | nil => rfl
  | cons v units => rw [decoded, if_neg fun h => halone h.1]

/-- One piece more is not fewer characters. -/
theorem length_reference_cons (u : StringUnit) (units : List StringUnit) :
    (reference units).length ≤ (reference (u :: units)).length := by
  cases units with
  | nil => exact Nat.zero_le _
  | cons v units =>
      by_cases hpair : u.IsHigh ∧ v.IsLow
      · have halone : reference (v :: units) = v.own :: reference units := by
          refine reference_alone fun w _ h => ?_
          exact not_isLow_of_isHigh h.1 hpair.2
        rw [reference, if_pos hpair, halone, List.length_cons, List.length_cons]
      · rw [reference, if_neg hpair]
        exact Nat.le_succ _

/-- No character is added. -/
theorem length_decoded (units : List StringUnit) :
    (decoded units).length ≤ (reference units).length := by
  induction units using decoded.induct with
  | case1 => exact le_refl _
  | case2 u => exact le_refl _
  | case3 u v units hpair ih =>
      rw [decoded, if_pos hpair, List.length_cons, reference]
      split
      · exact Nat.succ_le_succ ih
      · exact Nat.succ_le_succ (ih.trans (length_reference_cons v units))
  | case4 u v units halone ih =>
      have hsingle : ¬ (u.IsHigh ∧ v.IsLow) := by
        rintro ⟨hu, n, hn, -⟩
        exact halone ⟨hu, Option.isSome_iff_exists.mpr ⟨n, hn⟩⟩
      rw [decoded, if_neg halone, reference, if_neg hsingle]
      exact Nat.succ_le_succ ih

/-- An escape that was swallowed is missed, whatever stands behind it. -/
theorem decoded_ne_reference (next : StringUnit) (units : List StringUnit) :
    decoded units ≠ reference (next :: units) := by
  intro heq
  -- the first characters differ if the escape begins a pair, and otherwise the lengths do
  by_cases hpair : ∃ v ∈ units.head?, next.IsHigh ∧ v.IsLow
  · obtain ⟨v, hv, hhigh, hlow⟩ := hpair
    obtain ⟨rest, rfl⟩ := List.head?_eq_some_iff.mp hv
    rw [decoded_alone (fun h => not_isLow_of_isHigh h hlow), reference, if_pos ⟨hhigh, hlow⟩,
      own_of_isLow hlow] at heq
    exact pairChar_ne hhigh hlow (List.cons.inj heq).1.symm
  · have hlength := length_decoded units
    rw [heq, reference_alone fun v hv h => hpair ⟨v, hv, h⟩, List.length_cons] at hlength
    exact Nat.not_succ_le_self _ hlength

theorem swallows_cons {u : StringUnit} {units : List StringUnit} :
    Swallows (u :: units) ↔
      (u.IsHigh ∧ ∃ v ∈ units.head?, v.codeUnit.isSome ∧ ¬ v.IsLow) ∨ Swallows units := by
  constructor
  · rintro ⟨before, hi, next, after, hsplit, hhigh, hescape, hlow⟩
    cases before with
    | nil =>
        obtain ⟨rfl, rfl⟩ := List.cons.inj hsplit
        exact Or.inl ⟨hhigh, next, rfl, hescape, hlow⟩
    | cons w before =>
        obtain ⟨rfl, rfl⟩ := List.cons.inj hsplit
        exact Or.inr ⟨before, hi, next, after, rfl, hhigh, hescape, hlow⟩
  · rintro (⟨hhigh, v, hv, hescape, hlow⟩ | ⟨before, hi, next, after, rfl, hswallow⟩)
    · obtain ⟨rest, rfl⟩ := List.head?_eq_some_iff.mp hv
      exact ⟨[], u, v, rest, rfl, hhigh, hescape, hlow⟩
    · exact ⟨u :: before, hi, next, after, rfl, hswallow⟩

theorem decoded_eq_reference_iff (units : List StringUnit) :
    decoded units = reference units ↔ ¬ Swallows units := by
  induction units using decoded.induct with
  | case1 =>
      refine iff_of_true rfl ?_
      rintro ⟨before, hi, next, after, hsplit, -⟩
      simp at hsplit
  | case2 u =>
      refine iff_of_true rfl ?_
      rintro ⟨before, hi, next, after, hsplit, -⟩
      have hlength := congrArg List.length hsplit
      simp at hlength
      omega
  | case3 u v units hpair ih =>
      rw [decoded, if_pos hpair, reference]
      -- the parser has taken both; if the second is no low half, the reference goes on with it
      by_cases hlow : v.IsLow
      · have hv : ¬ v.IsHigh := fun h => not_isLow_of_isHigh h hlow
        have hswallows : Swallows (u :: v :: units) ↔ Swallows units := by
          rw [swallows_cons, swallows_cons]
          simp [hlow, hv]
        rw [if_pos hlow, if_pos ⟨hpair.1, hlow⟩, List.cons_inj_right, ih, hswallows]
      · rw [if_neg hlow, if_neg fun h => hlow h.2, own_of_isHigh hpair.1, List.cons_inj_right]
        refine iff_of_false (decoded_ne_reference v units) (not_not_intro ?_)
        exact ⟨[], u, v, units, rfl, hpair.1, hpair.2, hlow⟩
  | case4 u v units halone ih =>
      have hsingle : ¬ (u.IsHigh ∧ v.IsLow) := by
        rintro ⟨hu, n, hn, -⟩
        exact halone ⟨hu, Option.isSome_iff_exists.mpr ⟨n, hn⟩⟩
      have hswallows : Swallows (u :: v :: units) ↔ Swallows (v :: units) := by
        rw [swallows_cons]
        refine or_iff_right ?_
        rintro ⟨hhigh, w, hw, hescape, -⟩
        obtain rfl := Option.some.inj hw
        exact halone ⟨hhigh, hescape⟩
      rw [decoded, if_neg halone, reference, if_neg hsingle, List.cons_inj_right, ih, hswallows]

/-- What the parser takes for a string is a literal, and the string has the characters of the
literal's pieces if and only if no first half of a surrogate pair stands before an escape that is
not a second half. -/
theorem string_reference_iff {p q : Parser} {cs : List Char} {s : String} (hp : p.At cs)
    (hread : p.string = .ok (s, q)) :
    (∃ units rest, cs = '"' :: (bodyText units ++ '"' :: rest)) ∧
      ∀ units rest, cs = '"' :: (bodyText units ++ '"' :: rest) →
        q.At rest ∧ (s.toList = reference units ↔ ¬ Swallows units) := by
  refine ⟨literal_of_string hp hread, ?_⟩
  rintro units rest rfl
  obtain ⟨q', hq', hat⟩ := string_literal hp
  rw [hread, Except.ok.injEq, Prod.mk.injEq] at hq'
  obtain ⟨rfl, rfl⟩ := hq'
  rw [String.toList_ofList]
  exact ⟨hat, decoded_eq_reference_iff units⟩

/-- A first half before the escape of a letter. -/
def loneHalf : List StringUnit :=
  [.unicode "d83d".toList ⟨rfl, 0xD83D, rfl⟩, .unicode "0041".toList ⟨rfl, 0x41, rfl⟩]

def loneHalfParser : Parser := .new (String.ofList ('"' :: (bodyText loneHalf ++ ['"'])))

theorem loneHalfParser_at : loneHalfParser.At ('"' :: (bodyText loneHalf ++ ['"'])) := by
  have hat := Parser.at_new (String.ofList ('"' :: (bodyText loneHalf ++ ['"'])))
  rwa [String.toList_ofList] at hat

theorem string_reference_iff_loneHalf :
    ∃ s q, loneHalfParser.string = .ok (s, q) ∧
      (s.toList = reference loneHalf ↔ ¬ Swallows loneHalf) := by
  obtain ⟨q, hread, -⟩ := string_literal loneHalfParser_at
  exact ⟨_, q, hread, ((string_reference_iff loneHalfParser_at hread).2 loneHalf [] rfl).2⟩

/-- The letter behind the lone half is not in the string. -/
theorem letter_swallowed :
    ∃ s q, loneHalfParser.string = .ok (s, q) ∧ reference loneHalf = ['\uFFFD', 'A'] ∧
      s.toList = ['\uFFFD'] := by
  obtain ⟨q, hread, -⟩ := string_literal loneHalfParser_at
  refine ⟨_, q, hread, by decide, ?_⟩
  rw [String.toList_ofList]
  decide

end PowerForensics.Json
