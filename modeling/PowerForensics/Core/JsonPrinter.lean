import PowerForensics.Binary64.Numeral
import PowerForensics.Core.JsonRefinement

/-! # Printed JSON reads back

Every piece the printer emits is consumed by the matching branch of the reader, which
stops exactly where the piece ends. A number stops at the first character that cannot
continue it, so the text after a value must not start with one.
-/

namespace PowerForensics.Json

open Binary64 (Numeral Denotes NoDigit)

/-! ## Numbers -/

/-- The text does not go on with a character of a number. -/
def EndsNumber (cs : List Char) : Prop :=
  ∀ c ∈ cs.head?, c.isDigit = false ∧ c ∉ ['.', 'e', 'E', '+', '-']

theorem EndsNumber.noDigit {cs : List Char} (hcs : EndsNumber cs) : NoDigit cs :=
  fun c hc => (hcs c hc).1

theorem endsNumber_nil : EndsNumber [] := by simp [EndsNumber]

theorem endsNumber_cons {c : Char} (hdigit : c.isDigit = false)
    (hc : c ∉ ['.', 'e', 'E', '+', '-']) (cs : List Char) : EndsNumber (c :: cs) := by
  intro d hd
  obtain rfl : c = d := by simpa using hd
  exact ⟨hdigit, hc⟩

theorem skipExponent_numeral (n : Numeral) {rest : List Char} (hrest : EndsNumber rest) :
    skipExponent (n.exponentText ++ rest) = rest := by
  cases hexp : n.exponent with
  | none =>
      have htext : n.exponentText = [] := by simp [Numeral.exponentText, hexp]
      rw [htext, List.nil_append, skipExponent, if_neg]
      intro hany
      cases rest with
      | nil => simp at hany
      | cons c cs =>
          have hc := (hrest c rfl).2
          simp only [List.head?_cons, Option.any_some, decide_eq_true_eq] at hany
          simp only [List.mem_cons, List.not_mem_nil, or_false] at hany hc
          tauto
  | some e =>
      have htext : n.exponentText = e.letter :: (e.sign ++ e.digits) := by
        simp [Numeral.exponentText, hexp, Binary64.Exponent.text]
      have hletter : e.letter ∈ ['e', 'E'] := by
        rcases e.letter_mem with h | h <;> rw [h] <;> decide
      have hsign : skipChar (· ∈ ['+', '-']) (e.sign ++ (e.digits ++ rest)) = e.digits ++ rest := by
        rcases e.sign_mem with h | h | h
        · obtain ⟨d, ds, hdigits⟩ := List.exists_cons_of_ne_nil e.digits_ne
          have hd : d.isDigit := e.digits_isDigit d (by simp [hdigits])
          have hplain : d ∉ ['+', '-'] := by
            intro hmem
            simp only [List.mem_cons, List.not_mem_nil, or_false] at hmem
            rcases hmem with rfl | rfl <;> exact absurd hd (by decide)
          rw [h, hdigits]
          simp only [List.nil_append, List.cons_append, skipChar, List.head?_cons,
            Option.any_some, decide_eq_true_eq, hplain, if_false]
        · simp [h, skipChar]
        · simp [h, skipChar]
      rw [htext, List.cons_append, List.append_assoc, skipExponent]
      simp only [List.head?_cons, Option.any_some, hletter, decide_true, if_true,
        List.tail_cons, hsign]
      exact Binary64.dropWhile_digits e.digits_isDigit hrest.noDigit

theorem skipFraction_numeral (n : Numeral) {rest : List Char} (hrest : EndsNumber rest) :
    skipFraction (n.fracText ++ (n.exponentText ++ rest)) = n.exponentText ++ rest := by
  have htail : NoDigit (n.exponentText ++ rest) := by
    cases hexp : n.exponentText with
    | nil => simpa using hrest.noDigit
    | cons c cs =>
        have hnodigit := n.noDigit_exponentText
        rw [hexp] at hnodigit
        simpa [NoDigit] using hnodigit
  cases hfrac : n.frac with
  | some ds =>
      have hds : ∀ c ∈ ds, c.isDigit := by simpa [hfrac] using n.frac_isDigit
      have htext : n.fracText = '.' :: ds := by simp [Numeral.fracText, hfrac]
      rw [htext, List.cons_append, skipFraction]
      simp only [List.head?_cons, Option.any_some, decide_true, if_true, List.tail_cons]
      exact Binary64.dropWhile_digits hds htail
  | none =>
      have htext : n.fracText = [] := by simp [Numeral.fracText, hfrac]
      rw [htext, List.nil_append, skipFraction, if_neg]
      intro hany
      cases hexp : n.exponent with
      | none =>
          have hnil : n.exponentText = [] := by simp [Numeral.exponentText, hexp]
          rw [hnil, List.nil_append] at hany
          cases rest with
          | nil => simp at hany
          | cons c cs =>
              have hc := (hrest c rfl).2
              simp only [List.head?_cons, Option.any_some, decide_eq_true_eq] at hany
              simp [hany] at hc
      | some e =>
          have hcons : n.exponentText = e.letter :: (e.sign ++ e.digits) := by
            simp [Numeral.exponentText, hexp, Binary64.Exponent.text]
          rw [hcons] at hany
          simp only [List.cons_append, List.head?_cons, Option.any_some,
            decide_eq_true_eq] at hany
          rcases e.letter_mem with h | h <;> rw [h] at hany <;> exact absurd hany (by decide)

/-- The scan of a number takes the text of a numeral and no more. -/
theorem skipNumber_numeral (n : Numeral) {rest : List Char} (hrest : EndsNumber rest) :
    skipNumber (n.text ++ rest) = rest := by
  have htail : NoDigit (n.fracText ++ (n.exponentText ++ rest)) := by
    have hnodigit := n.noDigit_tail
    rw [← List.append_assoc]
    cases htext : n.fracText ++ n.exponentText with
    | nil => simpa using hrest.noDigit
    | cons c cs =>
        rw [htext] at hnodigit
        simpa [NoDigit] using hnodigit
  have hsign : skipChar (· = '-') (n.text ++ rest) =
      n.int ++ (n.fracText ++ (n.exponentText ++ rest)) := by
    have hassoc : n.text ++ rest = n.signText ++ (n.int ++ (n.fracText ++
        (n.exponentText ++ rest))) := by simp [Numeral.text]
    rw [hassoc]
    cases hneg : n.negative with
    | true => simp [Numeral.signText, hneg, skipChar]
    | false =>
        have hplain : ¬ (n.int ++ (n.fracText ++ (n.exponentText ++ rest))).head?.any
            (fun c => decide (c = '-')) = true := by
          intro hany
          cases hint : n.int with
          | cons d ds =>
              have hd : d.isDigit := n.int_isDigit d (by simp [hint])
              have heq : d = '-' := by simpa [hint] using hany
              rw [heq] at hd
              exact absurd hd (by decide)
          | nil =>
              cases hfrac : n.frac with
              | none => simpa [hint, hfrac] using n.some_digit
              | some ds => simp [hint, Numeral.fracText, hfrac] at hany
        simp only [Numeral.signText, hneg, Bool.false_eq_true, if_false, List.nil_append]
        rw [skipChar, if_neg hplain]
  rw [skipNumber, hsign, skipDigits, Binary64.dropWhile_digits n.int_isDigit htail,
    skipFraction_numeral n hrest, skipExponent_numeral n hrest]

theorem numberToken_numeral (n : Numeral) {rest : List Char} (hrest : EndsNumber rest) :
    numberToken (n.text ++ rest) = n.text := by
  rw [numberToken, skipNumber_numeral n hrest, List.length_append, Nat.add_sub_cancel,
    List.take_left]

theorem readNumber_numeral (n : Numeral) {rest : List Char} (hrest : EndsNumber rest) :
    readNumber (n.text ++ rest) = some (.num n.value, rest) := by
  rw [readNumber, numberToken_numeral n hrest, skipNumber_numeral n hrest, n.parse_text]
  rfl

/-! ## Strings -/

theorem fromStrRadix16_hex04 : ∀ n < 0x20, fromStrRadix16 (hex04 n) = some n := by decide

theorem fromU32_toNat (c : Char) : fromU32 c.toNat = some c := by
  have hvalid : c.toNat.isValidChar := c.valid
  rw [fromU32, if_pos hvalid, Char.ofNat_toNat]

theorem readQuad_hex04 {n : Nat} (hn : n < 0x20) (rest : List Char) :
    readQuad (hex04 n ++ rest) = some (n, rest) := by
  have hlen : (hex04 n).length = 4 := rfl
  rw [readQuad, if_neg (by rw [List.length_append, hlen]; omega), List.take_left' hlen,
    List.drop_left' hlen, fromStrRadix16_hex04 n hn]
  rfl

/-- The reader takes back the one character that was printed. -/
theorem readItem_escapeChar (c : Char) (rest : List Char) :
    readItem (escapeChar c ++ rest) = some (c, rest) := by
  have hescape : ∀ e ∈ escapes, e.1 ≠ 'u' → readItem ('\\' :: e.1 :: rest) = some (e.2, rest) := by
    intro e he hu
    have hchar : ∀ e ∈ escapes, escapedChar e.1 = some e.2 := by decide
    simp only [readItem, hu, if_false, hchar e he, Option.map_some]
  unfold escapeChar
  split
  next hc => subst hc; exact hescape ('"', '"') (by decide) (by decide)
  split
  next hc => subst hc; exact hescape ('\\', '\\') (by decide) (by decide)
  split
  next hc => subst hc; exact hescape ('n', '\n') (by decide) (by decide)
  split
  next hc => subst hc; exact hescape ('r', '\r') (by decide) (by decide)
  split
  next hc => subst hc; exact hescape ('t', '\t') (by decide) (by decide)
  split
  next hlow =>
    have hhi : ¬ (0xD800 ≤ c.toNat ∧ c.toNat < 0xDC00 ∧ rest.take 2 = ['\\', 'u']) := by omega
    simp only [List.cons_append, List.nil_append, readItem, if_true, readUnicode,
      readQuad_hex04 hlow, Option.bind_some, hhi, if_false, fromU32_toNat, Option.getD_some]
  next _ hslash _ _ _ hhigh =>
    rw [List.singleton_append, readItem_raw hslash, if_neg hhigh]

theorem escapeChar_head {c d : Char} (hd : (escapeChar c).head? = some d) : d ≠ '"' := by
  unfold escapeChar at hd
  split at hd
  next => rintro rfl; simp at hd
  next hquote =>
    split at hd
    next => rintro rfl; simp at hd
    split at hd
    next => rintro rfl; simp at hd
    split at hd
    next => rintro rfl; simp at hd
    split at hd
    next => rintro rfl; simp at hd
    split at hd
    next => rintro rfl; simp at hd
    next =>
      obtain rfl : c = d := by simpa using hd
      exact hquote

theorem escapeChar_ne_nil (c : Char) : escapeChar c ≠ [] := by
  have hitem := readItem_escapeChar c []
  intro hnil
  simp [hnil, readItem] at hitem

theorem readBody_escapeChar (c : Char) (rest : List Char) :
    readBody (escapeChar c ++ rest) = (readBody rest).map fun x => (c :: x.1, x.2) := by
  obtain ⟨d, ds, hcons⟩ := List.exists_cons_of_ne_nil (escapeChar_ne_nil c)
  have hd : d ≠ '"' := escapeChar_head (by rw [hcons]; rfl)
  have hitem := readItem_escapeChar c rest
  rw [hcons, List.cons_append] at hitem ⊢
  rw [readBody_item hd, hitem, Option.bind_some]

/-- Reading escaped characters goes on behind them. -/
theorem readBody_flatMap (cs rest : List Char) :
    readBody (cs.flatMap escapeChar ++ rest) =
      (readBody rest).map fun x => (cs ++ x.1, x.2) := by
  induction cs with
  | nil => simp
  | cons c cs ih =>
      rw [List.flatMap_cons, List.append_assoc, readBody_escapeChar, ih, Option.map_map]
      rfl

theorem readBody_escaped (s rest : List Char) :
    readBody (s.flatMap escapeChar ++ '"' :: rest) = some (s, rest) := by
  simp [readBody_flatMap]

theorem readString_toJson (s : String) (rest : List Char) :
    readString ((stringToJson s).toList ++ rest) = some (s, rest) := by
  simp [stringToJson, readString, readBody_escaped]

/-! ## Texts that a reader takes as a value -/

/-- The reader takes the text as the value wherever it stands, and stops at its end. -/
def Takes {α : Type} (reader : Reader α) (cs : List Char) (a : α) : Prop :=
  ∀ rest, EndsNumber rest → reader.run (cs ++ rest) = some (a, rest)

/-- Texts between commas. -/
def commaJoin : List (List Char) → List Char
  | [] => []
  | [cs] => cs
  | cs :: ds :: rest => cs ++ ',' :: commaJoin (ds :: rest)

theorem endsNumber_comma (cs : List Char) : EndsNumber (',' :: cs) :=
  endsNumber_cons (by decide) (by decide) cs

theorem skipBlanks_cons {c : Char} (hc : isBlank c = false) (cs : List Char) :
    skipBlanks (c :: cs) = c :: cs := by
  simp [skipBlanks, hc]

theorem skipBlanks_skipBlanks (cs : List Char) : skipBlanks (skipBlanks cs) = skipBlanks cs := by
  induction cs with
  | nil => rfl
  | cons c cs ih =>
      by_cases hc : isBlank c = true
      · simpa [skipBlanks, List.dropWhile_cons, hc] using ih
      · rw [skipBlanks_cons (by simpa using hc), skipBlanks_cons (by simpa using hc)]

section Lists

variable {α : Type} {reader : Reader α} {close : Char}

theorem skipBlanks_gap {gap : List Char} (hgap : ∀ c ∈ gap, isBlank c = true)
    (hblank : isBlank close = false) (rest : List Char) :
    skipBlanks (gap ++ close :: rest) = close :: rest := by
  rw [skipBlanks, List.dropWhile_append_of_pos hgap]
  exact skipBlanks_cons hblank rest

theorem endsNumber_gap {gap : List Char} (hgap : ∀ c ∈ gap, isBlank c = true)
    (hdigit : close.isDigit = false) (hchar : close ∉ ['.', 'e', 'E', '+', '-'])
    (rest : List Char) : EndsNumber (gap ++ close :: rest) := by
  cases gap with
  | nil => exact endsNumber_cons hdigit hchar rest
  | cons c gap =>
      have hblank : c = ' ' ∨ c = '\t' ∨ c = '\n' ∨ c = '\r' := by
        simpa [isBlank] using hgap c List.mem_cons_self
      rcases hblank with rfl | rfl | rfl | rfl <;>
        exact endsNumber_cons (by decide) (by decide) _

/-- Blanks may stand before the closing character. -/
theorem Takes.items (hblank : isBlank close = false) (hdigit : close.isDigit = false)
    (hchar : close ∉ ['.', 'e', 'E', '+', '-']) (hcomma : close ≠ ',')
    {gap : List Char} (hgap : ∀ c ∈ gap, isBlank c = true)
    {texts : List (List Char)} {as : List α} (htakes : List.Forall₂ (Takes reader) texts as)
    (hne : texts ≠ []) (rest : List Char) :
    readItems reader close (commaJoin texts ++ (gap ++ close :: rest)) = some (as, rest) := by
  induction htakes with
  | nil => exact absurd rfl hne
  | @cons cs a texts as hhead htail ih =>
      cases htail with
      | nil =>
          have hrun := hhead (gap ++ close :: rest) (endsNumber_gap hgap hdigit hchar rest)
          rw [commaJoin, readItems_eq, hrun, Option.bind_some]
          simp only [skipBlanks_gap hgap hblank, hcomma, if_false, if_true]
      | @cons ds b texts as hsecond htail =>
          have hrun := hhead (',' :: (commaJoin (ds :: texts) ++ (gap ++ close :: rest)))
            (endsNumber_comma _)
          rw [commaJoin, List.append_assoc, List.cons_append, readItems_eq, hrun,
            Option.bind_some]
          simp only [skipBlanks_cons (show isBlank ',' = false by decide), if_true]
          rw [ih (by simp)]
          rfl

theorem Takes.list (hblank : isBlank close = false) (hdigit : close.isDigit = false)
    (hchar : close ∉ ['.', 'e', 'E', '+', '-']) (hcomma : close ≠ ',')
    (hskip : ∀ cs, reader.run (skipBlanks cs) = reader.run cs)
    (hclosed : ∀ cs, reader.run (close :: cs) = none)
    {gap : List Char} (hgap : ∀ c ∈ gap, isBlank c = true)
    {texts : List (List Char)} {as : List α} (htakes : List.Forall₂ (Takes reader) texts as)
    (rest : List Char) :
    readList reader close (commaJoin texts ++ (gap ++ close :: rest)) = some (as, rest) := by
  cases htakes with
  | nil => simp [readList, commaJoin, skipBlanks_gap hgap hblank]
  | @cons cs a texts as hhead htail =>
      have hitems := Takes.items hblank hdigit hchar hcomma hgap (.cons hhead htail) (by simp) rest
      generalize commaJoin (cs :: texts) ++ (gap ++ close :: rest) = whole at hitems ⊢
      have hopen : (skipBlanks whole).head? ≠ some close := by
        intro hhead?
        obtain ⟨ds, hds⟩ : ∃ ds, skipBlanks whole = close :: ds := by
          cases hskipped : skipBlanks whole with
          | nil => simp [hskipped] at hhead?
          | cons c ds => exact ⟨ds, by simpa [hskipped] using hhead?⟩
        have hnone := hskip whole
        rw [hds, hclosed] at hnone
        rw [readItems_eq, ← hnone] at hitems
        cases hitems
      rw [readList, if_neg hopen, readItems_eq, hskip, ← readItems_eq]
      exact hitems

end Lists

section Values

variable {levels : Nat}

theorem valueReader_run (levels : Nat) (cs : List Char) :
    (valueReader (levels + 1)).run cs = readHere (valueReader levels) (skipBlanks cs) := rfl

theorem valueReader_skipBlanks (levels : Nat) (cs : List Char) :
    (valueReader levels).run (skipBlanks cs) = (valueReader levels).run cs := by
  cases levels with
  | zero => rfl
  | succ levels => rw [valueReader_run, skipBlanks_skipBlanks, ← valueReader_run]

theorem readHere_none {element : Reader JVal} {c : Char}
    (hc : c ∉ ['{', '[', '"', 't', 'f', 'n', '-']) (hdigit : c.isDigit = false)
    (cs : List Char) : readHere element (c :: cs) = none := by
  simp only [List.mem_cons, List.not_mem_nil, or_false, not_or] at hc
  simp [readHere, hc, hdigit]

theorem readPair_skipBlanks (element : Reader JVal) (cs : List Char) :
    (pairReader element).run (skipBlanks cs) = (pairReader element).run cs := by
  simp only [pairReader, readPair, skipBlanks_skipBlanks]

theorem takes_word {word : String} {v : JVal}
    (hword : ∀ element rest, readHere element (skipBlanks (word.toList ++ rest)) =
      readWord word v (word.toList ++ rest)) : Takes (valueReader (levels + 1)) word.toList v := by
  intro rest _
  rw [valueReader_run, hword, readWord, if_pos (List.prefix_append _ _), List.drop_left]

theorem takes_null : Takes (valueReader (levels + 1)) "null".toList .null :=
  takes_word fun _ _ => rfl

theorem takes_true : Takes (valueReader (levels + 1)) "true".toList (.bool true) :=
  takes_word fun _ _ => rfl

theorem takes_false : Takes (valueReader (levels + 1)) "false".toList (.bool false) :=
  takes_word fun _ _ => rfl

/-- A numeral that starts with a minus sign or a digit is taken as its value. -/
theorem takes_numeral (n : Numeral) (hstart : n.negative ∨ n.int ≠ []) :
    Takes (valueReader (levels + 1)) n.text (.num n.value) := by
  intro rest hrest
  obtain ⟨c, ds, hcons, hc⟩ : ∃ c ds, n.text ++ rest = c :: ds ∧ (c = '-' ∨ c.isDigit) := by
    cases hneg : n.negative with
    | true =>
        exact ⟨'-', n.int ++ (n.fracText ++ (n.exponentText ++ rest)), by
          simp [Numeral.text, Numeral.signText, hneg], Or.inl rfl⟩
    | false =>
        have hint : n.int ≠ [] := by simpa [hneg] using hstart
        obtain ⟨d, ds, hds⟩ := List.exists_cons_of_ne_nil hint
        exact ⟨d, ds ++ (n.fracText ++ (n.exponentText ++ rest)), by
          simp [Numeral.text, Numeral.signText, hneg, hds],
          Or.inr (n.int_isDigit d (by simp [hds]))⟩
  have hother : ∀ {a : Char}, a ≠ '-' → a.isDigit = false → c ≠ a := by
    rintro a ha hdigit rfl
    rcases hc with h | h
    · exact ha h
    · rw [hdigit] at h
      cases h
  have hblank : isBlank c = false := by
    simp [isBlank, hother (a := ' '), hother (a := '\t'), hother (a := '\n'),
      hother (a := '\r')]
  rw [valueReader_run, hcons, skipBlanks_cons hblank]
  simp only [readHere, hother (a := '{') (by decide) (by decide),
    hother (a := '[') (by decide) (by decide), hother (a := '"') (by decide) (by decide),
    hother (a := 't') (by decide) (by decide), hother (a := 'f') (by decide) (by decide),
    hother (a := 'n') (by decide) (by decide), if_false, hc, if_true]
  rw [← hcons]
  exact readNumber_numeral n hrest

/-- The text of a number is taken as that number. -/
theorem takes_number {cs : List Char} {x : Binary64} (hcs : Denotes cs x) :
    Takes (valueReader (levels + 1)) cs (.num x) := by
  obtain ⟨n, hint, rfl, rfl⟩ := hcs
  exact takes_numeral n (Or.inr hint)

theorem takes_string (s : String) :
    Takes (valueReader (levels + 1)) (stringToJson s).toList (.str s) := by
  intro rest _
  have hbody := readBody_escaped s.toList rest
  have htext : (stringToJson s).toList ++ rest =
      '"' :: (s.toList.flatMap escapeChar ++ '"' :: rest) := by
    simp [stringToJson]
  rw [valueReader_run, htext, skipBlanks_cons (by decide)]
  simp [readHere, hbody]

theorem takes_arr {texts : List (List Char)} {vs : List JVal}
    (htakes : List.Forall₂ (Takes (valueReader levels)) texts vs) :
    Takes (valueReader (levels + 1)) ('[' :: (commaJoin texts ++ [']'])) (.arr vs) := by
  intro rest _
  have hclosed : ∀ cs, (valueReader levels).run (']' :: cs) = none := by
    intro cs
    cases levels with
    | zero => rfl
    | succ levels =>
        rw [valueReader_run, skipBlanks_cons (by decide), readHere_none (by decide) (by decide)]
  have hlist := Takes.list (by decide) (by decide) (by decide) (by decide)
    (valueReader_skipBlanks levels) hclosed (List.forall_mem_nil _) htakes rest
  rw [List.nil_append] at hlist
  rw [valueReader_run, List.cons_append, skipBlanks_cons (by decide), List.append_assoc]
  simp [readHere, hlist]

/-- A key and the text of its value. -/
theorem takes_pair {cs : List Char} {v : JVal} (hcs : Takes (valueReader levels) cs v)
    (key : String) : Takes (pairReader (valueReader levels))
      ((stringToJson key).toList ++ ':' :: cs) (key, v) := by
  intro rest hrest
  have hkey := readString_toJson key (':' :: (cs ++ rest))
  have hblank : skipBlanks ((stringToJson key).toList ++ ':' :: (cs ++ rest)) =
      (stringToJson key).toList ++ ':' :: (cs ++ rest) := by
    simp only [stringToJson, String.toList_append]
    exact skipBlanks_cons (by decide) _
  simp only [pairReader, readPair, List.append_assoc, List.cons_append, hblank, hkey,
    Option.bind_some, skipBlanks_cons (show isBlank ':' = false by decide), List.head?_cons,
    if_true, List.tail_cons, hcs rest hrest, Option.map_some]

/-- An object with blanks before its closing brace. -/
theorem takes_obj_gap {gap : List Char} (hgap : ∀ c ∈ gap, isBlank c = true)
    {texts : List (List Char)} {pairs : List (String × JVal)}
    (htakes : List.Forall₂ (Takes (pairReader (valueReader levels))) texts pairs) :
    Takes (valueReader (levels + 1)) ('{' :: (commaJoin texts ++ (gap ++ ['}'])))
      (.obj pairs) := by
  intro rest _
  have hclosed : ∀ cs, (pairReader (valueReader levels)).run ('}' :: cs) = none := by
    intro cs
    simp [pairReader, readPair, skipBlanks_cons (show isBlank '}' = false by decide), readString]
  have hlist := Takes.list (by decide) (by decide) (by decide) (by decide)
    (readPair_skipBlanks (valueReader levels)) hclosed hgap htakes rest
  rw [valueReader_run, List.cons_append, skipBlanks_cons (by decide), List.append_assoc,
    List.append_assoc]
  simp [readHere, hlist]

theorem takes_obj {texts : List (List Char)} {pairs : List (String × JVal)}
    (htakes : List.Forall₂ (Takes (pairReader (valueReader levels))) texts pairs) :
    Takes (valueReader (levels + 1)) ('{' :: (commaJoin texts ++ ['}'])) (.obj pairs) :=
  takes_obj_gap (List.forall_mem_nil _) htakes

end Values

/-! ## The round trip -/

mutual

/-- The number of containers around the most deeply nested value. -/
def JVal.depth : JVal → Nat
  | .arr items => itemsDepth items
  | .obj pairs => pairsDepth pairs
  | _ => 0

def itemsDepth : List JVal → Nat
  | [] => 0
  | v :: rest => max (v.depth + 1) (itemsDepth rest)

def pairsDepth : List (String × JVal) → Nat
  | [] => 0
  | (_, v) :: rest => max (v.depth + 1) (pairsDepth rest)

end

mutual

/-- Every number in the value is finite. -/
def JVal.Finite : JVal → Prop
  | .num n => n.isFinite
  | .arr items => ItemsFinite items
  | .obj pairs => PairsFinite pairs
  | _ => True

def ItemsFinite : List JVal → Prop
  | [] => True
  | v :: rest => v.Finite ∧ ItemsFinite rest

def PairsFinite : List (String × JVal) → Prop
  | [] => True
  | (_, v) :: rest => v.Finite ∧ PairsFinite rest

end

mutual

/-- What the text of a value stands for: a number that is not finite is printed as null. -/
def JVal.printed : JVal → JVal
  | .num n => if n.isFinite then .num n else .null
  | .arr items => .arr (printedItems items)
  | .obj pairs => .obj (printedPairs pairs)
  | .null => .null
  | .bool b => .bool b
  | .str s => .str s

def printedItems : List JVal → List JVal
  | [] => []
  | v :: rest => v.printed :: printedItems rest

def printedPairs : List (String × JVal) → List (String × JVal)
  | [] => []
  | (k, v) :: rest => (k, v.printed) :: printedPairs rest

end

mutual

theorem JVal.printed_of_finite : (v : JVal) → v.Finite → v.printed = v
  | .num n, hfinite => if_pos hfinite
  | .arr items, hfinite => by rw [JVal.printed, printedItems_of_finite items hfinite]
  | .obj pairs, hfinite => by rw [JVal.printed, printedPairs_of_finite pairs hfinite]
  | .null, _ => rfl
  | .bool _, _ => rfl
  | .str _, _ => rfl

theorem printedItems_of_finite : (items : List JVal) → ItemsFinite items →
    printedItems items = items
  | [], _ => rfl
  | v :: rest, hfinite => by
      rw [printedItems, v.printed_of_finite hfinite.1, printedItems_of_finite rest hfinite.2]

theorem printedPairs_of_finite : (pairs : List (String × JVal)) → PairsFinite pairs →
    printedPairs pairs = pairs
  | [], _ => rfl
  | (k, v) :: rest, hfinite => by
      rw [printedPairs, v.printed_of_finite hfinite.1, printedPairs_of_finite rest hfinite.2]

end

theorem itemsToJson_eq (items : List JVal) :
    (itemsToJson items).toList = commaJoin (items.map fun v => (toJson v).toList) := by
  induction items with
  | nil => rfl
  | cons v rest ih =>
      cases rest with
      | nil => rfl
      | cons w rest =>
          simp only [itemsToJson, String.toList_append, ih, List.map_cons, commaJoin]
          simp

theorem pairsToJson_eq (pairs : List (String × JVal)) :
    (pairsToJson pairs).toList =
      commaJoin (pairs.map fun kv => (stringToJson kv.1).toList ++ ':' :: (toJson kv.2).toList) := by
  induction pairs with
  | nil => rfl
  | cons kv rest ih =>
      cases rest with
      | nil => simp [pairsToJson, commaJoin]
      | cons kw rest =>
          simp only [pairsToJson, String.toList_append, ih, List.map_cons, commaJoin]
          simp

mutual

/-- The text of a value is taken as what it stands for by a reader with enough levels
left. -/
theorem takes_toJson : (v : JVal) → {levels : Nat} → v.depth < levels →
    Takes (valueReader levels) (toJson v).toList v.printed
  | v, 0, hdepth => absurd hdepth (Nat.not_lt_zero _)
  | .null, _ + 1, _ => takes_null
  | .bool true, _ + 1, _ => takes_true
  | .bool false, _ + 1, _ => takes_false
  | .num n, _ + 1, _ => by
      by_cases hn : n.isFinite = true
      · simp only [toJson, hn, if_true, String.toList_ofList, JVal.printed]
        exact takes_number (Binary64.denotes_debug hn)
      · simp only [toJson, hn, JVal.printed]
        exact takes_null
  | .str s, _ + 1, _ => takes_string s
  | .arr items, levels + 1, hdepth => by
      have hlevels : itemsDepth items ≤ levels := by
        simp only [JVal.depth] at hdepth
        omega
      have htakes := takes_items items hlevels
      have htext : (toJson (.arr items)).toList =
          '[' :: (commaJoin (items.map fun v => (toJson v).toList) ++ [']']) := by
        simp [toJson, itemsToJson_eq]
      rw [htext, JVal.printed]
      exact takes_arr htakes
  | .obj pairs, levels + 1, hdepth => by
      have hlevels : pairsDepth pairs ≤ levels := by
        simp only [JVal.depth] at hdepth
        omega
      have htakes := takes_pairs pairs hlevels
      have htext : (toJson (.obj pairs)).toList = '{' :: (commaJoin
          (pairs.map fun kv => (stringToJson kv.1).toList ++ ':' :: (toJson kv.2).toList) ++
            ['}']) := by
        simp [toJson, pairsToJson_eq]
      rw [htext, JVal.printed]
      exact takes_obj htakes

theorem takes_items : (items : List JVal) → {levels : Nat} → itemsDepth items ≤ levels →
    List.Forall₂ (Takes (valueReader levels)) (items.map fun v => (toJson v).toList)
      (printedItems items)
  | [], _, _ => .nil
  | v :: rest, _, hdepth => by
      simp only [itemsDepth] at hdepth
      exact .cons (takes_toJson v (by omega)) (takes_items rest (by omega))

theorem takes_pairs : (pairs : List (String × JVal)) → {levels : Nat} →
    pairsDepth pairs ≤ levels →
    List.Forall₂ (Takes (pairReader (valueReader levels)))
      (pairs.map fun kv => (stringToJson kv.1).toList ++ ':' :: (toJson kv.2).toList)
      (printedPairs pairs)
  | [], _, _ => .nil
  | (k, v) :: rest, _, hdepth => by
      simp only [pairsDepth] at hdepth
      exact .cons (takes_pair (takes_toJson v (by omega)) k) (takes_pairs rest (by omega))

end

/-- A text that the reader takes at the top is parsed as the value. -/
theorem parse_of_takes {text : String} {v : JVal}
    (htakes : Takes (valueReader (Parser.depthLimit + 1)) text.toList v) :
    parse text = .ok v := by
  have hrun := htakes [] endsNumber_nil
  rw [List.append_nil] at hrun
  rw [parse_eq_ok_iff, readText, hrun]
  rfl

/-- Printing then parsing is the identity on values with finite numbers whose nesting
is within the parser's limit. -/
theorem parse_toJson (v : JVal) (hfinite : v.Finite) (hdepth : v.depth ≤ Parser.depthLimit) :
    parse (toJson v) = .ok v := by
  have htakes := takes_toJson v (Nat.lt_succ_of_le hdepth)
  rw [v.printed_of_finite hfinite] at htakes
  exact parse_of_takes htakes

/-- An object with a duplicate and an empty key, a negative zero and characters that are
escaped or lie outside the basic plane. -/
theorem parse_toJson_sample :
    parse (toJson (.obj [("", .num (-0)), ("", .arr [.str "\"\\\x01😀", .null])])) =
      .ok (.obj [("", .num (-0)), ("", .arr [.str "\"\\\x01😀", .null])]) :=
  parse_toJson _ (by
    have hzero : (-0 : Binary64).isFinite = true := by decide +kernel
    simp [JVal.Finite, PairsFinite, ItemsFinite, hzero]) (by decide)

end PowerForensics.Json
