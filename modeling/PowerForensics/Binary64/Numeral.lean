import PowerForensics.Binary64.Decimal

/-! # Numerals

A numeral is a decimal text taken apart: sign, digits before and after the point, and
exponent. Reading the text of a numeral gives its value, and every layout that prints
a finite number is the text of a numeral whose value is that number. So printed
numbers read back exactly.
-/

namespace Binary64

/-- An exponent with its letter and its sign as written. -/
structure Exponent where
  letter : Char
  sign : List Char
  digits : List Char
  letter_mem : letter = 'e' ∨ letter = 'E'
  sign_mem : sign = [] ∨ sign = ['+'] ∨ sign = ['-']
  digits_ne : digits ≠ []
  digits_isDigit : ∀ c ∈ digits, c.isDigit

namespace Exponent

def text (e : Exponent) : List Char := e.letter :: (e.sign ++ e.digits)

def value (e : Exponent) : Int :=
  if e.sign = ['-'] then -(digitsValue e.digits : Int) else digitsValue e.digits

end Exponent

/-- A decimal text taken apart; some digit stands before or after the point. -/
structure Numeral where
  negative : Bool
  int : List Char
  frac : Option (List Char)
  exponent : Option Exponent
  int_isDigit : ∀ c ∈ int, c.isDigit
  frac_isDigit : ∀ c ∈ frac.getD [], c.isDigit
  some_digit : int ≠ [] ∨ frac.getD [] ≠ []

namespace Numeral

def signText (n : Numeral) : List Char := if n.negative then ['-'] else []

def fracText (n : Numeral) : List Char := n.frac.elim [] ('.' :: ·)

def exponentText (n : Numeral) : List Char := n.exponent.elim [] Exponent.text

def text (n : Numeral) : List Char := n.signText ++ (n.int ++ (n.fracText ++ n.exponentText))

def value (n : Numeral) : Binary64 :=
  ofDecimal n.negative (digitsValue (n.int ++ n.frac.getD []))
    (n.exponent.elim 0 Exponent.value - (n.frac.getD []).length)

end Numeral

/-! ## Runs of digits -/

/-- The text does not go on with a digit. -/
def NoDigit (cs : List Char) : Prop := ∀ c ∈ cs.head?, c.isDigit = false

theorem takeWhile_digits {ds rest : List Char} (hds : ∀ c ∈ ds, c.isDigit)
    (hrest : NoDigit rest) : (ds ++ rest).takeWhile Char.isDigit = ds := by
  rw [List.takeWhile_append_of_pos hds]
  cases rest with
  | nil => simp
  | cons c cs =>
      have hc : c.isDigit = false := hrest c rfl
      simp [hc]

theorem dropWhile_digits {ds rest : List Char} (hds : ∀ c ∈ ds, c.isDigit)
    (hrest : NoDigit rest) : (ds ++ rest).dropWhile Char.isDigit = rest := by
  rw [List.dropWhile_append_of_pos hds]
  cases rest with
  | nil => rfl
  | cons c cs =>
      have hc : c.isDigit = false := hrest c rfl
      simp [hc]

/-! ## Reading the text of a numeral -/

theorem splitSign_plain {c : Char} (hminus : c ≠ '-') (hplus : c ≠ '+') (cs : List Char) :
    splitSign (c :: cs) = (false, c :: cs) := by
  unfold splitSign
  split
  next heq => exact absurd (List.cons.inj heq).1 hminus
  next heq => exact absurd (List.cons.inj heq).1 hplus
  · rfl

theorem parseExponent_text (e : Exponent) : parseExponent e.text = some e.value := by
  have hall : e.digits.all Char.isDigit := by simpa using e.digits_isDigit
  have hletter := e.letter_mem
  obtain ⟨d, ds, hdigits⟩ := List.exists_cons_of_ne_nil e.digits_ne
  have hd : d.isDigit := e.digits_isDigit d (by simp [hdigits])
  have hminus : d ≠ '-' := by rintro rfl; exact absurd hd (by decide)
  have hplus : d ≠ '+' := by rintro rfl; exact absurd hd (by decide)
  have hplain := splitSign_plain hminus hplus ds
  rcases e.sign_mem with hsign | hsign | hsign
  · have hsplit : splitSign e.digits = (false, e.digits) := by rw [hdigits, hplain]
    simp [Exponent.text, Exponent.value, parseExponent, hsign, hsplit, hletter, e.digits_ne,
      hall]
  · simp [Exponent.text, Exponent.value, parseExponent, hsign, splitSign, hletter,
      e.digits_ne, hall]
  · simp [Exponent.text, Exponent.value, parseExponent, hsign, splitSign, hletter,
      e.digits_ne, hall]

section Pieces

variable {frac : Option (List Char)} {exp : List Char} (hexp : NoDigit exp)

include hexp

theorem noDigit_fraction : NoDigit (frac.elim [] ('.' :: ·) ++ exp) := by
  cases frac with
  | none => simpa using hexp
  | some ds =>
      intro c hc
      obtain rfl : '.' = c := by simpa using hc
      decide

theorem splitFraction_append (hfrac : ∀ c ∈ frac.getD [], c.isDigit)
    (hpoint : exp.head? ≠ some '.') :
    splitFraction (frac.elim [] ('.' :: ·) ++ exp) = (frac.getD [], exp) := by
  cases frac with
  | none =>
      simp only [Option.elim, List.nil_append, Option.getD_none]
      unfold splitFraction
      split
      next => exact absurd rfl hpoint
      · rfl
  | some ds =>
      have hds : ∀ c ∈ ds, c.isDigit := by simpa using hfrac
      simp only [Option.elim, List.cons_append, splitFraction, takeWhile_digits hds hexp,
        dropWhile_digits hds hexp, Option.getD_some]

end Pieces

namespace Numeral

variable (n : Numeral)

theorem exponentText_head : ∀ c ∈ n.exponentText.head?, c = 'e' ∨ c = 'E' := by
  intro c hc
  cases hexp : n.exponent with
  | none => simp [exponentText, hexp] at hc
  | some e =>
      obtain rfl : e.letter = c := by simpa [exponentText, hexp, Exponent.text] using hc
      exact e.letter_mem

theorem noDigit_exponentText : NoDigit n.exponentText := by
  intro c hc
  rcases n.exponentText_head c hc with rfl | rfl <;> decide

theorem noDigit_tail : NoDigit (n.fracText ++ n.exponentText) :=
  noDigit_fraction n.noDigit_exponentText

theorem splitFraction_text :
    splitFraction (n.fracText ++ n.exponentText) = (n.frac.getD [], n.exponentText) := by
  refine splitFraction_append n.noDigit_exponentText n.frac_isDigit fun hhead => ?_
  rcases n.exponentText_head '.' hhead with h | h <;> cases h

theorem parseExponent_exponentText :
    parseExponent n.exponentText = some (n.exponent.elim 0 Exponent.value) := by
  cases hexp : n.exponent with
  | none => simp [exponentText, hexp, parseExponent]
  | some e => simpa [exponentText, hexp] using parseExponent_text e

theorem splitSign_text :
    splitSign n.text = (n.negative, n.int ++ (n.fracText ++ n.exponentText)) := by
  cases hneg : n.negative with
  | true => simp [text, signText, hneg, splitSign]
  | false =>
      have hhead : ∀ c cs, n.int ++ (n.fracText ++ n.exponentText) = c :: cs →
          c.isDigit ∨ c = '.' := by
        intro c cs heq
        cases hint : n.int with
        | cons d ds =>
            obtain rfl : d = c := by
              rw [hint, List.cons_append, List.cons.injEq] at heq
              exact heq.1
            exact Or.inl (n.int_isDigit d (by simp [hint]))
        | nil =>
            cases hfrac : n.frac with
            | none => simpa [hint, hfrac] using n.some_digit
            | some ds =>
                refine Or.inr ?_
                simp only [hint, fracText, hfrac, Option.elim, List.nil_append,
                  List.cons_append, List.cons.injEq] at heq
                exact heq.1.symm
      simp only [text, signText, hneg, Bool.false_eq_true, if_false, List.nil_append]
      unfold splitSign
      split
      next heq => exact absurd (hhead _ _ heq) (by decide)
      next heq => exact absurd (hhead _ _ heq) (by decide)
      · rfl

/-- Reading the text of a numeral gives its value. -/
theorem parse_text : parse n.text = some n.value := by
  have hnumber : parseNumber n.negative (n.int ++ (n.fracText ++ n.exponentText)) =
      some n.value := by
    have hsome : ¬ (n.int = [] ∧ n.frac.getD [] = []) := by
      rintro ⟨hint, hfrac⟩
      rcases n.some_digit with h | h
      · exact h hint
      · exact h hfrac
    simp only [parseNumber, takeWhile_digits n.int_isDigit n.noDigit_tail,
      dropWhile_digits n.int_isDigit n.noDigit_tail, splitFraction_text,
      parseExponent_exponentText, hsome, if_false, Option.map_some, value]
  rw [parse, splitSign_text]
  simp only [hnumber, Option.some_or]

/-- The text of a numeral has digits and the signs of numbers only. -/
theorem mem_text {c : Char} (hc : c ∈ n.text) : c.isDigit ∨ c ∈ ['.', 'e', 'E', '+', '-'] := by
  simp only [text, List.mem_append] at hc
  rcases hc with hsign | hint | hfrac | hexp
  · unfold signText at hsign
    split at hsign
    · obtain rfl : c = '-' := by simpa using hsign
      simp
    · cases hsign
  · exact Or.inl (n.int_isDigit c hint)
  · have hdigit := n.frac_isDigit c
    cases hf : n.frac with
    | none => simp [fracText, hf] at hfrac
    | some ds =>
        rw [hf] at hdigit
        rcases (by simpa [fracText, hf] using hfrac : c = '.' ∨ c ∈ ds) with rfl | hds
        · simp
        · exact Or.inl (hdigit hds)
  · cases he : n.exponent with
    | none => simp [exponentText, he] at hexp
    | some e =>
        have hmem : c = e.letter ∨ c ∈ e.sign ∨ c ∈ e.digits := by
          simpa [exponentText, he, Exponent.text] using hexp
        rcases hmem with rfl | hs | hd
        · rcases e.letter_mem with h | h <;> simp [h]
        · rcases e.sign_mem with h | h | h <;> rw [h] at hs <;> simp_all
        · exact Or.inl (e.digits_isDigit c hd)

end Numeral

/-! ## Printed numbers -/

/-- The text is that of a numeral with the given value and a digit before the point. -/
def Denotes (cs : List Char) (x : Binary64) : Prop :=
  ∃ n : Numeral, n.int ≠ [] ∧ n.text = cs ∧ n.value = x

/-- A printed number has no line feed in it. -/
theorem Denotes.newline_not_mem {cs : List Char} {x : Binary64} (hcs : Denotes cs x) :
    '\n' ∉ cs := by
  obtain ⟨n, _, rfl, _⟩ := hcs
  intro h
  rcases n.mem_text h with h | h
  · cases h
  · simp at h

theorem digitsValue_append (cs ds : List Char) :
    digitsValue (cs ++ ds) = digitsValue cs * 10 ^ ds.length + digitsValue ds := by
  rw [digitsValue, Nat.ofDigitChars_append, Nat.ofDigitChars_eq_ofDigitChars_zero, Nat.mul_comm]

theorem digitsValue_zeros (z : Nat) : digitsValue (zeros z) = 0 := by
  rw [digitsValue, zeros, Nat.ofDigitChars_replicate_zero, Nat.mul_zero]

/-- Zeros around a run of digits shift it. -/
theorem digitsValue_padded (y : Nat) (ds : List Char) (z : Nat) :
    digitsValue (zeros y ++ ds ++ zeros z) = digitsValue ds * 10 ^ z := by
  simp only [digitsValue_append, digitsValue_zeros, Nat.zero_mul, Nat.zero_add, Nat.add_zero]
  simp [zeros]

theorem digitsValue_toDigits (n : Nat) : digitsValue (Nat.toDigits 10 n) = n :=
  Nat.ofDigitChars_ten_toDigits

theorem toDigits_isDigit (n : Nat) : ∀ c ∈ Nat.toDigits 10 n, c.isDigit :=
  fun c hc => Nat.isDigit_of_mem_toDigits (b := 10) (n := n) (by decide) (by decide) hc

theorem zeros_isDigit (z : Nat) : ∀ c ∈ zeros z, c.isDigit := by
  intro c hc
  rw [List.eq_of_mem_replicate hc]
  decide

@[simp] theorem length_zeros (z : Nat) : (zeros z).length = z := List.length_replicate

theorem append_isDigit {as bs : List Char} (has : ∀ c ∈ as, c.isDigit) (hbs : ∀ c ∈ bs, c.isDigit) :
    ∀ c ∈ as ++ bs, c.isDigit := by
  intro c hc
  rcases List.mem_append.mp hc with h | h
  · exact has c h
  · exact hbs c h

section Layout

variable {ds : List Char} (hds : ∀ c ∈ ds, c.isDigit) (hne : ds ≠ []) (neg : Bool)

include hds

/-- Zeros between the point and the digits. -/
theorem denotes_layout_before {exp : Int} (hexp : exp ≤ 0) (frac : Nat) :
    Denotes ((if neg then ['-'] else []) ++ layoutDecimal ds exp frac)
      (ofDecimal neg (digitsValue ds) (exp - ds.length)) := by
  unfold layoutDecimal
  rw [if_pos hexp]
  let z := frac - ((-exp).toNat + ds.length)
  have hfrac := append_isDigit (append_isDigit (zeros_isDigit (-exp).toNat) hds) (zeros_isDigit z)
  refine ⟨⟨neg, ['0'], some (zeros (-exp).toNat ++ ds ++ zeros z), none, by simp, hfrac,
    Or.inl (by simp)⟩, by simp, ?_, ?_⟩
  · simp [Numeral.text, Numeral.signText, Numeral.fracText, Numeral.exponentText, z]
  · have hval : digitsValue (['0'] ++ (zeros (-exp).toNat ++ ds ++ zeros z)) =
        digitsValue ds * 10 ^ z := by
      have hzero : ['0'] ++ (zeros (-exp).toNat ++ ds ++ zeros z) =
          zeros ((-exp).toNat + 1) ++ ds ++ zeros z := by
        simp [zeros, List.replicate_succ]
      rw [hzero, digitsValue_padded]
    simp only [Numeral.value, Option.getD_some, hval, Option.elim]
    rw [← ofDecimal_shift neg (digitsValue ds) z]
    congr 1
    simp only [List.length_append, length_zeros]
    omega

include hne

/-- The point among the digits. -/
theorem denotes_layout_among {exp : Int} (hexp : ¬exp ≤ 0) (hlen : exp < ds.length) (frac : Nat) :
    Denotes ((if neg then ['-'] else []) ++ layoutDecimal ds exp frac)
      (ofDecimal neg (digitsValue ds) (exp - ds.length)) := by
  unfold layoutDecimal
  rw [if_neg hexp, if_pos hlen]
  let z := frac - (ds.length - exp.toNat)
  have htake : ds.take exp.toNat ≠ [] := by
    rw [ne_eq, List.take_eq_nil_iff]
    rintro (h | h)
    · omega
    · exact hne h
  refine ⟨⟨neg, ds.take exp.toNat, some (ds.drop exp.toNat ++ zeros z), none,
    fun c hc => hds c (List.mem_of_mem_take hc),
    append_isDigit (fun c hc => hds c (List.mem_of_mem_drop hc)) (zeros_isDigit z),
    Or.inl htake⟩, htake, ?_, ?_⟩
  · simp [Numeral.text, Numeral.signText, Numeral.fracText, Numeral.exponentText, z]
  · have hval : digitsValue (ds.take exp.toNat ++ (ds.drop exp.toNat ++ zeros z)) =
        digitsValue ds * 10 ^ z := by
      rw [← List.append_assoc, List.take_append_drop]
      exact digitsValue_padded 0 ds z
    simp only [Numeral.value, Option.getD_some, hval, Option.elim]
    rw [← ofDecimal_shift neg (digitsValue ds) z]
    congr 1
    simp only [List.length_append, length_zeros, List.length_drop]
    omega

/-- Zeros between the digits and the point. -/
theorem denotes_layout_behind {exp : Int} (hexp : ¬exp ≤ 0) (hlen : ¬exp < ds.length) (frac : Nat) :
    Denotes ((if neg then ['-'] else []) ++ layoutDecimal ds exp frac)
      (ofDecimal neg (digitsValue ds) (exp - ds.length)) := by
  unfold layoutDecimal
  rw [if_neg hexp, if_neg hlen]
  let y := exp.toNat - ds.length
  have hint := append_isDigit hds (zeros_isDigit y)
  have hvalue : ∀ z : Nat, ofDecimal neg (digitsValue (ds ++ zeros y ++ zeros z)) (-z) =
      ofDecimal neg (digitsValue ds) (exp - ds.length) := by
    intro z
    have hval : digitsValue (ds ++ zeros y ++ zeros z) = digitsValue ds * 10 ^ (y + z) := by
      have hzeros : zeros y ++ zeros z = zeros (y + z) := by simp [zeros]
      rw [List.append_assoc, hzeros]
      exact digitsValue_padded 0 ds (y + z)
    rw [hval, ← ofDecimal_shift neg (digitsValue ds) (y + z)]
    congr 1
    omega
  by_cases hfrac : 0 < frac
  · refine ⟨⟨neg, ds ++ zeros y, some (zeros frac), none, hint, zeros_isDigit frac,
      Or.inl (by simp [hne])⟩, by simp [hne], ?_, ?_⟩
    · simp [Numeral.text, Numeral.signText, Numeral.fracText, Numeral.exponentText, y, hfrac]
    · simpa [Numeral.value] using hvalue frac
  · refine ⟨⟨neg, ds ++ zeros y, none, none, hint, by simp, Or.inl (by simp [hne])⟩,
      by simp [hne], ?_, ?_⟩
    · simp [Numeral.text, Numeral.signText, Numeral.fracText, Numeral.exponentText, y, hfrac]
    · simpa [Numeral.value, zeros] using hvalue 0

/-- A positional layout has the value of its digits at their exponent. -/
theorem denotes_layoutDecimal (exp : Int) (frac : Nat) :
    Denotes ((if neg then ['-'] else []) ++ layoutDecimal ds exp frac)
      (ofDecimal neg (digitsValue ds) (exp - ds.length)) := by
  by_cases hexp : exp ≤ 0
  · exact denotes_layout_before hds neg hexp frac
  by_cases hlen : exp < ds.length
  · exact denotes_layout_among hds hne neg hexp hlen frac
  · exact denotes_layout_behind hds hne neg hexp hlen frac

theorem denotes_layoutExponent (exp : Int) :
    Denotes ((if neg then ['-'] else []) ++ layoutExponent ds exp)
      (ofDecimal neg (digitsValue ds) (exp - ds.length)) := by
  obtain ⟨d, rest, rfl⟩ := List.exists_cons_of_ne_nil hne
  let e : Exponent := ⟨'e', if exp - 1 < 0 then ['-'] else [], Nat.toDigits 10 (exp - 1).natAbs,
    Or.inl rfl, by split <;> simp, Nat.toDigits_ne_nil, toDigits_isDigit _⟩
  have hexp : e.value = exp - 1 := by
    by_cases hneg : exp - 1 < 0
    · have hsign : e.sign = ['-'] := if_pos hneg
      rw [Exponent.value, if_pos hsign, digitsValue_toDigits]
      omega
    · have hsign : e.sign ≠ ['-'] := by
        rw [show e.sign = [] from if_neg hneg]
        decide
      rw [Exponent.value, if_neg hsign, digitsValue_toDigits]
      omega
  have hd : ∀ c ∈ [d], c.isDigit := by simpa using hds d List.mem_cons_self
  cases rest with
  | nil =>
      refine ⟨⟨neg, [d], none, some e, hd, by simp, Or.inl (by simp)⟩, by simp, ?_, ?_⟩
      · simp [Numeral.text, Numeral.signText, Numeral.fracText, Numeral.exponentText,
          Exponent.text, layoutExponent, e]
      · simp [Numeral.value, hexp]
  | cons c cs =>
      refine ⟨⟨neg, [d], some (c :: cs), some e, hd,
        fun x hx => hds x (List.mem_cons_of_mem d hx), Or.inl (by simp)⟩, by simp, ?_, ?_⟩
      · simp [Numeral.text, Numeral.signText, Numeral.fracText, Numeral.exponentText,
          Exponent.text, layoutExponent, e]
      · simp only [Numeral.value, Option.getD_some, Option.elim, hexp, List.singleton_append]
        congr 1
        simp only [List.length_cons]
        omega

end Layout

theorem nameText_eq_none {x : Binary64} (hx : x.isFinite) : x.nameText = none := by
  simp only [isFinite, decide_eq_true_eq] at hx
  have hnan : x.isNaN = false := by
    simp only [isNaN, decide_eq_false_iff_not]
    omega
  have hinf : x.isInfinite = false := by
    simp only [isInfinite, decide_eq_false_iff_not]
    omega
  simp [nameText, hnan, hinf]

theorem ofDecimal_zero (neg : Bool) (e : Int) : ofDecimal neg 0 e = zero neg := by
  have hround : ∀ d, roundMagnitude 0 d = 0 := by
    intro d
    simp [roundMagnitude, roundHalfEven]
  rw [ofDecimal_eq, Nat.zero_mul, Nat.zero_mul, ofUnits, hround]
  rfl

/-- The shortest digits of a finite number, at their exponent, are that number. -/
theorem ofDecimal_shortest_digits {x : Binary64} (hx : x.isFinite) :
    let ds := Nat.toDigits 10 (shortest x.magnitude).1
    ofDecimal x.negative (digitsValue ds) ((ds.length + (shortest x.magnitude).2) - ds.length) =
      x := by
  have hmag : x.magnitude ≤ infMagnitude := (of_decide_eq_true hx).le
  have hpos := ofDecimal_shortest hmag
  dsimp only
  rw [digitsValue_toDigits, show ∀ a b : Int, a + b - a = b by intros; omega]
  rw [ofDecimal_eq] at hpos ⊢
  apply ext_fields
  · exact negative_ofUnits _ _ _
  · have hbound := magnitude_lt x
    have heq := congrArg magnitude hpos
    rw [magnitude_ofUnits, magnitude_ofMagnitude _ hbound] at heq
    rw [magnitude_ofUnits, heq]

/-- A finite number printed in positional layout reads back. -/
theorem denotes_displayMin (frac : Nat) {x : Binary64} (hx : x.isFinite) :
    Denotes (displayMin frac x) x := by
  rw [displayMin, nameText_eq_none hx, Option.getD_none]
  split
  next hzero =>
    have hvalue : ofDecimal x.negative 0 0 = x := by
      rw [ofDecimal_zero, zero]
      conv_rhs => rw [← ofMagnitude_eta x, hzero]
    have hlayout := denotes_layoutDecimal (show ∀ c ∈ ['0'], c.isDigit by simp) (by simp)
      x.negative 1 frac
    have htext : layoutDecimal ['0'] 1 frac =
        '0' :: (if 0 < frac then '.' :: zeros frac else []) := by
      simp [layoutDecimal, zeros]
    have hdigit : ofDecimal x.negative (digitsValue ['0']) (1 - ['0'].length) = x := hvalue
    rw [htext, hdigit] at hlayout
    exact hlayout
  next hzero =>
    have hvalue := ofDecimal_shortest_digits hx
    dsimp only at hvalue ⊢
    conv_rhs => rw [← hvalue]
    exact denotes_layoutDecimal (toDigits_isDigit _) Nat.toDigits_ne_nil x.negative _ frac

theorem denotes_display {x : Binary64} (hx : x.isFinite) : Denotes (display x) x :=
  denotes_displayMin 0 hx

theorem denotes_debug {x : Binary64} (hx : x.isFinite) : Denotes (debug x) x := by
  unfold debug
  dsimp only
  split
  · have hvalue := ofDecimal_shortest_digits hx
    dsimp only at hvalue ⊢
    conv_rhs => rw [← hvalue]
    exact denotes_layoutExponent (toDigits_isDigit _) Nat.toDigits_ne_nil x.negative _
  · exact denotes_displayMin 1 hx

/-- The decimal digits of a natural number read as that number, rounded once. -/
theorem denotes_toDigits (n : Nat) : Denotes (Nat.toDigits 10 n) (ofNat n) := by
  refine ⟨⟨false, Nat.toDigits 10 n, none, none, toDigits_isDigit n, by simp,
    Or.inl Nat.toDigits_ne_nil⟩, Nat.toDigits_ne_nil, ?_, ?_⟩
  · simp [Numeral.text, Numeral.signText, Numeral.fracText, Numeral.exponentText]
  · simp [Numeral.value, ofNat_eq_ofDecimal]

/-- The number nearest to the decimal with `p` digits after the point that a finite number
is printed as. -/
def toPlaces (p : Nat) (x : Binary64) : Binary64 :=
  ofDecimal x.negative (roundHalfEven (units x.magnitude * 10 ^ p) one) (-p)

/-- A finite number printed with `p` digits after the point reads as the decimal it was
rounded to. -/
theorem denotes_fixed (p : Nat) {x : Binary64} (hx : x.isFinite) :
    Denotes (fixed p x) (x.toPlaces p) := by
  rw [toPlaces, fixed, nameText_eq_none hx, Option.getD_none]
  generalize roundHalfEven (units x.magnitude * 10 ^ p) one = n
  dsimp only
  by_cases hp : p = 0
  · subst hp
    refine ⟨⟨x.negative, Nat.toDigits 10 n, none, none, toDigits_isDigit n, by simp,
      Or.inl Nat.toDigits_ne_nil⟩, Nat.toDigits_ne_nil, ?_, ?_⟩
    · simp [Numeral.text, Numeral.signText, Numeral.fracText, Numeral.exponentText, signText]
    · simp [Numeral.value]
  · let ds := Nat.toDigits 10 (n % 10 ^ p)
    have hlen : ds.length ≤ p := (Nat.length_toDigits_le_iff (by decide) (by omega)).mpr
      (Nat.mod_lt _ (by positivity))
    have hfrac : ∀ c ∈ zeros (p - ds.length) ++ ds, c.isDigit := by
      intro c hc
      rcases List.mem_append.mp hc with h | h
      · exact zeros_isDigit _ c h
      · exact toDigits_isDigit _ c h
    have hplaces : (zeros (p - ds.length) ++ ds).length = p := by
      rw [List.length_append, length_zeros]
      omega
    refine ⟨⟨x.negative, Nat.toDigits 10 (n / 10 ^ p), some (zeros (p - ds.length) ++ ds), none,
      toDigits_isDigit _, hfrac, Or.inl Nat.toDigits_ne_nil⟩, Nat.toDigits_ne_nil, ?_, ?_⟩
    · simp [Numeral.text, Numeral.signText, Numeral.fracText, Numeral.exponentText, signText, hp,
        ds]
    · have hval : digitsValue (Nat.toDigits 10 (n / 10 ^ p) ++ (zeros (p - ds.length) ++ ds)) =
          n := by
        rw [digitsValue_append, digitsValue_append, digitsValue_zeros, digitsValue_toDigits,
          digitsValue_toDigits, hplaces, Nat.zero_mul, Nat.zero_add, Nat.div_add_mod']
      simp only [Numeral.value, Option.getD_some, hval, Option.elim, hplaces, zero_sub]

/-- A number without digits is printed by its name. -/
theorem fixed_of_not_finite (p : Nat) {x : Binary64} (hx : x.isFinite = false) :
    fixed p x = "NaN".toList ∨ fixed p x = x.signText ++ "inf".toList := by
  unfold fixed nameText
  by_cases hnan : x.isNaN = true
  · simp [hnan]
  · have hinf : x.isInfinite = true := by
      simp only [isFinite, isNaN, isInfinite, decide_eq_true_eq, decide_eq_false_iff_not] at *
      omega
    simp [hnan, hinf]

theorem display_of_not_finite {x : Binary64} (hx : x.isFinite = false) :
    display x = fixed 0 x := by
  unfold display displayMin fixed nameText
  by_cases hnan : x.isNaN = true
  · simp [hnan]
  · have hinf : x.isInfinite = true := by
      simp only [isFinite, isNaN, isInfinite, decide_eq_true_eq, decide_eq_false_iff_not] at *
      omega
    simp [hnan, hinf]

theorem newline_not_mem_fixed (p : Nat) (x : Binary64) : '\n' ∉ fixed p x := by
  cases hx : x.isFinite with
  | true => exact (denotes_fixed p hx).newline_not_mem
  | false =>
      rcases fixed_of_not_finite p hx with h | h
      · rw [h]
        decide
      · rw [h, signText]
        split <;> decide

end Binary64
