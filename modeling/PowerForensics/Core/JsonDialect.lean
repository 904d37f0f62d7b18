import PowerForensics.Core.JsonAcceptance

/-! # Where the accepted dialect leaves JSON

A scan over a text finds its loose tokens: numbers without a digit on one side of
their point or with superfluous leading zeros, and `\u` escapes with a plus sign. A
text of the relaxed dialect is JSON exactly if the scan finds none, so these tokens
are all that the parser accepts beyond JSON.
-/

namespace PowerForensics.Json

open Binary64 (Numeral NoDigit)
open JsonGrammar

/-! ## The scan -/

def isNumberChar (c : Char) : Bool := c.isDigit ∨ c ∈ ['.', 'e', 'E', '+', '-']

/-- The digits before the point of a number token. -/
def intDigits (token : List Char) : List Char :=
  (skipChar (· = '-') token).takeWhile Char.isDigit

/-- What follows them. -/
def afterInt (token : List Char) : List Char :=
  (skipChar (· = '-') token).dropWhile Char.isDigit

/-- No digit before the point, a superfluous leading zero, or a point without a digit
after it. -/
def looseNumber (token : List Char) : Bool :=
  intDigits token = [] ∨ ((intDigits token).head? = some '0' ∧ intDigits token ≠ ['0']) ∨
    ((afterInt token).head? = some '.' ∧ ¬ (afterInt token).tail.head?.any Char.isDigit)

/-- Where the scan stands. -/
inductive Mode where
  | outside
  | number
  | string
  | escaped
  | unicode

/-- Some token from here on is loose. -/
def loose : Mode → List Char → Bool
  | _, [] => false
  | .outside, c :: cs =>
      if c = '"' then loose .string cs
      else if c = '-' ∨ c.isDigit then
        looseNumber ((c :: cs).takeWhile isNumberChar) || loose .number cs
      else loose .outside cs
  | .number, c :: cs =>
      if isNumberChar c then loose .number cs
      else if c = '"' then loose .string cs
      else loose .outside cs
  | .string, c :: cs =>
      if c = '"' then loose .outside cs
      else if c = '\\' then loose .escaped cs
      else loose .string cs
  | .escaped, c :: cs => if c = 'u' then loose .unicode cs else loose .string cs
  | .unicode, c :: cs => c = '+' || loose .string cs

example : loose .outside "[-0.5, \"\\u0041 01\", 10]".toList = false := by decide
example : loose .outside "[1.]".toList = true := by decide

/-- Texts of `P` without loose tokens are the texts of `Q`. -/
structure Tightens (P Q : List Char → Prop) : Prop where
  tight : ∀ {text rest}, P text → EndsNumber rest → loose .outside (text ++ rest) = false →
    Q text ∧ loose .outside rest = false
  clean : ∀ {text rest}, Q text → EndsNumber rest → loose .outside rest = false →
    loose .outside (text ++ rest) = false

/-! ## Characters outside tokens -/

theorem loose_plain {c : Char} (hquote : c ≠ '"') (hminus : c ≠ '-') (hdigit : c.isDigit = false)
    (cs : List Char) : loose .outside (c :: cs) = loose .outside cs := by
  simp [loose, hquote, hminus, hdigit]

theorem loose_blanks {gap : List Char} (hgap : Blank gap) (cs : List Char) :
    loose .outside (gap ++ cs) = loose .outside cs := by
  induction gap with
  | nil => rfl
  | cons c gap ih =>
      have hc := hgap c List.mem_cons_self
      have htail := ih fun d hd => hgap d (List.mem_cons_of_mem c hd)
      simp only [blanks, List.mem_cons, List.not_mem_nil, or_false] at hc
      rw [List.cons_append, ← htail]
      rcases hc with rfl | rfl | rfl | rfl <;>
        exact loose_plain (by decide) (by decide) (by decide) _

/-! ## Numbers -/

theorem isNumberChar_of_ends {rest : List Char} (hrest : EndsNumber rest) :
    ∀ c ∈ rest.head?, isNumberChar c = false := by
  intro c hc
  obtain ⟨hdigit, hchar⟩ := hrest c hc
  simp only [isNumberChar, hdigit, hchar, Bool.false_eq_true, or_self, decide_false]

theorem loose_number_ends {rest : List Char} (hrest : EndsNumber rest) :
    loose .number rest = loose .outside rest := by
  cases rest with
  | nil => rfl
  | cons c cs =>
      have hc := isNumberChar_of_ends hrest c rfl
      have hstart : ¬ (c = '-' ∨ c.isDigit) := by
        rintro (rfl | hdigit)
        · exact absurd hc (by decide)
        · simp [isNumberChar, hdigit] at hc
      simp only [loose, hc, hstart, Bool.false_eq_true, if_false]

theorem numeral_isNumberChar (n : Numeral) : ∀ c ∈ n.text, isNumberChar c = true :=
  fun _ hc => decide_eq_true (n.mem_text hc)

theorem loose_number_skip {token rest : List Char} (htoken : ∀ c ∈ token, isNumberChar c = true) :
    loose .number (token ++ rest) = loose .number rest := by
  induction token with
  | nil => rfl
  | cons c token ih =>
      have hc := htoken c List.mem_cons_self
      rw [List.cons_append, loose, if_pos hc, ih fun d hd => htoken d (List.mem_cons_of_mem c hd)]

/-- The scan checks a number token and goes on after it. -/
theorem loose_numeral {token rest : List Char} (htoken : RelaxedNumber token)
    (hrest : EndsNumber rest) :
    loose .outside (token ++ rest) = (looseNumber token || loose .outside rest) := by
  obtain ⟨n, rfl, hstart⟩ := htoken
  have hall := numeral_isNumberChar n
  obtain ⟨c, ds, hcons, hc⟩ : ∃ c ds, n.text = c :: ds ∧ (c = '-' ∨ c.isDigit) := by
    cases hneg : n.negative with
    | true =>
        exact ⟨'-', n.int ++ (n.fracText ++ n.exponentText), by
          simp [Numeral.text, Numeral.signText, hneg], Or.inl rfl⟩
    | false =>
        have hint : n.int ≠ [] := by simpa [hneg] using hstart
        obtain ⟨d, ds, hds⟩ := List.exists_cons_of_ne_nil hint
        exact ⟨d, ds ++ (n.fracText ++ n.exponentText), by
          simp [Numeral.text, Numeral.signText, hneg, hds],
          Or.inr (n.int_isDigit d (by simp [hds]))⟩
  have hquote : c ≠ '"' := by
    rintro rfl
    rcases hc with h | h
    · cases h
    · exact absurd h (by decide)
  have htake : (n.text ++ rest).takeWhile isNumberChar = n.text := by
    rw [List.takeWhile_append_of_pos hall]
    cases rest with
    | nil => simp
    | cons d cs =>
        have hd := isNumberChar_of_ends hrest d rfl
        simp [hd]
  have hskip : loose .number (ds ++ rest) = loose .outside rest := by
    rw [loose_number_skip fun d hd => hall d (hcons ▸ List.mem_cons_of_mem c hd),
      loose_number_ends hrest]
  rw [hcons, List.cons_append] at htake ⊢
  simp only [loose, hquote, hc, if_false, if_true, htake, hskip]

/-- The digits of a numeral show that its number token is not loose. -/
theorem looseNumber_numeral (n : Numeral) :
    looseNumber n.text = false ↔
      n.int ≠ [] ∧ (n.int.head? = some '0' → n.int = ['0']) ∧ n.frac ≠ some [] := by
  have hskip : skipChar (· = '-') n.text = n.int ++ (n.fracText ++ n.exponentText) := by
    obtain ⟨negative, hsplit⟩ := skipSign_split n.text
    have hsign := n.splitSign_text
    cases hneg : n.negative with
    | true => simp [Numeral.text, Numeral.signText, hneg, skipChar]
    | false =>
        rw [hneg] at hsign
        cases negative with
        | false =>
            have htext : n.text = n.int ++ (n.fracText ++ n.exponentText) := by
              simp [Numeral.text, Numeral.signText, hneg]
            rw [← htext]
            simpa using hsplit.symm
        | true =>
            rw [hsplit] at hsign
            simp [Binary64.splitSign] at hsign
  -- behind the sign the scan takes the digits of the integer, and the point is next
  have hint : intDigits n.text = n.int := by
    rw [intDigits, hskip, Binary64.takeWhile_digits n.int_isDigit n.noDigit_tail]
  have hafter : afterInt n.text = n.fracText ++ n.exponentText := by
    rw [afterInt, hskip, Binary64.dropWhile_digits n.int_isDigit n.noDigit_tail]
  have hpoint : ((afterInt n.text).head? = some '.' ∧
      ¬ (afterInt n.text).tail.head?.any Char.isDigit) ↔ n.frac = some [] := by
    rw [hafter]
    cases hfrac : n.frac with
    | none =>
        have htext : n.fracText = [] := by simp [Numeral.fracText, hfrac]
        rw [htext, List.nil_append]
        constructor
        · rintro ⟨hhead, -⟩
          rcases n.exponentText_head '.' hhead with h | h <;> cases h
        · intro h
          cases h
    | some ds =>
        have htext : n.fracText = '.' :: ds := by simp [Numeral.fracText, hfrac]
        rw [htext]
        cases ds with
        | nil =>
            have hnodigit := n.noDigit_exponentText
            cases hexp : n.exponentText with
            | nil => simp
            | cons c cs =>
                rw [hexp] at hnodigit
                simp [hnodigit c rfl]
        | cons d ds =>
            have hd : d.isDigit := n.frac_isDigit d (by simp [hfrac])
            simp [hd]
  rw [looseNumber, hint, decide_eq_false_iff_not, hpoint]
  tauto

theorem number_iff (token : List Char) :
    JsonGrammar.Number token ↔ RelaxedNumber token ∧ looseNumber token = false := by
  constructor
  · rintro ⟨minus, int, frac, exp, rfl, hminus, hint, hfrac, hexp⟩
    have hintdigit : ∀ c ∈ int, c.isDigit := by
      rcases hint with rfl | ⟨c, ds, rfl, -, hc, hds⟩
      · simp
      · exact List.forall_mem_cons.mpr ⟨hc, hds⟩
    have hintne : int ≠ [] := by
      rcases hint with rfl | ⟨c, ds, rfl, -⟩ <;> simp
    have hzero : int.head? = some '0' → int = ['0'] := by
      rcases hint with rfl | ⟨c, ds, rfl, hne, -⟩
      · exact fun _ => rfl
      · intro hhead
        exact absurd (by simpa using hhead) hne
    obtain ⟨negative, hneg⟩ : ∃ negative : Bool, minus = if negative then ['-'] else [] := by
      rcases hminus with rfl | rfl
      · exact ⟨false, rfl⟩
      · exact ⟨true, rfl⟩
    obtain ⟨ofrac, hofrac, hfracdigit, hfracne⟩ : ∃ ofrac : Option (List Char),
        frac = ofrac.elim [] ('.' :: ·) ∧ (∀ c ∈ ofrac.getD [], c.isDigit) ∧ ofrac ≠ some [] := by
      rcases hfrac with rfl | ⟨ds, rfl, hne, hds⟩
      · exact ⟨none, rfl, by simp, by simp⟩
      · exact ⟨some ds, rfl, by simpa using hds, by simpa using hne⟩
    obtain ⟨oexp, hoexp⟩ : ∃ oexp : Option Binary64.Exponent,
        exp = oexp.elim [] Binary64.Exponent.text := by
      rcases hexp with rfl | ⟨letter, sign, ds, rfl, hletter, hsign, hne, hds⟩
      · exact ⟨none, rfl⟩
      · exact ⟨some ⟨letter, sign, ds, hletter, hsign, hne, hds⟩, rfl⟩
    -- the parts of a JSON number are those of a numeral
    let n : Numeral := ⟨negative, int, ofrac, oexp, hintdigit, hfracdigit, Or.inl hintne⟩
    have htext : n.text = minus ++ (int ++ (frac ++ exp)) := by
      rw [hneg, hofrac, hoexp]
      rfl
    rw [← htext]
    exact ⟨⟨n, rfl, Or.inr hintne⟩, (looseNumber_numeral n).mpr ⟨hintne, hzero, hfracne⟩⟩
  · rintro ⟨⟨n, rfl, -⟩, hloose⟩
    -- what the scan finds missing in a loose number is there
    obtain ⟨hne, hzero, hfrac⟩ := (looseNumber_numeral n).mp hloose
    refine ⟨n.signText, n.int, n.fracText, n.exponentText, rfl, ?_, ?_, ?_, ?_⟩
    · unfold Numeral.signText
      split <;> simp
    · obtain ⟨c, ds, hcons⟩ := List.exists_cons_of_ne_nil hne
      have hdigits : ∀ d ∈ c :: ds, d.isDigit := hcons ▸ n.int_isDigit
      by_cases hc : c = '0'
      · exact Or.inl (hzero (by rw [hcons, hc]; rfl))
      · exact Or.inr ⟨c, ds, hcons, hc, hdigits c List.mem_cons_self,
          fun d hd => hdigits d (List.mem_cons_of_mem c hd)⟩
    · cases hf : n.frac with
      | none => exact Or.inl (by simp [Numeral.fracText, hf])
      | some ds =>
          have hds : ∀ c ∈ ds, c.isDigit := by simpa [hf] using n.frac_isDigit
          refine Or.inr ⟨ds, by simp [Numeral.fracText, hf], ?_, hds⟩
          rintro rfl
          exact hfrac hf
    · cases he : n.exponent with
      | none => exact Or.inl (by simp [Numeral.exponentText, he])
      | some e =>
          exact Or.inr ⟨e.letter, e.sign, e.digits,
            by simp [Numeral.exponentText, he, Binary64.Exponent.text], e.letter_mem, e.sign_mem,
            e.digits_ne, e.digits_isDigit⟩

/-! ## Strings -/

theorem hexDigit_isSome (c : Char) : (hexDigit c).isSome ↔ isHexDigit c := by
  unfold hexDigit isHexDigit
  split
  next h => simp [h]
  next h =>
    split
    next h' => simp [h']
    next h' =>
      split
      next h'' => simp [h'']
      next h'' => simp [h, h', h'']

theorem mapM_hexDigit (cs : List Char) :
    (∃ ds, cs.mapM hexDigit = some ds) ↔ ∀ c ∈ cs, isHexDigit c := by
  induction cs with
  | nil => simp
  | cons c cs ih =>
      rw [List.forall_mem_cons, ← ih, ← hexDigit_isSome, Option.isSome_iff_exists]
      simp only [List.mapM_cons, Option.bind_eq_bind, Option.bind_eq_some_iff, Option.pure_def]
      constructor
      · rintro ⟨ds, d, hd, es, hes, -⟩
        exact ⟨⟨d, hd⟩, es, hes⟩
      · rintro ⟨⟨d, hd⟩, es, hes⟩
        exact ⟨d :: es, d, hd, es, hes, rfl⟩

theorem isHexDigit_ne {c : Char} (hc : isHexDigit c) : c ≠ '"' ∧ c ≠ '\\' ∧ c ≠ '+' := by
  refine ⟨?_, ?_, ?_⟩ <;> (rintro rfl; revert hc; unfold isHexDigit; decide)

theorem hexValue_isSome {ds : List Char} (hne : ds ≠ []) :
    (∃ n, hexValue ds = some n) ↔ ∀ c ∈ ds, isHexDigit c := by
  rw [← mapM_hexDigit, hexValue, if_neg hne]
  simp only [Option.map_eq_some_iff]
  exact ⟨fun ⟨_, es, hes, _⟩ => ⟨es, hes⟩, fun ⟨es, hes⟩ => ⟨_, es, hes, rfl⟩⟩

/-- A plus sign may stand for the first of the four digits. -/
theorem relaxedQuad_iff (cs : List Char) :
    RelaxedQuad cs ↔ Quad cs ∨ ∃ ds, cs = '+' :: ds ∧ ds.length = 3 ∧ ∀ c ∈ ds, isHexDigit c := by
  unfold RelaxedQuad fromStrRadix16 Quad
  constructor
  · rintro ⟨hlen, n, hn⟩
    split at hn
    next hplus =>
      obtain ⟨ds, rfl⟩ : ∃ ds, cs = '+' :: ds := by
        cases cs with
        | nil => cases hlen
        | cons c ds =>
            obtain rfl : c = '+' := by simpa using hplus
            exact ⟨ds, rfl⟩
      rw [List.tail_cons] at hn
      have hlen' : ds.length = 3 := by simpa using hlen
      have hne : ds ≠ [] := by
        rintro rfl
        cases hlen'
      exact Or.inr ⟨ds, rfl, hlen', (hexValue_isSome hne).mp ⟨n, hn⟩⟩
    next =>
      have hne : cs ≠ [] := by
        rintro rfl
        cases hlen
      exact Or.inl ⟨hlen, (hexValue_isSome hne).mp ⟨n, hn⟩⟩
  · rintro (⟨hlen, hall⟩ | ⟨ds, rfl, hlen, hall⟩)
    · have hne : cs ≠ [] := by
        rintro rfl
        cases hlen
      have hplus : cs.head? ≠ some '+' := by
        obtain ⟨c, rest, rfl⟩ := List.exists_cons_of_ne_nil hne
        simpa using (isHexDigit_ne (hall c List.mem_cons_self)).2.2
      rw [if_neg hplus]
      exact ⟨hlen, (hexValue_isSome hne).mpr hall⟩
    · have hne : ds ≠ [] := by
        rintro rfl
        cases hlen
      simp only [List.head?_cons, if_true, List.tail_cons]
      exact ⟨by simp [hlen], (hexValue_isSome hne).mpr hall⟩

theorem loose_hex {ds : List Char} (hds : ∀ c ∈ ds, isHexDigit c) (cs : List Char) :
    loose .string (ds ++ cs) = loose .string cs := by
  induction ds with
  | nil => rfl
  | cons d ds ih =>
      obtain ⟨hquote, hslash, -⟩ := isHexDigit_ne (hds d List.mem_cons_self)
      rw [List.cons_append, loose, if_neg hquote, if_neg hslash,
        ih fun c hc => hds c (List.mem_cons_of_mem d hc)]

theorem loose_quad {quad : List Char} (hquad : Quad quad) (cs : List Char) :
    loose .unicode (quad ++ cs) = loose .string cs := by
  obtain ⟨hlen, hall⟩ := hquad
  cases quad with
  | nil => cases hlen
  | cons c ds =>
      have hplus := (isHexDigit_ne (hall c List.mem_cons_self)).2.2
      rw [List.cons_append, loose, loose_hex fun d hd => hall d (List.mem_cons_of_mem c hd)]
      simp [hplus]

theorem quad_relaxed {quad : List Char} (hquad : Quad quad) : RelaxedQuad quad :=
  (relaxedQuad_iff quad).mpr (Or.inl hquad)

theorem chars_clean {body : List Char} (hbody : Chars rfc8259 body) (rest : List Char) :
    loose .string (body ++ '"' :: rest) = loose .outside rest := by
  induction hbody with
  | nil => simp [loose]
  | @plain c cs hquote hslash _ _ ih => simp only [List.cons_append, loose, hquote, hslash, if_false, ih]
  | @escape c cs hletter _ ih =>
      have hu := (escapedChar_letter c hletter).1
      simp only [List.cons_append, loose, hu, if_false, if_true, ih,
        show ('\\' = '"') = False by decide]
  | @unicode quad cs hquad _ ih =>
      simp only [List.cons_append, List.append_assoc, loose, if_true, if_false, loose_quad hquad,
        ih, show ('\\' = '"') = False by decide]

theorem chars_tight {body : List Char} (hbody : Chars relaxed body) {rest : List Char}
    (hloose : loose .string (body ++ '"' :: rest) = false) :
    Chars rfc8259 body ∧ loose .outside rest = false := by
  induction hbody with
  | nil => exact ⟨.nil, by simpa [loose] using hloose⟩
  | @plain c cs hquote hslash hlow _ ih =>
      simp only [List.cons_append, loose, hquote, hslash, if_false] at hloose
      obtain ⟨hcs, hrest⟩ := ih hloose
      exact ⟨.plain hquote hslash hlow hcs, hrest⟩
  | @escape c cs hletter _ ih =>
      have hu := (escapedChar_letter c hletter).1
      simp only [List.cons_append, loose, hu, if_false, if_true,
        show ('\\' = '"') = False by decide] at hloose
      obtain ⟨hcs, hrest⟩ := ih hloose
      exact ⟨.escape hletter hcs, hrest⟩
  | @unicode quad cs hquad _ ih =>
      simp only [List.cons_append, List.append_assoc, loose, if_true, if_false,
        show ('\\' = '"') = False by decide] at hloose
      rcases (relaxedQuad_iff quad).mp hquad with hstrict | ⟨ds, rfl, -⟩
      · rw [loose_quad hstrict] at hloose
        obtain ⟨hcs, hrest⟩ := ih hloose
        exact ⟨.unicode hstrict hcs, hrest⟩
      · simp [loose] at hloose

/-! ## Containers and values -/

theorem loose_string (cs : List Char) : loose .outside ('"' :: cs) = loose .string cs := by
  simp [loose]

theorem Tightens.padded {P Q : List Char → Prop} (hPQ : Tightens P Q) :
    Tightens (Padded P) (Padded Q) where
  tight := by
    rintro _ rest ⟨hbefore, htext, hafter⟩ hrest hloose
    rw [List.append_assoc, List.append_assoc, loose_blanks hbefore] at hloose
    obtain ⟨hq, htail⟩ := hPQ.tight htext (endsNumber_blank hafter hrest) hloose
    rw [loose_blanks hafter] at htail
    exact ⟨.intro hbefore hq hafter, htail⟩
  clean := by
    rintro _ rest ⟨hbefore, htext, hafter⟩ hrest hloose
    rw [List.append_assoc, List.append_assoc, loose_blanks hbefore]
    apply hPQ.clean htext (endsNumber_blank hafter hrest)
    rwa [loose_blanks hafter]

theorem loose_comma (cs : List Char) : loose .outside (',' :: cs) = loose .outside cs :=
  loose_plain (by decide) (by decide) (by decide) cs

theorem Tightens.separated {P Q : List Char → Prop} (hPQ : Tightens P Q) :
    Tightens (Separated P) (Separated Q) where
  tight := by
    intro text rest htext hrest hloose
    induction htext with
    | one h =>
        obtain ⟨hq, htail⟩ := hPQ.tight h hrest hloose
        exact ⟨.one hq, htail⟩
    | more h _ ih =>
        rw [List.append_assoc, List.cons_append] at hloose
        obtain ⟨hq, htail⟩ := hPQ.tight h (endsNumber_comma _) hloose
        rw [loose_comma] at htail
        obtain ⟨hqs, hend⟩ := ih htail
        exact ⟨.more hq hqs, hend⟩
  clean := by
    intro text rest htext hrest hloose
    induction htext with
    | one h => exact hPQ.clean h hrest hloose
    | more h _ ih =>
        rw [List.append_assoc, List.cons_append]
        apply hPQ.clean h (endsNumber_comma _)
        rwa [loose_comma]

theorem Tightens.member {P Q : List Char → Prop} (hPQ : Tightens P Q) :
    Tightens (Member relaxed P) (Member rfc8259 Q) where
  tight := by
    rintro _ rest ⟨hbefore, hkey, hgap, hval⟩ hrest hloose
    simp only [List.append_assoc, List.cons_append] at hloose
    rw [loose_blanks hbefore, loose_string] at hloose
    obtain ⟨hkey', hmid⟩ := chars_tight hkey hloose
    rw [loose_blanks hgap, loose_plain (by decide) (by decide) (by decide)] at hmid
    obtain ⟨hval', hend⟩ := hPQ.padded.tight hval hrest hmid
    exact ⟨.intro hbefore hkey' hgap hval', hend⟩
  clean := by
    rintro _ rest ⟨hbefore, hkey, hgap, hval⟩ hrest hloose
    simp only [List.append_assoc, List.cons_append]
    rw [loose_blanks hbefore, loose_string, chars_clean hkey, loose_blanks hgap,
      loose_plain (by decide) (by decide) (by decide)]
    exact hPQ.padded.clean hval hrest hloose

/-- One level of the grammar, given that the scan tells the nested values apart. -/
theorem Tightens.value {P Q : List Char → Prop} (hPQ : Tightens P Q) :
    Tightens (Value relaxed P) (Value rfc8259 Q) where
  tight := by
    intro text rest htext hrest hloose
    cases htext with
    | null => exact ⟨.null, hloose⟩
    | «true» => exact ⟨.true, hloose⟩
    | «false» => exact ⟨.false, hloose⟩
    | number h =>
        rw [loose_numeral h hrest, Bool.or_eq_false_iff] at hloose
        exact ⟨.number ((number_iff _).mpr ⟨h, hloose.1⟩), hloose.2⟩
    | string h =>
        simp only [List.cons_append, List.append_assoc, List.nil_append, loose_string] at hloose
        obtain ⟨hbody, hend⟩ := chars_tight h hloose
        exact ⟨.string hbody, hend⟩
    | emptyArray h =>
        simp only [List.cons_append, List.append_assoc, List.nil_append] at hloose
        rw [loose_plain (by decide) (by decide) (by decide), loose_blanks h,
          loose_plain (by decide) (by decide) (by decide)] at hloose
        exact ⟨.emptyArray h, hloose⟩
    | array h =>
        simp only [List.cons_append, List.append_assoc, List.nil_append] at hloose
        rw [loose_plain (by decide) (by decide) (by decide)] at hloose
        obtain ⟨hitems, hend⟩ := hPQ.padded.separated.tight h
          (endsNumber_cons (by decide) (by decide) rest) hloose
        rw [loose_plain (by decide) (by decide) (by decide)] at hend
        exact ⟨.array hitems, hend⟩
    | emptyObject h =>
        simp only [List.cons_append, List.append_assoc, List.nil_append] at hloose
        rw [loose_plain (by decide) (by decide) (by decide), loose_blanks h,
          loose_plain (by decide) (by decide) (by decide)] at hloose
        exact ⟨.emptyObject h, hloose⟩
    | object h =>
        simp only [List.cons_append, List.append_assoc, List.nil_append] at hloose
        rw [loose_plain (by decide) (by decide) (by decide)] at hloose
        obtain ⟨hitems, hend⟩ := hPQ.member.separated.tight h
          (endsNumber_cons (by decide) (by decide) rest) hloose
        rw [loose_plain (by decide) (by decide) (by decide)] at hend
        exact ⟨.object hitems, hend⟩
  clean := by
    intro text rest htext hrest hloose
    cases htext with
    | null => exact hloose
    | «true» => exact hloose
    | «false» => exact hloose
    | number h =>
        obtain ⟨hrelaxed, hstrict⟩ := (number_iff _).mp h
        rw [loose_numeral hrelaxed hrest, hstrict, hloose]
        rfl
    | string h =>
        simpa only [List.cons_append, List.append_assoc, List.nil_append, loose_string,
          chars_clean h] using hloose
    | emptyArray h =>
        simp only [List.cons_append, List.append_assoc, List.nil_append]
        rwa [loose_plain (by decide) (by decide) (by decide), loose_blanks h,
          loose_plain (by decide) (by decide) (by decide)]
    | array h =>
        simp only [List.cons_append, List.append_assoc, List.nil_append]
        rw [loose_plain (by decide) (by decide) (by decide)]
        apply hPQ.padded.separated.clean h (endsNumber_cons (by decide) (by decide) rest)
        rwa [loose_plain (by decide) (by decide) (by decide)]
    | emptyObject h =>
        simp only [List.cons_append, List.append_assoc, List.nil_append]
        rwa [loose_plain (by decide) (by decide) (by decide), loose_blanks h,
          loose_plain (by decide) (by decide) (by decide)]
    | object h =>
        simp only [List.cons_append, List.append_assoc, List.nil_append]
        rw [loose_plain (by decide) (by decide) (by decide)]
        apply hPQ.member.separated.clean h (endsNumber_cons (by decide) (by decide) rest)
        rwa [loose_plain (by decide) (by decide) (by decide)]

theorem tightens_valueWithin (depth : Nat) :
    Tightens (ValueWithin relaxed depth) (ValueWithin rfc8259 depth) := by
  induction depth with
  | zero => exact Tightens.value ⟨fun h => h.elim, fun h => h.elim⟩
  | succ depth ih => exact Tightens.value ih

/-- The texts of the relaxed dialect without loose tokens are the JSON texts. -/
theorem text_rfc8259_iff (depth : Nat) (cs : List Char) :
    Text rfc8259 depth cs ↔ Text relaxed depth cs ∧ loose .outside cs = false := by
  have htightens := (tightens_valueWithin depth).padded
  constructor
  · intro hcs
    have hclean : loose .outside (cs ++ []) = false := htightens.clean hcs endsNumber_nil rfl
    rw [List.append_nil] at hclean
    exact ⟨hcs.mono (fun _ h => ((number_iff _).mp h).1) (fun _ => quad_relaxed) le_rfl, hclean⟩
  · rintro ⟨hcs, hloose⟩
    have happend : loose .outside (cs ++ []) = false := by rwa [List.append_nil]
    exact (htightens.tight hcs endsNumber_nil happend).1

/-- Accepting exactly the JSON texts within the depth limit is what the parser does on a
text if and only if the text is not one of the relaxed dialect with a loose token. -/
theorem parse_isOk_iff_rfc8259_iff (text : String) :
    ((∃ v, parse text = .ok v) ↔ Text rfc8259 Parser.depthLimit text.toList) ↔
      ¬ (Text relaxed Parser.depthLimit text.toList ∧ loose .outside text.toList = true) := by
  rw [parse_isOk_iff_relaxed, text_rfc8259_iff, ← Bool.not_eq_true]
  tauto

/-- A superfluous leading zero is accepted. -/
theorem parse_leading_zero :
    ¬ ((∃ v, parse "01" = .ok v) ↔ Text rfc8259 Parser.depthLimit "01".toList) := by
  have hloose : loose .outside "01".toList = true := by decide
  have hok : ∃ v, parse "01" = .ok v := by
    have hread : (readText "01".toList).isSome := by decide +kernel
    exact (parse_isOk_iff "01").mpr hread
  intro hiff
  have hclean := ((text_rfc8259_iff _ _).mp (hiff.mp hok)).2
  rw [hloose] at hclean
  cases hclean

end PowerForensics.Json
