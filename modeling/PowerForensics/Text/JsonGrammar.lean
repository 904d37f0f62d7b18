import Mathlib.Data.List.Basic

/-! # The JSON grammar

The productions of JSON with the number token and the digits of a `\u` escape left
open, so that a dialect is one choice of these two. One level of the grammar takes the
language of the values nested inside; iterating it a given number of times bounds the
number of containers around the most deeply nested value.
-/

namespace JsonGrammar

/-- The tokens in which dialects differ. -/
structure Tokens where
  number : List Char → Prop
  quad : List Char → Prop

def blanks : List Char := [' ', '\t', '\n', '\r']

def Blank (cs : List Char) : Prop := ∀ c ∈ cs, c ∈ blanks

/-- A text of the language between blanks. -/
inductive Padded (P : List Char → Prop) : List Char → Prop
  | intro {before cs after} :
      Blank before → P cs → Blank after → Padded P (before ++ (cs ++ after))

/-- Texts of the language between commas, at least one. -/
inductive Separated (P : List Char → Prop) : List Char → Prop
  | one {cs} : P cs → Separated P cs
  | more {cs rest} : P cs → Separated P rest → Separated P (cs ++ ',' :: rest)

/-- The letters of the one-letter escapes. -/
def escapeLetters : List Char := ['"', '\\', '/', 'b', 'f', 'n', 'r', 't']

/-- What stands between the quotes of a string. -/
inductive Chars (T : Tokens) : List Char → Prop
  | nil : Chars T []
  | plain {c cs} : c ≠ '"' → c ≠ '\\' → 0x20 ≤ c.toNat → Chars T cs → Chars T (c :: cs)
  | escape {c cs} : c ∈ escapeLetters → Chars T cs → Chars T ('\\' :: c :: cs)
  | unicode {quad cs} : T.quad quad → Chars T cs → Chars T ('\\' :: 'u' :: (quad ++ cs))

/-- A key and a value, with the blanks around them. -/
inductive Member (T : Tokens) (Nested : List Char → Prop) : List Char → Prop
  | intro {before key after cs} :
      Blank before → Chars T key → Blank after → Padded Nested cs →
      Member T Nested (before ++ '"' :: (key ++ '"' :: (after ++ ':' :: cs)))

/-- A value, given the language of the values nested inside. -/
inductive Value (T : Tokens) (Nested : List Char → Prop) : List Char → Prop
  | null : Value T Nested "null".toList
  | true : Value T Nested "true".toList
  | false : Value T Nested "false".toList
  | number {cs} : T.number cs → Value T Nested cs
  | string {cs} : Chars T cs → Value T Nested ('"' :: (cs ++ ['"']))
  | emptyArray {gap} : Blank gap → Value T Nested ('[' :: (gap ++ [']']))
  | array {cs} : Separated (Padded Nested) cs → Value T Nested ('[' :: (cs ++ [']']))
  | emptyObject {gap} : Blank gap → Value T Nested ('{' :: (gap ++ ['}']))
  | object {cs} : Separated (Member T Nested) cs → Value T Nested ('{' :: (cs ++ ['}']))

/-- A value in which no value is inside more than the given number of containers. -/
def ValueWithin (T : Tokens) : Nat → List Char → Prop
  | 0 => Value T fun _ => False
  | depth + 1 => Value T (ValueWithin T depth)

/-- A whole text: one value between blanks. -/
def Text (T : Tokens) (depth : Nat) : List Char → Prop := Padded (ValueWithin T depth)

/-! ## The tokens of RFC 8259 -/

def Digits (cs : List Char) : Prop := cs ≠ [] ∧ ∀ c ∈ cs, c.isDigit

/-- `int = zero / ( digit1-9 *DIGIT )` -/
def IntPart (cs : List Char) : Prop :=
  cs = ['0'] ∨ ∃ c ds, cs = c :: ds ∧ c ≠ '0' ∧ c.isDigit ∧ ∀ d ∈ ds, d.isDigit

/-- `frac = decimal-point 1*DIGIT` -/
def FracPart (cs : List Char) : Prop := ∃ ds, cs = '.' :: ds ∧ Digits ds

/-- `exp = e [ minus / plus ] 1*DIGIT` -/
def ExpPart (cs : List Char) : Prop :=
  ∃ letter sign ds, cs = letter :: (sign ++ ds) ∧ (letter = 'e' ∨ letter = 'E') ∧
    (sign = [] ∨ sign = ['+'] ∨ sign = ['-']) ∧ Digits ds

/-- `number = [ minus ] int [ frac ] [ exp ]` -/
def Number (cs : List Char) : Prop :=
  ∃ minus int frac exp, cs = minus ++ (int ++ (frac ++ exp)) ∧ (minus = [] ∨ minus = ['-']) ∧
    IntPart int ∧ (frac = [] ∨ FracPart frac) ∧ (exp = [] ∨ ExpPart exp)

def isHexDigit (c : Char) : Prop :=
  ('0' ≤ c ∧ c ≤ '9') ∨ ('a' ≤ c ∧ c ≤ 'f') ∨ ('A' ≤ c ∧ c ≤ 'F')

/-- `4HEXDIG` -/
def Quad (cs : List Char) : Prop := cs.length = 4 ∧ ∀ c ∈ cs, isHexDigit c

def rfc8259 : Tokens := ⟨Number, Quad⟩

/-! ## Monotonicity -/

theorem Padded.mono {P Q : List Char → Prop} (hPQ : ∀ cs, P cs → Q cs) {cs : List Char}
    (hcs : Padded P cs) : Padded Q cs := by
  cases hcs with
  | intro hbefore hmid hafter => exact .intro hbefore (hPQ _ hmid) hafter

theorem Separated.mono {P Q : List Char → Prop} (hPQ : ∀ cs, P cs → Q cs) {cs : List Char}
    (hcs : Separated P cs) : Separated Q cs := by
  induction hcs with
  | one h => exact .one (hPQ _ h)
  | more h _ ih => exact .more (hPQ _ h) ih

variable {T T' : Tokens}

theorem Chars.mono (hquad : ∀ cs, T.quad cs → T'.quad cs) {cs : List Char}
    (hcs : Chars T cs) : Chars T' cs := by
  induction hcs with
  | nil => exact .nil
  | plain hquote hslash hlow _ ih => exact .plain hquote hslash hlow ih
  | escape hc _ ih => exact .escape hc ih
  | unicode hq _ ih => exact .unicode (hquad _ hq) ih

theorem Member.mono (hquad : ∀ cs, T.quad cs → T'.quad cs) {P Q : List Char → Prop}
    (hPQ : ∀ cs, P cs → Q cs) {cs : List Char} (hcs : Member T P cs) : Member T' Q cs := by
  cases hcs with
  | intro hbefore hkey hafter hval =>
      exact .intro hbefore (hkey.mono hquad) hafter (hval.mono hPQ)

theorem Value.mono (hnumber : ∀ cs, T.number cs → T'.number cs)
    (hquad : ∀ cs, T.quad cs → T'.quad cs) {P Q : List Char → Prop}
    (hPQ : ∀ cs, P cs → Q cs) {cs : List Char} (hcs : Value T P cs) : Value T' Q cs := by
  cases hcs with
  | null => exact .null
  | «true» => exact .true
  | «false» => exact .false
  | number h => exact .number (hnumber _ h)
  | string h => exact .string (h.mono hquad)
  | emptyArray h => exact .emptyArray h
  | array h => exact .array (h.mono fun _ => Padded.mono hPQ)
  | emptyObject h => exact .emptyObject h
  | object h => exact .object (h.mono fun _ => Member.mono hquad hPQ)

/-- More tokens and more levels of nesting admit more values. -/
theorem ValueWithin.mono (hnumber : ∀ cs, T.number cs → T'.number cs)
    (hquad : ∀ cs, T.quad cs → T'.quad cs) {depth depth' : Nat} (hdepth : depth ≤ depth')
    {cs : List Char} (hcs : ValueWithin T depth cs) : ValueWithin T' depth' cs := by
  induction depth generalizing depth' cs with
  | zero =>
      cases depth' with
      | zero => exact Value.mono hnumber hquad (fun _ => False.elim) hcs
      | succ depth' => exact Value.mono hnumber hquad (fun _ => False.elim) hcs
  | succ depth ih =>
      obtain ⟨k, rfl⟩ : ∃ k, depth' = k + 1 := ⟨depth' - 1, by omega⟩
      exact Value.mono hnumber hquad (fun _ => ih (by omega)) hcs

theorem Text.mono (hnumber : ∀ cs, T.number cs → T'.number cs)
    (hquad : ∀ cs, T.quad cs → T'.quad cs) {depth depth' : Nat} (hdepth : depth ≤ depth')
    {cs : List Char} (hcs : Text T depth cs) : Text T' depth' cs :=
  Padded.mono (fun _ => ValueWithin.mono hnumber hquad hdepth) hcs

end JsonGrammar
