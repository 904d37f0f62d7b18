import PowerForensics.Binary64.Decimal
import PowerForensics.Text.Utf8

/-! # JSON values, their parser and their printer

The parser scans the bytes of a text with a position. Every method takes the parser
and returns it advanced, or the text of an error. Nesting is bounded: a value at a
depth beyond the limit is refused, so the recursion of `value` is on the levels that
are left. The loops carry a bound on their passes that the number of bytes always
exceeds, since every pass consumes one.
-/

namespace PowerForensics.Json

inductive JVal where
  | null
  | bool (b : Bool)
  | num (n : Binary64)
  | str (s : String)
  | arr (items : List JVal)
  | obj (pairs : List (String × JVal))
  deriving Inhabited

namespace JVal

def get (v : JVal) (key : String) : Option JVal :=
  match v with
  | .obj pairs => (pairs.find? fun p => p.1 = key).map Prod.snd
  | _ => none

def num? : JVal → Option Binary64
  | .num n => some n
  | _ => none

def asStr : JVal → Option String
  | .str s => some s
  | _ => none

def arr? : JVal → Option (List JVal)
  | .arr items => some items
  | _ => none

def asBool : JVal → Option Bool
  | .bool b => some b
  | _ => none

end JVal

/-! ## The parser -/

structure Parser where
  b : List UInt8
  pos : Nat

/-- The byte of an ASCII character. -/
abbrev byte (c : Char) : UInt8 := c.toUInt8

def isDigitByte (b : UInt8) : Bool := byte '0' ≤ b ∧ b ≤ byte '9'

def isBlankByte (b : UInt8) : Bool := b ∈ [byte ' ', byte '\t', byte '\n', byte '\r']

/-- The scalar value of a code point, if it has one. -/
def fromU32 (n : Nat) : Option Char := if n.isValidChar then some (Char.ofNat n) else none

def hexDigit (c : Char) : Option Nat :=
  if '0' ≤ c ∧ c ≤ '9' then some (c.toNat - '0'.toNat)
  else if 'a' ≤ c ∧ c ≤ 'f' then some (c.toNat - 'a'.toNat + 10)
  else if 'A' ≤ c ∧ c ≤ 'F' then some (c.toNat - 'A'.toNat + 10)
  else none

/-- The value of hexadecimal digits, at least one. -/
def hexValue (digits : List Char) : Option Nat :=
  if digits = [] then none
  else (digits.mapM hexDigit).map fun ds => ds.foldl (fun n d => 16 * n + d) 0

/-- The digits of an unsigned number in base 16, after an optional plus sign. -/
def fromStrRadix16 (cs : List Char) : Option Nat :=
  hexValue (if cs.head? = some '+' then cs.tail else cs)

/-- The one-letter escapes and the characters they stand for. -/
def escapes : List (Char × Char) :=
  [('"', '"'), ('\\', '\\'), ('/', '/'), ('b', '\x08'), ('f', '\x0c'), ('n', '\n'),
    ('r', '\r'), ('t', '\t')]

/-- The character that a one-letter escape stands for. -/
def escaped (b : Option UInt8) : Option Char :=
  (escapes.find? fun e => b = some (byte e.1)).map Prod.snd

namespace Parser

def new (s : String) : Parser := ⟨Utf8.encode s.toList, 0⟩

def err {α : Type} (p : Parser) (msg : String) : Except String α :=
  .error ("JSON error at byte " ++ toString (min p.pos p.b.length) ++ ": " ++ msg)

def advance (p : Parser) (n : Nat) : Parser := { p with pos := p.pos + n }

/-- The bytes from the position on. -/
def remaining (p : Parser) : List UInt8 := p.b.drop p.pos

def skipWhile (f : UInt8 → Bool) (p : Parser) : Parser :=
  p.advance (p.remaining.takeWhile f).length

def ws (p : Parser) : Parser := p.skipWhile isBlankByte

def peek (p : Parser) : Option UInt8 := p.b[p.pos]?

def expect (p : Parser) (c : Char) (what : String) : Except String (Unit × Parser) :=
  if p.peek = some (byte c) then .ok ((), p.advance 1) else p.err what

def literal (word : String) (val : JVal) (p : Parser) : Except String (JVal × Parser) :=
  let bytes := Utf8.encode word.toList
  if p.remaining.take bytes.length = bytes then .ok (val, p.advance bytes.length)
  else p.err "bad literal"

def skipFraction (p : Parser) : Parser :=
  if p.peek = some (byte '.') then (p.advance 1).skipWhile isDigitByte else p

def skipExponent (p : Parser) : Parser :=
  if p.peek = some (byte 'e') ∨ p.peek = some (byte 'E') then
    let p := p.advance 1
    let p := if p.peek = some (byte '+') ∨ p.peek = some (byte '-') then p.advance 1 else p
    p.skipWhile isDigitByte
  else p

/-- The position after the longest run of characters that looks like a number. -/
def numberEnd (p : Parser) : Parser :=
  let p := if p.peek = some (byte '-') then p.advance 1 else p
  (p.skipWhile isDigitByte).skipFraction.skipExponent

def number (p : Parser) : Except String (JVal × Parser) :=
  let q := p.numberEnd
  match Utf8.decode (p.remaining.take (q.pos - p.pos)) with
  | none => .error "bad number encoding"
  | some token =>
      match Binary64.parse token with
      | none => .error ("bad number: " ++ String.ofList token)
      | some n => .ok (.num n, q)

def hex4 (p : Parser) : Except String (Nat × Parser) :=
  if p.b.length < p.pos + 4 then p.err "truncated \\u escape"
  else
    match Utf8.decode (p.remaining.take 4) with
    | none => .error "bad \\u escape"
    | some s =>
        match fromStrRadix16 s with
        | none => .error "bad \\u escape"
        | some n => .ok (n, p.advance 4)

/-- The character of a `\u` escape whose letter has been read, with the second half
of a surrogate pair if one follows. -/
def unicodeEscape (p : Parser) : Except String (Char × Parser) := do
  let (hi, p) ← p.hex4
  if 0xD800 ≤ hi ∧ hi < 0xDC00 ∧ p.remaining.take 2 = [byte '\\', byte 'u'] then
    let (lo, p) ← (p.advance 2).hex4
    if 0xDC00 ≤ lo ∧ lo < 0xE000 then
      return ((fromU32 (0x10000 + (hi - 0xD800) * 2 ^ 10 + (lo - 0xDC00))).getD '\uFFFD', p)
    else return ('\uFFFD', p)
  else return ((fromU32 hi).getD '\uFFFD', p)

/-- One pass of the loop of `string` that appends a character. -/
def stringItem (p : Parser) : Except String (Char × Parser) :=
  if p.peek = some (byte '\\') then
    let p := p.advance 1
    if p.peek = some (byte 'u') then (p.advance 1).unicodeEscape
    else
      match escaped p.peek with
      | some c => .ok (c, p.advance 1)
      | none => p.err "bad escape"
  else
    -- Raw UTF-8: one character.
    match Utf8.decode p.remaining with
    | none => .error "bad utf8"
    | some [] => .error "unterminated string"
    | some (c :: _) =>
        if c.toNat < 0x20 then p.err "unescaped control character"
        else .ok (c, p.advance c.utf8Size)

def stringLoop : Nat → String → Parser → Except String (String × Parser)
  | 0, _, p => p.err "unterminated string"
  | passes + 1, out, p =>
      if p.peek = none then p.err "unterminated string"
      else if p.peek = some (byte '"') then .ok (out, p.advance 1)
      else do
        let (c, p) ← p.stringItem
        stringLoop passes (out.push c) p

def string (p : Parser) : Except String (String × Parser) := do
  let ((), p) ← p.expect '"' "expected string"
  stringLoop (p.b.length + 1) "" p

/-- The loop of `array` and `object`: elements between commas up to a closing
character. -/
def itemsLoop {α : Type} (element : Parser → Except String (α × Parser)) (close : Char)
    (what : String) :
    Nat → List α → Parser → Except String ((List α) × Parser)
  | 0, _, p => p.err what
  | passes + 1, items, p => do
      let (item, p) ← element p
      let items := items ++ [item]
      let p := p.ws
      if p.peek = some (byte ',') then
        itemsLoop element close what passes items (p.advance 1)
      else if p.peek = some (byte close) then .ok (items, p.advance 1)
      else p.err what

def array (value : Parser → Except String (JVal × Parser)) (p : Parser) :
    Except String (JVal × Parser) := do
  let ((), p) ← p.expect '[' "expected ["
  let p := p.ws
  if p.peek = some (byte ']') then .ok (.arr [], p.advance 1)
  else
    let (items, p) ← itemsLoop value ']' "expected , or ]" (p.b.length + 1) [] p
    return (.arr items, p)

/-- A key and its value. -/
def pair (value : Parser → Except String (JVal × Parser)) (p : Parser) :
    Except String ((String × JVal) × Parser) :=
  let p := p.ws
  if p.peek ≠ some (byte '"') then p.err "expected string key"
  else do
    let (key, p) ← p.string
    let p := p.ws
    let ((), p) ← p.expect ':' "expected :"
    let (val, p) ← value p
    return ((key, val), p)

def object (value : Parser → Except String (JVal × Parser)) (p : Parser) :
    Except String (JVal × Parser) := do
  let ((), p) ← p.expect '{' "expected \x7b"
  let p := p.ws
  if p.peek = some (byte '}') then .ok (.obj [], p.advance 1)
  else
    let (pairs, p) ← itemsLoop (pair value) '}' "expected , or \x7d" (p.b.length + 1) [] p
    return (.obj pairs, p)

/-- Read a value with the given number of levels of nesting left. -/
def valueAt : Nat → Parser → Except String (JVal × Parser)
  | 0, p => p.err "nesting too deep"
  | levels + 1, p =>
      let p := p.ws
      if p.peek = some (byte '{') then p.object (valueAt levels)
      else if p.peek = some (byte '[') then p.array (valueAt levels)
      else if p.peek = some (byte '"') then do
        let (s, p) ← p.string
        return (.str s, p)
      else if p.peek = some (byte 't') then p.literal "true" (.bool true)
      else if p.peek = some (byte 'f') then p.literal "false" (.bool false)
      else if p.peek = some (byte 'n') then p.literal "null" .null
      else if p.peek = some (byte '-') ∨ p.peek.any isDigitByte then p.number
      else p.err "expected value"

/-- The deepest level that a value may be at. -/
def depthLimit : Nat := 64

def value (depth : Nat) (p : Parser) : Except String (JVal × Parser) := valueAt (depthLimit + 1 - depth) p

end Parser

/-- Parse one complete value; anything after it is an error. -/
def parse (text : String) : Except String JVal := do
  let (v, p) ← (Parser.new text).value 0
  let p := p.ws
  if p.pos ≠ p.b.length then p.err "trailing data"
  else return v

/-! ## The printer -/

/-- A number below 16 as a lower case digit. -/
def hexChar (n : Nat) : Char := Nat.digitChar n

/-- The format `{:04x}`. -/
def hex04 (n : Nat) : List Char :=
  [hexChar (n / 4096 % 16), hexChar (n / 256 % 16), hexChar (n / 16 % 16), hexChar (n % 16)]

/-- How a character is printed inside a string. -/
def escapeChar (c : Char) : List Char :=
  if c = '"' then ['\\', '"']
  else if c = '\\' then ['\\', '\\']
  else if c = '\n' then ['\\', 'n']
  else if c = '\r' then ['\\', 'r']
  else if c = '\t' then ['\\', 't']
  else if c.toNat < 0x20 then ['\\', 'u'] ++ hex04 c.toNat
  else [c]

def stringToJson (s : String) : String :=
  "\"" ++ String.ofList (s.toList.flatMap escapeChar) ++ "\""

mutual

/-- Compact text of a value. -/
def toJson : JVal → String
  | .null => "null"
  | .bool true => "true"
  | .bool false => "false"
  | .num n => if n.isFinite then String.ofList n.debug else "null"
  | .str s => stringToJson s
  | .arr items => "[" ++ itemsToJson items ++ "]"
  | .obj pairs => "\x7b" ++ pairsToJson pairs ++ "\x7d"

def itemsToJson : List JVal → String
  | [] => ""
  | [x] => toJson x
  | x :: y :: rest => toJson x ++ "," ++ itemsToJson (y :: rest)

def pairsToJson : List (String × JVal) → String
  | [] => ""
  | [(k, x)] => stringToJson k ++ ":" ++ toJson x
  | (k, x) :: p :: rest => stringToJson k ++ ":" ++ toJson x ++ "," ++ pairsToJson (p :: rest)

end

/-! ## The recursion as the source has it -/

/-- A value is refused beyond the depth limit, and its elements are one level deeper. -/
theorem value_eq (depth : Nat) (p : Parser) :
    p.value depth =
      if depth > Parser.depthLimit then p.err "nesting too deep"
      else
        let p := p.ws
        if p.peek = some (byte '{') then p.object (Parser.value (depth + 1))
        else if p.peek = some (byte '[') then p.array (Parser.value (depth + 1))
        else if p.peek = some (byte '"') then do
          let (s, p) ← p.string
          return (.str s, p)
        else if p.peek = some (byte 't') then p.literal "true" (.bool true)
        else if p.peek = some (byte 'f') then p.literal "false" (.bool false)
        else if p.peek = some (byte 'n') then p.literal "null" .null
        else if p.peek = some (byte '-') ∨ p.peek.any isDigitByte then p.number
        else p.err "expected value" := by
  by_cases hdepth : depth > Parser.depthLimit
  · rw [if_pos hdepth, Parser.value, show Parser.depthLimit + 1 - depth = 0 by omega]
    rfl
  · have hlevels : Parser.depthLimit + 1 - depth = Parser.depthLimit + 1 - (depth + 1) + 1 := by
      omega
    rw [if_neg hdepth, Parser.value, hlevels, Parser.valueAt]
    rfl

end PowerForensics.Json
