import PowerForensics.Core.Json
import PowerForensics.System.Observed

/-! # The parser's cursor

The parser once more, method by method, as a program that moves a cursor over the bytes. An error
leaves the cursor where it is, a slice out of range and a difference below zero panic, and a loop
or a recursion that has used up its passes is stuck. The calls and returns, the moves of the
cursor, the passes of the loops and the slices that are read as text leave events.
-/

namespace PowerForensics.Json.Cursor

open Observed Observed.Run

/-- The methods whose calls are observed. Three of them take the depth. -/
inductive Method where
  | value (depth : Nat)
  | literal
  | number
  | hex4
  | string
  | array (depth : Nat)
  | object (depth : Nat)
  deriving DecidableEq

inductive Loop where
  | blanks
  | digits
  | characters
  | items
  | pairs
  deriving DecidableEq

inductive Event where
  /-- A call with the cursor at a position. -/
  | enter (m : Method) (pos : Nat)
  /-- The return from a call made at a position, and whether it has a value. -/
  | leave (m : Method) (start pos : Nat) (ok : Bool)
  /-- The cursor is moved. -/
  | move (start pos : Nat)
  /-- One pass of a loop that did not end in an error. -/
  | pass (l : Loop) (start pos : Nat)
  /-- A slice is turned back into a string. -/
  | text (start stop pos : Nat)
  deriving DecidableEq

abbrev Scan := Run Nat Event

section Model

variable {α : Type} (b : List UInt8)

def call (m : Method) (body : Scan α) : Scan α := around (.enter m) (.leave m) body

def iteration (l : Loop) (body : Scan α) : Scan α := noting (.pass l) body

def err (msg : String) : Scan α := do
  let pos ← get
  fail ("JSON error at byte " ++ toString (min pos b.length) ++ ": " ++ msg)

def advance (n : Nat) : Scan Unit := do
  let pos ← get
  set (pos + n)
  emit (.move pos)

def peek : Scan (Option UInt8) := do
  let pos ← get
  return b[pos]?

/-- The bytes of a range, if it is one of the text. -/
def range (start stop : Nat) : Option (List UInt8) :=
  if start ≤ stop ∧ stop ≤ b.length then some ((b.drop start).take (stop - start)) else none

def slice (start stop : Nat) : Scan (List UInt8) :=
  match range b start stop with
  | some bytes => return bytes
  | none => panic

def sub (m n : Nat) : Scan Nat := if n ≤ m then return m - n else panic

/-- A slice as text, or the error that it is none. -/
def sliceText (start stop : Nat) (msg : String) : Scan (List Char) := do
  let bytes ← slice b start stop
  emit (.text start stop)
  match Utf8.decode bytes with
  | none => fail msg
  | some token => return token

/-- A pass of a `while` loop over the bytes of a class, or the end of the loop. -/
def skipByte (l : Loop) (f : UInt8 → Bool) (_ : Unit) : Scan (Unit ⊕ Unit) := do
  let c ← peek b
  if c.any f then do
    iteration l (advance 1)
    return .inl ()
  else return .inr ()

def skipWhile (l : Loop) (f : UInt8 → Bool) : Scan Unit :=
  loop (skipByte b l f) (b.length + 1) ()

def ws : Scan Unit := skipWhile b .blanks isBlankByte

def skipDigits : Scan Unit := skipWhile b .digits isDigitByte

def expect (c : Char) (what : String) : Scan Unit := do
  if (← peek b) = some (byte c) then advance 1 else err b what

def literal (word : String) (val : JVal) : Scan JVal := call .literal do
  let bytes := Utf8.encode word.toList
  let pos ← get
  if range b pos (pos + bytes.length) = some bytes then do
    advance bytes.length
    return val
  else err b "bad literal"

/-- A step that is taken if the next byte is of a class. -/
def whenPeek (f : UInt8 → Bool) (step : Scan Unit) : Scan Unit := do
  if (← peek b).any f then step else return ()

def numberEnd : Scan Unit := do
  whenPeek b (· = byte '-') (advance 1)
  skipDigits b
  whenPeek b (· = byte '.') do
    advance 1
    skipDigits b
  whenPeek b (fun c => c = byte 'e' ∨ c = byte 'E') do
    advance 1
    whenPeek b (fun c => c = byte '+' ∨ c = byte '-') (advance 1)
    skipDigits b

def number : Scan JVal := call .number do
  let start ← get
  numberEnd b
  let pos ← get
  let token ← sliceText b start pos "bad number encoding"
  match Binary64.parse token with
  | none => fail ("bad number: " ++ String.ofList token)
  | some n => return .num n

def hex4 : Scan Nat := call .hex4 do
  let pos ← get
  if pos + 4 > b.length then err b "truncated \\u escape"
  else do
    -- Four bytes that end inside a character are no text.
    let s ← sliceText b pos (pos + 4) "bad \\u escape"
    advance 4
    match fromStrRadix16 s with
    | none => fail "bad \\u escape"
    | some n => return n

def unicodeEscape : Scan Char := do
  let hi ← hex4 b
  let pos ← get
  -- Surrogate pair for non-BMP characters.
  if 0xD800 ≤ hi ∧ hi < 0xDC00 ∧ range b pos (pos + 2) = some [byte '\\', byte 'u'] then do
    advance 2
    let lo ← hex4 b
    if 0xDC00 ≤ lo ∧ lo < 0xE000 then do
      let high ← sub hi 0xD800
      let low ← sub lo 0xDC00
      return (fromU32 (0x10000 + high * 2 ^ 10 + low)).getD '\uFFFD'
    else return '\uFFFD'
  else return (fromU32 hi).getD '\uFFFD'

/-- What follows a backslash. -/
def escape : Scan Char := do
  let c ← peek b
  if c = some (byte 'u') then do
    advance 1
    unicodeEscape b
  else
    match escaped c with
    | some d => do
        advance 1
        return d
    | none => err b "bad escape"

/-- Raw UTF-8: one character. -/
def rawChar : Scan Char := do
  let pos ← get
  let s ← sliceText b pos b.length "bad utf8"
  match s with
  | [] => fail "unterminated string"
  | c :: _ =>
      if c.toNat < 0x20 then err b "unescaped control character"
      else do
        advance c.utf8Size
        return c

/-- One pass of the loop of `string`. -/
def character (out : String) : Scan (String ⊕ String) := iteration .characters do
  let c ← peek b
  if c = none then err b "unterminated string"
  else if c = some (byte '"') then do
    advance 1
    return .inr out
  else if c = some (byte '\\') then do
    advance 1
    let d ← escape b
    return .inl (out.push d)
  else do
    let d ← rawChar b
    return .inl (out.push d)

def string : Scan String := call .string do
  expect b '"' "expected string"
  loop (character b) (b.length + 1) ""

/-- What the loops of `array` and `object` do after an element: go on at a comma, return at the
closing character. -/
def afterItem (close : Char) (what : String) (items : List α) : Scan (List α ⊕ List α) := do
  ws b
  let c ← peek b
  if c = some (byte ',') then do
    advance 1
    return .inl items
  else if c = some (byte close) then do
    advance 1
    return .inr items
  else err b what

/-- One pass of the loop of `array`. -/
def item (value : Scan JVal) (items : List JVal) : Scan (List JVal ⊕ List JVal) :=
  iteration .items do
    let v ← value
    afterItem b ']' "expected , or ]" (items ++ [v])

def array (value : Nat → Scan JVal) (depth : Nat) : Scan JVal := call (.array depth) do
  expect b '[' "expected ["
  ws b
  let c ← peek b
  if c = some (byte ']') then do
    advance 1
    return .arr []
  else do
    let items ← loop (item b (value (depth + 1))) (b.length + 1) []
    return .arr items

/-- One pass of the loop of `object`. -/
def pair (value : Scan JVal) (pairs : List (String × JVal)) :
    Scan (List (String × JVal) ⊕ List (String × JVal)) :=
  iteration .pairs do
    ws b
    let c ← peek b
    if c ≠ some (byte '"') then err b "expected string key"
    else do
      let key ← string b
      ws b
      expect b ':' "expected :"
      let val ← value
      afterItem b '}' "expected , or \x7d" (pairs ++ [(key, val)])

def object (value : Nat → Scan JVal) (depth : Nat) : Scan JVal := call (.object depth) do
  expect b '{' "expected \x7b"
  ws b
  let c ← peek b
  if c = some (byte '}') then do
    advance 1
    return .obj []
  else do
    let pairs ← loop (pair b (value (depth + 1))) (b.length + 1) []
    return .obj pairs

/-- Read a value at a depth, with a bound on the calls inside one another. -/
def value : Nat → Nat → Scan JVal
  | 0, _ => stuck
  | calls + 1, depth => call (.value depth) do
      if depth > Parser.depthLimit then err b "nesting too deep"
      else do
        ws b
        let c ← peek b
        if c = some (byte '{') then object b (value calls) depth
        else if c = some (byte '[') then array b (value calls) depth
        else if c = some (byte '"') then do
          let s ← string b
          return .str s
        else if c = some (byte 't') then literal b "true" (.bool true)
        else if c = some (byte 'f') then literal b "false" (.bool false)
        else if c = some (byte 'n') then literal b "null" .null
        else if c = some (byte '-') ∨ c.any isDigitByte then number b
        else err b "expected value"

end Model

/-- The calls of `value` inside one another are at the depths from zero on, up to the first that
is refused. -/
def nesting : Nat := Parser.depthLimit + 2

def parse (text : String) : Scan JVal := do
  let b := Utf8.bytes text
  let v ← value b nesting 0
  ws b
  let pos ← get
  if pos ≠ b.length then err b "trailing data" else return v

end PowerForensics.Json.Cursor
