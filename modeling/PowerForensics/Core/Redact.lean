import Mathlib.Data.List.Sort
import PowerForensics.Text.Lines
import PowerForensics.Text.Scanner

/-! # Redaction of rendered texts

A text goes through scanners one after the other: the given tokens, then paths, keyed values,
titles and the numbers that identify a machine. Each scanner is a rule that says where a mask is
put. The elements of the text may be more than characters, so that one can see which of them
have been copied.
-/

namespace PowerForensics.Redact

open Scanner Lines

/-! ## Characters -/

def isIdent (c : Char) : Bool := c.isAlphanum || c = '_' || c = '.' || c = '-'

def isWord (c : Char) : Bool := c.isAlphanum || c = '_'

def isHex (c : Char) : Bool :=
  c.isDigit || ('a' ≤ c && c ≤ 'f') || ('A' ≤ c && c ≤ 'F')

/-- Characters that stay inside a path token. -/
def isPathChar (c : Char) : Bool := !isWhitespace c && !"\"',;)]\x7d<>|".toList.contains c

/-- Texts that begin alike but for the case of ASCII letters. -/
def startsWithCi : List Char → List Char → Bool
  | [], _ => true
  | _ :: _, [] => false
  | p :: pat, c :: text => c.toLower = p.toLower && startsWithCi pat text

/-! ## Tokens -/

/-- One sensitive token and the placeholder that replaces it. -/
structure RedactToken where
  value : String
  placeholder : String
  deriving DecidableEq

/-- A needle at identifier boundaries, whatever its case. -/
def tokenRule (needle replacement : List Char) : Rule := fun prev text =>
  if needle ≠ [] ∧ startsWithCi needle text ∧ ¬prev.any isIdent ∧
      ¬(text.drop needle.length).head?.any isIdent then
    some ⟨0, needle.length, replacement, 0⟩
  else none

/-- Longer values first. -/
def itemOrder (a b : RedactToken) : Ordering :=
  (compare b.value.utf8ByteSize a.value.utf8ByteSize).then (compare a.value b.value)

/-- The tokens in the order in which they are looked for; those of less than two characters
are skipped. -/
def items (tokens : List RedactToken) : List RedactToken :=
  ((tokens.map fun t => (⟨.ofList (trim t.value.toList), t.placeholder⟩ : RedactToken)).filter
    fun t => 2 ≤ t.value.length).insertionSort fun a b => itemOrder a b ≠ .gt

section Texts

variable {α : Type} [Glyph α]

def replaceCiBounded (needle replacement : String) (text : List α) : List α :=
  scan (tokenRule needle.toList replacement.toList) text

/-- Of equal values only the first one is looked for. -/
def maskItems : Option String → List RedactToken → List α → List α
  | _, [], text => text
  | last, item :: items, text =>
      if last = some item.value then maskItems last items text
      else maskItems (some item.value) items (replaceCiBounded item.value item.placeholder text)

def maskIdentifiers (tokens : List RedactToken) (text : List α) : List α :=
  maskItems none (items tokens) text

def processTokens (names : List String) : List RedactToken :=
  names.zipIdx.map fun n => ⟨n.1, s!"process-{n.2 + 1}"⟩

def maskProcessNames (names : List String) (text : List α) : List α :=
  maskIdentifiers (processTokens names) text

end Texts

/-! ## Paths -/

/-- A drive path, up to the next delimiter. -/
def driveRule : Rule := fun prev text =>
  match text with
  | c :: ':' :: s :: rest =>
      if ¬prev.any (fun b => b.isAlphanum || b = ':') ∧ c.isAlpha ∧ (s = '\\' ∨ s = '/') then
        some ⟨0, 3 + (rest.takeWhile isPathChar).length, "<path>".toList, 0⟩
      else none
  | _ => none

/-- Characters of one component of a path. -/
def isComponentChar (c : Char) : Bool := c ≠ '\\' && isPathChar c

/-- The host of a UNC share. -/
def uncRule : Rule := fun _ text =>
  match text with
  | '\\' :: '\\' :: rest =>
      let host := rest.takeWhile isComponentChar
      if host ≠ [] ∧ (rest.drop host.length).head? = some '\\' then
        some ⟨0, host.length + 3, "\\\\<host>\\".toList, 0⟩
      else none
  | _ => none

/-- The account below a root of profiles. -/
def profileRule (root mask : String) : Rule := fun _ text =>
  if startsWithCi root.toList text then
    some ⟨0, root.length + ((text.drop root.length).takeWhile isComponentChar).length,
      mask.toList, 0⟩
  else none

def pathRule : Rule := fun prev text =>
  (driveRule prev text).or <| (uncRule prev text).or <|
    (profileRule "\\users\\" "\\Users\\<user>" prev text).or <|
      profileRule "\\documents and settings\\" "\\Documents and Settings\\<user>" prev text

/-! ## Keyed values -/

/-- What stands for the value of a key, if values of the key identify something. -/
def keyPlaceholder (key : List Char) : Option String :=
  let key := String.ofList (key.map Char.toLower)
  if key ∈ ["ssid", "network"] then some "<ssid>"
  else if key ∈ ["user", "username", "owner", "account", "login"] then some "<user>"
  else if key ∈ ["host", "hostname", "computer", "machine", "server"] then some "<host>"
  else if key ∈ ["path", "file", "dir", "directory", "filename"] then some "<path>"
  else if key ∈ ["session", "label", "note", "detail", "message", "description", "command", "cmd",
      "args", "arguments"] then some "<redacted>"
  else if key ∈ ["device", "devicename", "device_name", "adapter", "adapter_name", "descr", "name",
      "display", "monitor", "gpu", "manufacturer", "model"] then some "<redacted>"
  else none

/-- Keys of which a bare value goes on to the end of the line. -/
def isTextKey (key : List Char) : Bool :=
  String.ofList (key.map Char.toLower) ∈ ["session", "label", "note", "detail", "message",
    "description", "command", "cmd", "args", "arguments"]

/-- Dotted names of metrics. -/
def isFieldLabel (value : List Char) : Bool :=
  value ≠ [] && !value.any isWhitespace && 2 ≤ value.count '.' &&
    value.all fun c => c.isAlphanum || c = '_' || c = '.'

/-- The value is a placeholder already, or the name of a metric. -/
def keepValue (key value : List Char) : Bool :=
  value.head? = some '<' ||
    (String.ofList (key.map Char.toLower) ∈ ["name", "device", "devicename", "device_name",
      "adapter", "adapter_name", "descr"]) && isFieldLabel value

def isValueEnd (c : Char) : Bool := isWhitespace c || ",;)]\x7d<>".toList.contains c

/-- Characters of a bare value. -/
def isBareChar (key : List Char) (c : Char) : Bool :=
  if isTextKey key then c ≠ '\n' && c ≠ '\r' else !isValueEnd c

/-- The length of a quoted value, without the quote at its end. -/
def quotedLength : List Char → Nat
  | [] => 0
  | '"' :: _ => 0
  | '\\' :: _ :: rest => quotedLength rest + 2
  | _ :: rest => quotedLength rest + 1

/-- The value after a key and a separator, which have been read. -/
def valuePatch (key : List Char) (placeholder : String) (read : Nat) (text : List Char) :
    Option Patch :=
  match text with
  | '"' :: quoted =>
      let n := quotedLength quoted
      let closing := if n < quoted.length then 1 else 0
      if keepValue key (quoted.take n) then some ⟨read + 1 + n + closing, 0, [], 0⟩
      else some ⟨read + 1, n, placeholder.toList, closing⟩
  | _ =>
      let value := text.takeWhile (isBareChar key)
      if value = [] then none
      else if keepValue key value then some ⟨read + value.length, 0, [], 0⟩
      else some ⟨read, value.length, placeholder.toList, 0⟩

/-- The number of elements up to the value after a key of some length. -/
def separatorLength (text : List Char) : Option Nat :=
  let gap := (text.takeWhile (· = ' ')).length
  match text.drop gap with
  | c :: rest =>
      if c = ':' ∨ c = '=' then some (gap + 1 + (rest.takeWhile (· = ' ')).length) else none
  | [] => none

def keyedRule : Rule := fun prev text =>
  let key := text.takeWhile isWord
  if key ≠ [] ∧ ¬prev.any isWord then do
    let placeholder ← keyPlaceholder key
    let n ← separatorLength (text.drop key.length)
    valuePatch key placeholder (key.length + n) (text.drop (key.length + n))
  else none

/-! ## Titles -/

/-- The length of a title, which ends before two spaces or with its line. -/
def titleLength : List Char → Nat
  | [] => 0
  | '\n' :: _ => 0
  | ' ' :: ' ' :: _ => 0
  | _ :: rest => titleLength rest + 1

def titleRule (heading : String) (text : List Char) : Option Patch :=
  if heading.toList.isPrefixOf text then
    some ⟨heading.length, titleLength (text.drop heading.length), "<redacted>".toList, 0⟩
  else none

/-- A line that begins with the heading of a view carries a label. -/
def titledRule : Rule := fun prev text =>
  if prev = none ∨ prev = some '\n' then
    (titleRule "DASHBOARD " text).or (titleRule "TIMELINE " text)
  else none

/-! ## Numbers -/

def guidRule : Rule := fun prev text =>
  let run := text.takeWhile fun c => isHex c || c = '-'
  if text.head?.any isHex ∧ ¬prev.any (fun c => isHex c || c = '-') ∧
      (run.length = 36 ∧ run.count '-' = 4 ∨ run.length = 32 ∧ run.count '-' = 0) then
    some ⟨0, run.length, "<guid>".toList, 0⟩
  else none

/-- What may stand between the label of a process number and the number. -/
def isPidSeparator (c : Char) : Bool := " \t=:#\"'".toList.contains c

def pidLabel (text : List Char) : Option String :=
  ["ppid", "pid"].find? fun label => startsWithCi label.toList text

def pidRule : Rule := fun prev text =>
  if prev.any isWord then none
  else do
    let label ← pidLabel text
    let rest := text.drop label.length
    let separators := rest.takeWhile isPidSeparator
    let digits := (rest.drop separators.length).takeWhile Char.isDigit
    if digits = [] then none
    else some ⟨label.length + separators.length, digits.length, "<pid>".toList, 0⟩

/-- The number of groups of two hexadecimal digits, and what is left after them. -/
def macGroups (separator : Char) : List Char → Nat × List Char
  | a :: b :: rest =>
      if isHex a && isHex b then
        match rest with
        | c :: rest' =>
            if c = separator then
              let groups := macGroups separator rest'
              (groups.1 + 1, groups.2)
            else (1, rest)
        | [] => (1, [])
      else (0, a :: b :: rest)
  | text => (0, text)

def macRule : Rule := fun prev text =>
  match text with
  | a :: b :: separator :: _ =>
      let groups := macGroups separator text
      if isHex a ∧ ¬prev.any (fun c => isHex c || c = ':' || c = '-') ∧ isHex b ∧
          (separator = ':' ∨ separator = '-') ∧ groups.1 = 6 ∧
          ¬groups.2.head?.any (fun c => isHex c || c = ':' || c = '-') then
        some ⟨0, text.length - groups.2.length, "<mac>".toList, 0⟩
      else none
  | _ => none

def decimal (digits : List Char) : Nat := digits.foldl (fun n c => 10 * n + (c.toNat - 48)) 0

/-- What is left after some groups of an address, each of them at most 255. -/
def ipv4Groups : Nat → List Char → Option (List Char)
  | 0, text => some text
  | n + 1, text =>
      let group := text.takeWhile Char.isDigit
      let rest := text.drop group.length
      if group = [] ∨ 3 < group.length ∨ 255 < decimal group then none
      else if n = 0 then some rest
      else
        match rest with
        | '.' :: rest => ipv4Groups n rest
        | _ => none

def ipv4Rule : Rule := fun prev text =>
  if text.head?.any Char.isDigit ∧ ¬prev.any Char.isDigit then do
    let rest ← ipv4Groups 4 text
    if rest.head?.any (fun c => c.isDigit || c = '.') then none
    else some ⟨0, text.length - rest.length, "<ip>".toList, 0⟩
  else none

/-! ## The whole of it -/

section Texts

variable {α : Type} [Glyph α]

def maskWindowsPaths (text : List α) : List α := scan pathRule text
def maskKeyedIdentifiers (text : List α) : List α := scan keyedRule text
def maskTitledLabels (text : List α) : List α := scan titledRule text
def maskGuids (text : List α) : List α := scan guidRule text
def maskPids (text : List α) : List α := scan pidRule text
def maskMac (text : List α) : List α := scan macRule text
def maskIpv4 (text : List α) : List α := scan ipv4Rule text

def redactFinish (text : List α) : List α :=
  maskIpv4 (maskMac (maskPids (maskGuids (maskTitledLabels (maskKeyedIdentifiers
    (maskWindowsPaths text))))))

def redactReport (text : List α) (names : List String) : List α :=
  redactFinish (maskProcessNames names text)

def redactReportIdentifiers (text : List α) (tokens : List RedactToken) : List α :=
  redactFinish (maskIdentifiers tokens text)

end Texts

end PowerForensics.Redact
