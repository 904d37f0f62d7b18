import PowerForensics.Core.JsonText
import PowerForensics.Core.SessionLoader

/-! # Lines of a session writer

A session is written line by line: a header, the records of the collectors, events and a
footer. Every line is an object; what a collector writes behind the clocks of a record is its own
business, as long as it is JSON on one line.
-/

namespace PowerForensics.Session

open Json

/-! ## Values on a line -/

/-- The text of a value, on one line. -/
structure Written where
  text : List Char
  value : JVal
  reads : Takes (valueReader Parser.depthLimit) text value
  single : '\n' ∉ text

namespace Written

def string (s : String) : Written where
  text := quoted s
  value := .str s
  reads := takes_quoted s
  single := newline_not_mem_quoted s

theorem newline_not_mem_digits (n : Nat) : '\n' ∉ Nat.toDigits 10 n := by
  intro h
  have hdigit := Nat.isDigit_of_mem_toDigits (by decide) (by decide) h
  exact absurd hdigit (by decide)

def number (n : Nat) : Written where
  text := Nat.toDigits 10 n
  value := .num (.ofNat n)
  reads := takes_digits n
  single := newline_not_mem_digits n

def emptyList : Written where
  text := ['[', ']']
  value := .arr []
  reads := takes_arr .nil
  single := by decide

end Written

/-! ## Lines -/

def lineText (members : List (String × Written)) : List Char :=
  objectText (members.map fun m => (m.1, m.2.text))

def lineValue (members : List (String × Written)) : JVal :=
  .obj (members.map fun m => (m.1, m.2.value))

section Lines

variable (members : List (String × Written))

theorem parse_lineText : parse (String.ofList (lineText members)) = .ok (lineValue members) := by
  apply parse_of_takes
  rw [String.toList_ofList]
  have htakes := takes_objectText (members.map fun m => (m.1, m.2.text, m.2.value)) (by
    intro m hm
    obtain ⟨m, -, rfl⟩ := List.mem_map.mp hm
    exact m.2.reads)
  rwa [List.map_map, List.map_map] at htakes

theorem trim_lineText : Lines.trim (lineText members) = lineText members := trim_objectText _

theorem lineText_ne_nil : lineText members ≠ [] := List.cons_ne_nil _ _

theorem stripCr_lineText : Lines.stripCr (lineText members) = lineText members :=
  Lines.stripCr_of_trim (trim_lineText members)

theorem newline_not_mem_lineText : '\n' ∉ lineText members := by
  apply newline_not_mem_objectText
  intro m hm
  obtain ⟨m, -, rfl⟩ := List.mem_map.mp hm
  exact m.2.single

end Lines

/-! ## The writer -/

structure Header where
  wallMs : UInt64
  toolVersion : String
  intervalMs : UInt64
  note : String

def headerMembers (h : Header) : List (String × Written) :=
  [("type", .string "session_header"), ("wall_ms", .number h.wallMs.toNat),
    ("tool", .string "power-forensics"), ("version", .string h.toolVersion),
    ("format", .string "pf-jsonl-2"), ("interval_ms", .number h.intervalMs.toNat),
    ("note", .string h.note)]

/-- An integer as the parser reads it back. -/
def readBack (ms : UInt64) : UInt64 := asU64 (.ofNat ms.toNat)

end PowerForensics.Session
