import PowerForensics.Core.SessionLoader
import PowerForensics.Gui.ExperimentStore
import PowerForensics.Text.Cuts

/-! # Session files

The recording is read whole, or only its head and its tail. A tail starts at a fixed number of
bytes from the end of the file, so it begins behind the first line break found there; a line
that is still being written is dropped.
-/

namespace PowerForensics.Sessions

open Json Session ExperimentStore

def headBytes : Nat := 4 * 1024
def tailBytes : Nat := 128 * 1024

/-- A session file as it stands on disk. -/
structure SessionFile where
  path : String
  /-- The last component of the path, which labels the session. -/
  name : String
  bytes : List UInt8

/-- How a command ends short of a result. -/
inductive Failure where
  | error (e : BridgeError)
  | panic (message : String)
  deriving DecidableEq

def ioError (detail : String) : BridgeError := ⟨"io-error", detail, none⟩

def readToString (bs : List UInt8) : Except BridgeError (List Char) :=
  match Utf8.decode bs with
  | some cs => .ok cs
  | none => .error (ioError "stream did not contain valid UTF-8")

structure HeadTail where
  head : List Char
  tail : List Char
  size : Nat

/-- The last bytes of a file. -/
def lastBytes (n : Nat) (bs : List UInt8) : List UInt8 := (bs.reverse.take n).reverse

/-- The text from the tail limit on, without the line it starts in. -/
def readTail (bs : List UInt8) : Except BridgeError (List Char) :=
  if bs.length ≤ tailBytes then readToString bs
  else .ok (Lines.afterFirst (Utf8.decodeLossy (lastBytes tailBytes bs)))

def readHeadTail (bs : List UInt8) : Except BridgeError HeadTail := do
  let tail ← readTail bs
  return ⟨Utf8.decodeLossy (bs.take headBytes), Lines.whole tail, bs.length⟩

def headerLine (head : List Char) : Option (List Char) :=
  ((Lines.lines head).map Lines.trim).find? (· ≠ [])

def headerJson (head : List Char) : Option JVal :=
  (headerLine head).bind fun line => (parse (String.ofList line)).toOption

def isFooter (line : List Char) : Bool :=
  ((parse (String.ofList line)).toOption.bind (·.strAt "type")) = some "session_footer"

/-- The last line of the tail that is a footer. -/
def footerLine (tail : List Char) : Option (List Char) :=
  (((Lines.lines tail).map Lines.trim).filter (· ≠ [])).reverse.find? isFooter

/-- A session that cannot be parsed; a panic of the loader stays one. -/
def corrupt (message : String) : Fault → Failure
  | .err e => .error ⟨"session-corrupt", message, some e⟩
  | .panic text => .panic text

/-- The tail of a live session, with the header and the size of the file. -/
def readTailSession (file : SessionFile) : Except Failure (SessionData × List Char × Nat) :=
  match readHeadTail file.bytes with
  | .error e => .error (.error e)
  | .ok parts =>
      match loadSession file.name (String.ofList parts.tail) with
      | .error fault => .error (corrupt "cannot parse live session tail" fault)
      | .ok s => .ok (s, parts.head, parts.size)

/-- The authoritative whole session. -/
def loadFull (file : SessionFile) : Except Failure SessionData :=
  match readToString file.bytes with
  | .error e => .error (.error ⟨"io-error", s!"cannot read {file.path}", some e.message⟩)
  | .ok text =>
      match loadSession file.name (String.ofList text) with
      | .error fault => .error (corrupt s!"cannot parse {file.name}" fault)
      | .ok s => .ok s

/-! ## Texts beyond the tail limit -/

/-- The part of a text that its tail view is loaded from. -/
def tailPart (text : List Char) : List Char :=
  Lines.whole (Lines.afterFirst (Utf8.decodeLossy (lastBytes tailBytes (Utf8.encode text))))

theorem lastBytes_eq_drop (n : Nat) (bs : List UInt8) :
    lastBytes n bs = bs.drop (bs.length - n) := by
  rw [lastBytes, List.take_reverse, List.reverse_reverse]

theorem readHeadTail_long {text : List Char} (hlong : tailBytes < (Utf8.encode text).length) :
    readHeadTail (Utf8.encode text) = .ok ⟨Utf8.decodeLossy ((Utf8.encode text).take headBytes),
      tailPart text, (Utf8.encode text).length⟩ := by
  have hshort : ¬ (Utf8.encode text).length ≤ tailBytes := by omega
  rw [readHeadTail, readTail, if_neg hshort]
  rfl

/-- The lines of the tail are lines of the text, up to the one that is not finished. -/
theorem lines_tailPart (text : List Char) : ∃ before, Lines.lines text =
    before ++ Lines.lines (tailPart text) ++ Lines.lines (Lines.unfinished text) := by
  obtain ⟨lead, rest, broken, htext, hdecode⟩ :=
    Utf8.decodeLossy_drop text ((Utf8.encode text).length - tailBytes)
  rw [← lastBytes_eq_drop] at hdecode
  obtain ⟨before, hbefore⟩ := Lines.lines_whole_afterFirst lead rest broken
  have htail : tailPart text =
      Lines.whole (Lines.afterFirst (List.replicate broken '\uFFFD' ++ rest)) :=
    congrArg (fun cs => Lines.whole (Lines.afterFirst cs)) hdecode
  rw [← htext, ← htail] at hbefore
  exact ⟨before, hbefore⟩

end PowerForensics.Sessions
