import Mathlib.Data.List.DropRight
import PowerForensics.System.Tables
import PowerForensics.Text.Headings
import PowerForensics.Text.Lines
import PowerForensics.Text.Utf8

/-! # Power requests and wake timers

The system tool `powercfg` lists what keeps the computer awake under the headers of a few classes,
and the wake timers line by line. The helper reads both outputs. Any line that ends with a colon is
a heading to it unless it begins with a bracket, while a header is one word of letters.
-/

namespace PowerForensics.Elevated

open Headings Lines

/-! ## The tool -/

/-- What a program that was run has left. -/
structure ProcessOutput where
  success : Bool
  stdout : List UInt8
  stderr : List UInt8

def runPowercfg (args : List String) (output : Except String ProcessOutput) :
    Except String (List Char) :=
  match output with
  | .error e => .error s!"powercfg spawn failed: {e}"
  | .ok out =>
      if out.success then .ok (Utf8.decodeLossy out.stdout)
      else
        let command := " ".intercalate args
        let reason := String.ofList (trim (Utf8.decodeLossy out.stderr))
        .error s!"powercfg {command} failed: {reason}"

/-! ## The parsers

Lower case is a function of whole texts, and it is only applied here. -/

variable (toLowercase : List Char → List Char)

/-- The class that a line is taken for a heading of. -/
def headingOf (t : List Char) : Option (List Char) :=
  if t.getLast? = some ':' ∧ t.head? ≠ some '[' then
    some (toLowercase (t.rdropWhile fun c => c = ':'))
  else none

def isNoneMarker (t : List Char) : Bool := t.map Char.toLower = "none.".toList

structure RequestParse where
  map : List (List Char × List (List Char))
  cur : List Char

/-- Change the list of the current class, which is made if there is none. -/
def RequestParse.entry (p : RequestParse) (f : List (List Char) → List (List Char)) :
    RequestParse :=
  { p with map := Tables.upsert p.cur (fun entries => f (entries.getD [])) p.map }

def RequestParse.line (p : RequestParse) (raw : List Char) : RequestParse :=
  let t := trim raw
  if t = [] then p
  else
    match headingOf toLowercase t with
    | some cur => ({ p with cur } : RequestParse).entry id
    | none =>
        if isNoneMarker t then p.entry id
        else if p.cur ≠ [] then p.entry fun entries => entries ++ [t]
        else p

def parseRequests (text : List Char) : List (List Char × List (List Char)) :=
  ((lines text).foldl (RequestParse.line toLowercase) ⟨[], []⟩).map

/-- The message that there are no wake timers, in all its wordings. -/
def isNoneMessage (t : List Char) : Bool :=
  let low := toLowercase t
  "there are no".toList <:+: low ∧ "wake timer".toList <:+: low

def parseWaketimers (text : List Char) : List (List Char) :=
  ((lines text).map trim).filter fun t => t ≠ [] ∧ !isNoneMessage toLowercase t

/-! ## What is listed -/

/-- The class of a header, which is one word of letters in front of a colon. -/
def classHeader (t : List Char) : Option (List Char) :=
  if t.getLast? = some ':' ∧ t.dropLast ≠ [] ∧ t.dropLast.all Char.isAlpha then
    some (toLowercase t.dropLast)
  else none

/-- A line that is neither empty nor says that there is nothing. -/
def isDetail (t : List Char) : Bool := t ≠ [] ∧ !isNoneMarker t

/-- The lines of an output behind the header of a class and in front of the next header. -/
def listedUnder (name text : List Char) : List (List Char) :=
  under (classHeader toLowercase) isDetail name false ((lines text).map trim)

/-- Nothing of the class is taken for a heading, and nothing else for a heading of the class that
a detail follows. -/
def ReadRight (name text : List Char) : Prop :=
  (∀ t ∈ listedUnder toLowercase name text, headingOf toLowercase t = none) ∧
    ¬Strays (classHeader toLowercase) (headingOf toLowercase) isDetail name ((lines text).map trim)

section Requests

variable {toLowercase}

theorem headingOf_of_classHeader {t name : List Char}
    (h : classHeader toLowercase t = some name) : headingOf toLowercase t = some name := by
  unfold classHeader at h
  split at h
  next hheader =>
    obtain ⟨hlast, hword, hletters⟩ := hheader
    obtain ⟨word, rfl⟩ := List.getLast?_eq_some_iff.mp hlast
    rw [List.dropLast_concat] at h hword hletters
    have hletters := List.all_eq_true.mp hletters
    have hhead : (word ++ [':']).head? ≠ some '[' := by
      obtain ⟨c, rest, rfl⟩ := List.exists_cons_of_ne_nil hword
      intro hc
      obtain rfl : c = '[' := by simpa using hc
      exact absurd (hletters '[' List.mem_cons_self) (by decide)
    have hkept : word.rdropWhile (fun c => c = ':') = word := by
      refine List.rdropWhile_eq_self_iff.mpr fun hne hcolon => ?_
      have hmem := hletters _ (List.getLast_mem hne)
      rw [of_decide_eq_true hcolon] at hmem
      exact absurd hmem (by decide)
    rw [headingOf, if_pos ⟨hlast, hhead⟩, List.rdropWhile_concat_pos _ _ _ (by simp), hkept, h]
  next => cases h

/-- A line with a colon at its end says something. -/
theorem isDetail_of_headingOf {t : List Char} (h : (headingOf toLowercase t).isSome) :
    isDetail t = true := by
  unfold headingOf at h
  split at h
  next hheading =>
    obtain ⟨word, rfl⟩ := List.getLast?_eq_some_iff.mp hheading.1
    have hmarker : isNoneMarker (word ++ [':']) = false := by
      refine decide_eq_false fun heq => ?_
      have hlast := congrArg List.getLast? heq
      rw [List.map_append, List.map_singleton, List.getLast?_concat] at hlast
      exact absurd hlast (by decide)
    simp [isDetail, hmarker]
  next => cases h

@[simp] theorem cur_entry (p : RequestParse) (f : List (List Char) → List (List Char)) :
    (p.entry f).cur = p.cur := rfl

theorem lookup_entry (p : RequestParse) (f : List (List Char) → List (List Char))
    (name : List Char) : ((p.entry f).map.lookup name).getD [] =
      if name = p.cur then f ((p.map.lookup name).getD []) else (p.map.lookup name).getD [] := by
  rw [RequestParse.entry]
  dsimp only
  rw [Tables.lookup_upsert]
  split
  next h => rw [h, Option.getD_some]
  next => rfl

/-- What a class has after some lines: what it had, and the details that are read under it. -/
theorem lookup_foldl {name : List Char} (hname : name ≠ []) (p : RequestParse)
    (ls : List (List Char)) :
    ((ls.foldl (RequestParse.line toLowercase) p).map.lookup name).getD [] =
      (p.map.lookup name).getD [] ++
        under (headingOf toLowercase) isDetail name (p.cur = name) (ls.map trim) := by
  induction ls generalizing p with
  | nil => rw [List.map_nil, under, List.append_nil, List.foldl_nil]
  | cons raw ls ih =>
      rw [List.foldl_cons, ih, List.map_cons, RequestParse.line]
      generalize trim raw = t
      by_cases hnil : t = []
      · rw [if_pos hnil, under_skipped (by simp [hnil, headingOf]) (by simp [hnil, isDetail])]
      · rw [if_neg hnil]
        cases hheading : headingOf toLowercase t with
        | some cur =>
            rw [under_heading hheading]
            dsimp only
            rw [lookup_entry, cur_entry]
            split <;> rfl
        | none =>
            dsimp only
            split
            next hmarker =>
              rw [under_skipped hheading (by simp [isDetail, hmarker]), lookup_entry, cur_entry]
              split <;> rfl
            next hmarker =>
              have hdetail : isDetail t = true := by simp [isDetail, hnil, hmarker]
              split
              next hcur =>
                rw [lookup_entry, cur_entry]
                by_cases heq : p.cur = name
                · rw [if_pos heq.symm, decide_eq_true heq, under_detail hheading hdetail,
                    List.append_assoc, List.singleton_append]
                · rw [if_neg fun h => heq h.symm, decide_eq_false heq,
                    under_skipped hheading (Bool.false_and _)]
              next hcur =>
                have hne : p.cur ≠ name := fun h => hcur (h ▸ hname)
                rw [decide_eq_false hne, under_skipped hheading (Bool.false_and _)]

/-- The parser lists for a class what the output does exactly if it is read right for it. -/
theorem parseRequests_eq_iff {name text : List Char} (hname : name ≠ []) :
    ((parseRequests toLowercase text).lookup name).getD [] = listedUnder toLowercase name text ↔
      ReadRight toLowercase name text := by
  have hoff : ([] : List Char) ≠ name := fun h => hname h.symm
  have hiff : under (classHeader toLowercase) isDetail name false ((lines text).map trim) =
      under (headingOf toLowercase) isDetail name false ((lines text).map trim) ↔ _ :=
    under_eq_iff (fun _ _ => headingOf_of_classHeader) (fun _ => isDetail_of_headingOf) id
  rw [parseRequests, lookup_foldl hname, decide_eq_false hoff, List.lookup_nil, Option.getD_none,
    List.nil_append, eq_comm, listedUnder, hiff, ReadRight, listedUnder]
  simp

end Requests

end PowerForensics.Elevated
