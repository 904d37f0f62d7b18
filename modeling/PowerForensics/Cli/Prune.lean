import Mathlib.Data.List.Sort
import Mathlib.Data.List.Lex
import Mathlib.Data.UInt
import PowerForensics.Core.AnalyzeChanges
import PowerForensics.System.Merging
import PowerForensics.System.Shedding
import PowerForensics.Text.Search

/-! # Pruning of sessions

The command lists the sessions of a directory and removes those that are too old, and then the
oldest ones until the rest fits a budget. The directory is listed again in between. Where it
cannot be listed, the current directory is.
-/

namespace PowerForensics.Cli

open Shedding Merging Analyze

/-! ## Files -/

/-- The code points of a name; a surrogate without its partner is one of them. -/
abbrev OsName : Type := List Nat

/-- The name as it is displayed. -/
def toStringLossy (name : OsName) : String :=
  String.ofList (name.map fun n => if n.isValidChar then Char.ofNat n else '\uFFFD')

def codePoints (s : String) : OsName := s.toList.map Char.toNat

/-- What follows the last dot, unless the name begins with it. -/
def extension (name : OsName) : Option OsName :=
  let behind := (name.reverse.takeWhile (· ≠ '.'.toNat)).reverse
  let front := (name.reverse.dropWhile (· ≠ '.'.toNat)).drop 1
  if front = [] then none else some behind

def isJsonl (name : OsName) : Bool := extension name = some (codePoints "jsonl")

structure SessionPath where
  dir : String
  name : OsName
  deriving DecidableEq

/-- Times are counted in nanoseconds since the epoch. -/
structure FileMeta where
  bytes : UInt64
  modified : Option Int

/-- What the calls find: the entries of a directory, some of them unreadable, or that it cannot
be listed, the metadata of a file, and whether it can be removed. -/
structure FileSystem where
  readDir : String → Option (List (Option OsName))
  metadata : SessionPath → Option FileMeta
  removable : SessionPath → Bool

/-- The directory that is listed for a given one. -/
def listedDir (fs : FileSystem) (dir : String) : String :=
  if (fs.readDir dir).isSome then dir else "."

def listJsonl (fs : FileSystem) (dir : String) : Option (List SessionPath) :=
  (fs.readDir (listedDir fs dir)).map fun entries =>
    (((entries.filterMap id).filter isJsonl).map (SessionPath.mk (listedDir fs dir))).insertionSort
      (fun p q => p.name ≤ q.name)

/-! ## Policies -/

/-- The time, and the earliest one that there is. -/
structure Clock where
  now : Int
  earliest : Int

/-- The seconds are counted in 64 bits, and there is no time before the earliest one. -/
def Clock.cutoff (clock : Clock) (days : UInt64) : Option Int :=
  let t := clock.now - (days * 86400).toNat * 1000000000
  if t < clock.earliest then none else some t

def isOld (fs : FileSystem) (cutoff : Int) (p : SessionPath) : Bool :=
  match fs.metadata p with
  | none => false
  | some m =>
      match m.modified with
      | none => false
      | some t => t < cutoff

/-- The age of a file is known in seconds since the epoch. -/
def mtime (m : FileMeta) : Option Nat :=
  m.modified.bind fun t => if t < 0 then none else some (t / 1000000000).toNat

structure FileInfo where
  name : String
  path : SessionPath
  bytes : UInt64
  mtime : Option Nat

def fileInfo (fs : FileSystem) (p : SessionPath) : Option FileInfo :=
  (fs.metadata p).map fun m => ⟨toStringLossy p.name, p, m.bytes, mtime m⟩

/-- A file whose age is known. -/
structure AgedFile where
  name : String
  bytes : UInt64
  mtime : Nat

def agedFile (file : String × UInt64 × Option Nat) : Option AgedFile :=
  file.2.2.map fun mtime => ⟨file.1, file.2.1, mtime⟩

/-- The oldest files come first. -/
def byAge (files : List (String × UInt64 × Option Nat)) : List AgedFile :=
  stableSort AgedFile.mtime (files.filterMap agedFile)

/-- The sizes are added up in 64 bits. -/
def totalBytes (files : List AgedFile) : UInt64 := files.foldl (fun sum f => sum + f.bytes) 0

/-- The names of the files given up, as long as the rest is over the budget. -/
def victims : UInt64 → List AgedFile → List String
  | _, [] => []
  | overBy, f :: files =>
      if overBy = 0 then [] else f.name :: victims (saturatingSub overBy f.bytes) files

def planVictims (files : List (String × UInt64 × Option Nat)) (budgetBytes : UInt64) :
    List String :=
  let sorted := byAge files
  victims (saturatingSub (totalBytes sorted) budgetBytes) sorted

/-- A removed file cannot be removed again. -/
def removeFiles (fs : FileSystem) (yes : Bool) (paths : List SessionPath) : List SessionPath :=
  if yes then
    paths.foldl (fun removed p =>
      if fs.removable p && p ∉ removed then removed ++ [p] else removed) []
  else []

def knownFiles (infos : List FileInfo) : List AgedFile :=
  (infos.map fun f => (f.name, f.bytes, f.mtime)).filterMap agedFile

/-- The files that the size policy selects. The sizes are added up before the plan is made. -/
def selectLarge (infos : List FileInfo) (mb : UInt64) : List SessionPath :=
  let budget := mb * 1024 * 1024
  if totalBytes (knownFiles infos) ≤ budget then []
  else
    (planVictims (infos.map fun f => (f.name, f.bytes, f.mtime)) budget).filterMap fun name =>
      (infos.find? fun f => f.name = name).map FileInfo.path

/-! ## Command -/

structure SessionsArgs where
  dir : String
  pruneDays : Option UInt64
  maxMb : Option UInt64
  yes : Bool

def SessionsArgs.default : SessionsArgs := ⟨"sessions", none, none, false⟩

def parsePositive (s : String) : Option UInt64 :=
  ((Search.parseRadix 10 s.toList).filter fun n => 0 < n ∧ n < 2 ^ 64).map UInt64.ofNat

def parseArgs (a : SessionsArgs) : List String → Except String SessionsArgs
  | [] => .ok a
  | arg :: rest =>
      if arg = "--prune-days" then
        match rest with
        | [] => .error "invalid --prune-days (positive days)"
        | value :: rest =>
            match parsePositive value with
            | none => .error "invalid --prune-days (positive days)"
            | some days => parseArgs { a with pruneDays := some days } rest
      else if arg = "--max-mb" then
        match rest with
        | [] => .error "invalid --max-mb (positive megabytes)"
        | value :: rest =>
            match parsePositive value with
            | none => .error "invalid --max-mb (positive megabytes)"
            | some mb => parseArgs { a with maxMb := some mb } rest
      else if arg = "--yes" then parseArgs { a with yes := true } rest
      else if !"--".isPrefixOf arg && a.dir = "sessions" then parseArgs { a with dir := arg } rest
      else .error s!"bad sessions arg: {arg}"

/-- The exit code, and the files removed one after another. -/
structure Outcome where
  code : Nat
  removed : List SessionPath

/-- The age policy. A time before the earliest one ends the process. -/
def pruneDays (a : SessionsArgs) (clock : Clock) (fs : FileSystem) (files : List SessionPath) :
    Option (List SessionPath) :=
  match a.pruneDays with
  | none => some []
  | some days =>
      (clock.cutoff days).map fun cutoff => removeFiles fs a.yes (files.filter (isOld fs cutoff))

/-- The size policy works on a listing of its own. -/
def maxMb (a : SessionsArgs) (fs : FileSystem) : Outcome :=
  match a.maxMb with
  | none => ⟨0, []⟩
  | some mb =>
      match listJsonl fs a.dir with
      | none => ⟨2, []⟩
      | some files =>
          ⟨0, removeFiles fs a.yes (selectLarge (files.filterMap (fileInfo fs)) mb)⟩

/-- The command, less the table that it prints. The file system is as the first policy finds it,
and then as the second one does. -/
def cmdSessions (args : List String) (clock : Clock) (fs fs' : FileSystem) : Outcome :=
  match parseArgs .default args with
  | .error _ => ⟨2, []⟩
  | .ok a =>
      match listJsonl fs a.dir with
      | none => ⟨2, []⟩
      | some files =>
          if files = [] then ⟨0, []⟩
          else
            match pruneDays a clock fs files with
            | none => ⟨101, []⟩
            | some aged =>
                let sized := maxMb a fs'
                ⟨sized.code, aged ++ sized.removed⟩

end PowerForensics.Cli
