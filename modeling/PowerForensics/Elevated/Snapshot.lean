import PowerForensics.Elevated.PowerRequests
import PowerForensics.Text.Codes

/-! # The snapshot of the helper

The helper prints one line with the requests of every class and the wake timers. A query that fails
leaves the line with empty lists, as one that has found nothing does.
-/

namespace PowerForensics.Elevated

open Codes Lines

/-! ## The line -/

def escChar (c : Char) : List Char :=
  if c = '"' then ['\\', '"']
  else if c = '\\' then ['\\', '\\']
  else if c = '\n' then ['\\', 'n']
  else if c = '\r' then ['\\', 'r']
  else if c = '\t' then ['\\', 't']
  else [c]

def esc (s : List Char) : List Char := s.flatMap escChar

def quoted (s : List Char) : List Char := '"' :: (esc s ++ ['"'])

/-- A list of quoted texts, with the bracket that closes it. -/
def quotedList (entries : List (List Char)) : List Char :=
  [','].intercalate (entries.map quoted) ++ [']']

def classes : List String := ["display", "system", "awaymode", "execution", "perfboostmode"]

def classText (name : String) (entries : List (List Char)) : List Char :=
  '"' :: name.toList ++ "\":[".toList ++ quotedList entries

def snapshotText (wall : Nat) (lists : String → List (List Char)) (timers : List (List Char)) :
    List Char :=
  "\x7b\"collector\":\"elevated\",\"wall_ms\":".toList ++ Nat.toDigits 10 wall ++
    ",\"power_requests\":\x7b".toList ++
    ([','].intercalate (classes.map fun name => classText name (lists name)) ++
      ("\x7d,\"waketimers\":[".toList ++ (quotedList timers ++
        ",\"note\":\"snapshot subset (no ETW capture); run etw-cswitch separately\"\x7d".toList)))

variable (toLowercase : List Char → List Char)

def cmdSnapshot (wall : Nat) (requests waketimers : Except String ProcessOutput) : List Char :=
  let requests := (runPowercfg ["/requests"] requests).toOption.getD []
  let waketimers := (runPowercfg ["/waketimers"] waketimers).toOption.getD []
  let req := parseRequests toLowercase requests
  let timers := parseWaketimers toLowercase waketimers
  snapshotText wall (fun name => (req.lookup name.toList).getD []) timers

/-! ## What the line says -/

/-- The tool has succeeded, and this is what it has printed. -/
def Printed (output : Except String ProcessOutput) (text : List Char) : Prop :=
  ∃ out, output = .ok out ∧ out.success = true ∧ text = Utf8.decodeLossy out.stdout

/-- A line that lists what the queries have printed, and nothing only where they have printed that
there is nothing. -/
def Truthful (wall : Nat) (requests waketimers : Except String ProcessOutput) (line : List Char) :
    Prop :=
  ∃ lists timers, line = snapshotText wall lists timers ∧
    (∀ text, Printed requests text → ∀ name ∈ classes,
      lists name = listedUnder toLowercase name.toList text) ∧
    (∀ name ∈ classes, lists name = [] →
      ∃ text, Printed requests text ∧ listedUnder toLowercase name.toList text = []) ∧
    (timers = [] → ∃ text, Printed waketimers text ∧
      ∀ t ∈ (lines text).map trim, t ≠ [] → isNoneMessage toLowercase t = true)

section Reading

variable {toLowercase}

theorem Printed.unique {output : Except String ProcessOutput} {text text' : List Char}
    (h : Printed output text) (h' : Printed output text') : text = text' := by
  obtain ⟨out, rfl, -, rfl⟩ := h
  obtain ⟨out', hout, -, rfl⟩ := h'
  rw [Except.ok.inj hout]

theorem runPowercfg_of_printed {args : List String} {output : Except String ProcessOutput}
    {text : List Char} (h : Printed output text) : runPowercfg args output = .ok text := by
  obtain ⟨out, rfl, hsuccess, rfl⟩ := h
  exact if_pos hsuccess

/-- A query that has not succeeded leaves no text. -/
theorem text_of_not_printed {args : List String} {output : Except String ProcessOutput}
    (h : ¬∃ text, Printed output text) : (runPowercfg args output).toOption.getD [] = [] := by
  cases output with
  | error e => rfl
  | ok out =>
      have hsuccess : ¬out.success = true := fun hs => h ⟨_, out, rfl, hs, rfl⟩
      rw [runPowercfg, if_neg hsuccess]
      rfl

/-! ### The lists are read off -/

/-- What a letter behind a backslash stands for. -/
def unescaped (c : Char) : Char :=
  if c = 'n' then '\n' else if c = 'r' then '\r' else if c = 't' then '\t' else c

theorem escChar_cases (c : Char) :
    (∃ letter, escChar c = ['\\', letter] ∧ c = unescaped letter) ∨
      escChar c = [c] ∧ c ≠ '"' ∧ c ≠ '\\' := by
  rw [escChar]
  split
  next h => exact Or.inl ⟨_, rfl, h⟩
  next hquote =>
  split
  next h => exact Or.inl ⟨_, rfl, h⟩
  next hslash =>
  split
  next h => exact Or.inl ⟨_, rfl, h⟩
  next =>
  split
  next h => exact Or.inl ⟨_, rfl, h⟩
  next =>
  split
  next h => exact Or.inl ⟨_, rfl, h⟩
  next => exact Or.inr ⟨rfl, hquote, hslash⟩

theorem readOff_escChar : ReadOff escChar := by
  intro c c' rest rest' h
  rcases escChar_cases c with ⟨letter, hc, rfl⟩ | ⟨hc, -, hslash⟩ <;>
    rcases escChar_cases c' with ⟨letter', hc', rfl⟩ | ⟨hc', -, hslash'⟩ <;> rw [hc, hc'] at h
  · obtain ⟨-, h⟩ := List.cons.inj h
    obtain ⟨rfl, hrest⟩ := List.cons.inj h
    exact ⟨rfl, hrest⟩
  · exact absurd (List.cons.inj h).1.symm hslash'
  · exact absurd (List.cons.inj h).1 hslash
  · exact List.cons.inj h

theorem avoids_escChar : Avoids escChar '"' := by
  intro c
  rcases escChar_cases c with ⟨letter, hc, -⟩ | ⟨hc, hquote, -⟩
  · exact ⟨'\\', [letter], hc, by decide⟩
  · exact ⟨c, [], hc, hquote⟩

theorem readOff_quoted : ReadOff quoted :=
  (readOff_escChar.sequence avoids_escChar).preceded ['"']

theorem readOff_quotedList : ReadOff quotedList :=
  readOff_quoted.separated (fun s => ⟨'"', esc s ++ ['"'], rfl, by decide⟩) (by decide)

theorem readOff_classText (name : String) : ReadOff (classText name) :=
  readOff_quotedList.preceded _

/-- A line shows the lists that it has been made of. -/
theorem snapshotText_inj {wall : Nat} {lists lists' : String → List (List Char)}
    {timers timers' : List (List Char)}
    (h : snapshotText wall lists timers = snapshotText wall lists' timers') :
    (∀ name ∈ classes, lists name = lists' name) ∧ timers = timers' := by
  obtain ⟨hlists, h⟩ := sections_inj readOff_classText (List.append_cancel_left h)
  exact ⟨hlists, (readOff_quotedList _ _ _ _ (List.append_cancel_left h)).1⟩

/-! ### Where it is truthful -/

theorem ne_nil_of_mem_classes {name : String} (hname : name ∈ classes) : name.toList ≠ [] := by
  revert name
  decide

theorem parseWaketimers_eq_nil {text : List Char} : parseWaketimers toLowercase text = [] ↔
    ∀ t ∈ (lines text).map trim, t ≠ [] → isNoneMessage toLowercase t = true := by
  rw [parseWaketimers, List.filter_eq_nil_iff]
  refine forall₂_congr fun t _ => ?_
  simp

section Snapshot

variable {wall : Nat} {requests waketimers : Except String ProcessOutput}

/-- A truthful line has been made of requests that were printed and read right. -/
theorem Truthful.readRight (h : Truthful toLowercase wall requests waketimers
    (cmdSnapshot toLowercase wall requests waketimers)) :
    ∃ text, Printed requests text ∧
      ∀ name ∈ classes, ReadRight toLowercase name.toList text := by
  obtain ⟨lists, timers, hline, hlisted, hempty, -⟩ := h
  obtain ⟨hlists, -⟩ := snapshotText_inj hline
  by_cases hprinted : ∃ text, Printed requests text
  · obtain ⟨text, hprinted⟩ := hprinted
    refine ⟨text, hprinted, fun name hname => ?_⟩
    rw [← parseRequests_eq_iff (ne_nil_of_mem_classes hname), ← hlisted text hprinted name hname,
      ← hlists name hname, runPowercfg_of_printed hprinted]
    rfl
  · -- the first class is listed as empty, which the failed query does not bear out
    have hdisplay : "display" ∈ classes := List.mem_cons_self
    have hnone : lists "display" = [] := by
      rw [← hlists _ hdisplay, text_of_not_printed hprinted]
      rfl
    obtain ⟨text, htext, -⟩ := hempty _ hdisplay hnone
    exact absurd ⟨text, htext⟩ hprinted

theorem Truthful.timers_printed (h : Truthful toLowercase wall requests waketimers
    (cmdSnapshot toLowercase wall requests waketimers)) : ∃ text, Printed waketimers text := by
  obtain ⟨lists, timers, hline, -, -, htimers⟩ := h
  obtain ⟨-, rfl⟩ := snapshotText_inj hline
  by_contra hprinted
  rw [text_of_not_printed hprinted] at htimers
  obtain ⟨text, htext, -⟩ := htimers rfl
  exact hprinted ⟨text, htext⟩

/-- The helper's line is truthful exactly if both queries succeed and the output of the first one is
read right for every class. -/
theorem snapshot_truthful_iff (wall : Nat) (requests waketimers : Except String ProcessOutput) :
    Truthful toLowercase wall requests waketimers
        (cmdSnapshot toLowercase wall requests waketimers) ↔
      (∃ text, Printed requests text ∧
        ∀ name ∈ classes, ReadRight toLowercase name.toList text) ∧
      ∃ text, Printed waketimers text := by
  constructor
  · intro h
    exact ⟨h.readRight, h.timers_printed⟩
  · rintro ⟨⟨text, hrequests, hright⟩, timersText, hwaketimers⟩
    have hlisted (name : String) (hname : name ∈ classes) :
        ((parseRequests toLowercase text).lookup name.toList).getD [] =
          listedUnder toLowercase name.toList text :=
      (parseRequests_eq_iff (ne_nil_of_mem_classes hname)).mpr (hright name hname)
    refine ⟨_, _, rfl, ?_, ?_, ?_⟩
    · intro text' htext'
      obtain rfl := hrequests.unique htext'
      rw [runPowercfg_of_printed hrequests]
      exact hlisted
    · intro name hname hnil
      rw [runPowercfg_of_printed hrequests] at hnil
      exact ⟨text, hrequests, (hlisted name hname).symm.trans hnil⟩
    · intro hnil
      rw [runPowercfg_of_printed hwaketimers] at hnil
      exact ⟨timersText, hwaketimers, parseWaketimers_eq_nil.mp hnil⟩

/-- A failed query leaves its lists empty, and a request whose text ends with a colon is lost. -/
theorem requests_lost :
    ¬Truthful (List.map Char.toLower) 0 (.error "program not found") (.ok ⟨true, [], []⟩)
        (cmdSnapshot (List.map Char.toLower) 0 (.error "program not found")
          (.ok ⟨true, [], []⟩)) ∧
      ¬Truthful (List.map Char.toLower) 0
        (.ok ⟨true, Utf8.bytes "SYSTEM:\n[DRIVER] Audio\nStream in use:\n", []⟩)
        (.ok ⟨true, [], []⟩)
        (cmdSnapshot (List.map Char.toLower) 0
          (.ok ⟨true, Utf8.bytes "SYSTEM:\n[DRIVER] Audio\nStream in use:\n", []⟩)
          (.ok ⟨true, [], []⟩)) := by
  constructor
  · intro h
    obtain ⟨text, ⟨out, hout, -⟩, -⟩ := h.readRight
    cases hout
  · intro h
    obtain ⟨text, ⟨out, hout, -, rfl⟩, hright⟩ := h.readRight
    obtain rfl := Except.ok.inj hout
    rw [Utf8.bytes, Utf8.decodeLossy_encode] at hright
    have hkept := (hright "system" (by decide)).1 "Stream in use:".toList (by decide)
    exact absurd hkept (by decide)

end Snapshot

end Reading

end PowerForensics.Elevated
