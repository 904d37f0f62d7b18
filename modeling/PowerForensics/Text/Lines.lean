import Mathlib.Data.List.DropRight

/-! # Lines of a text

A text is cut at its line feeds. A carriage return before a line feed belongs to the
line break, one at the end of an unterminated text does not. Trimming takes Unicode
white space off both ends.
-/

namespace Lines

/-! ## Cutting -/

/-- A line that stood before a line feed, without the carriage return of the break. -/
def stripCr (line : List Char) : List Char :=
  if line.getLast? = some '\r' then line.dropLast else line

/-- The lines of a text whose first line has begun, its characters in reverse. -/
def linesFrom (begun : List Char) : List Char → List (List Char)
  | [] => if begun = [] then [] else [begun.reverse]
  | c :: cs =>
      if c = '\n' then stripCr begun.reverse :: linesFrom [] cs
      else linesFrom (c :: begun) cs

def lines (cs : List Char) : List (List Char) := linesFrom [] cs

example : lines "a\r\n\nb\r".toList = ["a".toList, [], "b\r".toList] := by decide

/-- Lines that are each ended by a line feed. -/
def terminated (ls : List (List Char)) : List Char := ls.flatMap (· ++ ['\n'])

@[simp] theorem lines_nil : lines [] = [] := rfl

@[simp] theorem terminated_nil : terminated [] = [] := rfl

theorem terminated_cons (l : List Char) (ls : List (List Char)) :
    terminated (l :: ls) = l ++ '\n' :: terminated ls := by
  simp [terminated]

theorem terminated_append (ls ms : List (List Char)) :
    terminated (ls ++ ms) = terminated ls ++ terminated ms := by
  simp [terminated]

private theorem linesFrom_append {line : List Char} (hline : '\n' ∉ line) (begun rest : List Char) :
    linesFrom begun (line ++ rest) = linesFrom (line.reverse ++ begun) rest := by
  induction line generalizing begun with
  | nil => rfl
  | cons c line ih =>
      have hc : c ≠ '\n' := fun h => hline (h ▸ List.mem_cons_self)
      have hrest : '\n' ∉ line := fun h => hline (List.mem_cons_of_mem c h)
      rw [List.cons_append, linesFrom, if_neg hc, ih hrest]
      simp

/-- A line that is ended is the first one, without the carriage return of its break. -/
theorem lines_append_newline {line : List Char} (hline : '\n' ∉ line) (rest : List Char) :
    lines (line ++ '\n' :: rest) = stripCr line :: lines rest := by
  simp [lines, linesFrom_append hline, linesFrom]

/-- What no line feed ends is kept whole. -/
theorem lines_unterminated {line : List Char} (hline : '\n' ∉ line) :
    lines line = if line = [] then [] else [line] := by
  have happend := linesFrom_append hline [] []
  rw [List.append_nil] at happend
  simp [lines, happend, linesFrom]

theorem lines_terminated {ls : List (List Char)} (hls : ∀ l ∈ ls, '\n' ∉ l) (rest : List Char) :
    lines (terminated ls ++ rest) = ls.map stripCr ++ lines rest := by
  induction ls with
  | nil => rfl
  | cons l ls ih =>
      rw [terminated_cons, List.append_assoc, List.cons_append,
        lines_append_newline (hls l List.mem_cons_self),
        ih fun m hm => hls m (List.mem_cons_of_mem l hm)]
      rfl

private theorem linesFrom_break (begun xs ys : List Char) :
    linesFrom begun (xs ++ '\n' :: ys) = linesFrom begun (xs ++ ['\n']) ++ linesFrom [] ys := by
  induction xs generalizing begun with
  | nil => simp [linesFrom]
  | cons c xs ih =>
      rw [List.cons_append, List.cons_append, linesFrom, linesFrom]
      split
      · rw [ih, List.cons_append]
      · exact ih _

/-- Behind a line feed the lines begin anew. -/
theorem lines_break (xs ys : List Char) :
    lines (xs ++ '\n' :: ys) = lines (xs ++ ['\n']) ++ lines ys :=
  linesFrom_break [] xs ys

/-- Behind a text that ends in a line feed the lines begin anew. -/
theorem lines_terminated_append (ls : List (List Char)) (rest : List Char) :
    lines (terminated ls ++ rest) = lines (terminated ls) ++ lines rest := by
  rcases List.eq_nil_or_concat ls with rfl | ⟨init, last, rfl⟩
  · rfl
  · have hsplit : terminated (init ++ [last]) = (terminated init ++ last) ++ ['\n'] := by
      simp [terminated]
    rw [List.concat_eq_append, hsplit, List.append_assoc, List.singleton_append]
    exact lines_break _ _

theorem mem_stripCr {c : Char} {line : List Char} (hc : c ∈ stripCr line) : c ∈ line := by
  unfold stripCr at hc
  split at hc
  · exact (List.dropLast_prefix line).subset hc
  · exact hc

private theorem not_mem_linesFrom {cs begun line : List Char} (hbegun : '\n' ∉ begun)
    (hline : line ∈ linesFrom begun cs) : '\n' ∉ line := by
  induction cs generalizing begun with
  | nil =>
      unfold linesFrom at hline
      split at hline
      · simp at hline
      · obtain rfl : line = begun.reverse := by simpa using hline
        simpa using hbegun
  | cons c cs ih =>
      unfold linesFrom at hline
      split at hline
      · rcases List.mem_cons.mp hline with rfl | hline
        · exact fun h => hbegun (by simpa using mem_stripCr h)
        · exact ih (by simp) hline
      next hc =>
        apply ih _ hline
        simp only [List.mem_cons, not_or]
        exact ⟨fun h => hc h.symm, hbegun⟩

/-- No line contains a line feed. -/
theorem not_mem_lines {cs line : List Char} (hline : line ∈ lines cs) : '\n' ∉ line :=
  not_mem_linesFrom (by simp) hline

/-! ## Trimming -/

/-- The characters with the Unicode property White_Space. -/
def isWhitespace (c : Char) : Bool :=
  (0x09 ≤ c.toNat ∧ c.toNat ≤ 0x0D) ∨ c.toNat = 0x20 ∨ c.toNat = 0x85 ∨ c.toNat = 0xA0 ∨
    c.toNat = 0x1680 ∨ (0x2000 ≤ c.toNat ∧ c.toNat ≤ 0x200A) ∨ c.toNat = 0x2028 ∨
    c.toNat = 0x2029 ∨ c.toNat = 0x202F ∨ c.toNat = 0x205F ∨ c.toNat = 0x3000

def trim (cs : List Char) : List Char := (cs.dropWhile isWhitespace).rdropWhile isWhitespace

@[simp] theorem trim_nil : trim [] = [] := rfl

/-- White space at the end of a text is trimmed with the rest. -/
theorem trim_append_whitespace (cs : List Char) {c : Char} (hc : isWhitespace c) :
    trim (cs ++ [c]) = trim cs := by
  unfold trim
  rw [List.dropWhile_append]
  split
  next hnil =>
    have hcs : cs.dropWhile isWhitespace = [] := List.isEmpty_iff.mp hnil
    simp [hcs, hc]
  · exact List.rdropWhile_concat_pos isWhitespace _ c hc

/-- The carriage return of a break makes no difference to the trimmed line. -/
theorem trim_stripCr (line : List Char) : trim (stripCr line) = trim line := by
  unfold stripCr
  split
  next hlast =>
    obtain ⟨cs, rfl⟩ := List.getLast?_eq_some_iff.mp hlast
    rw [List.dropLast_concat, trim_append_whitespace cs rfl]
  · rfl

/-- A text that starts and ends with something else is trimmed already. -/
theorem trim_eq_self {cs : List Char} (hhead : ∀ c, cs.head? = some c → isWhitespace c = false)
    (hlast : ∀ c, cs.getLast? = some c → isWhitespace c = false) : trim cs = cs := by
  have hdrop : cs.dropWhile isWhitespace = cs := by
    cases cs with
    | nil => rfl
    | cons c cs => simp [hhead c rfl]
  unfold trim
  rw [hdrop, List.rdropWhile_eq_self_iff]
  intro hne
  have := hlast _ (List.getLast?_eq_some_getLast hne)
  simp [this]

/-- A trimmed text neither starts nor ends with white space. -/
theorem getLast?_trim {cs : List Char} {c : Char} (hc : (trim cs).getLast? = some c) :
    isWhitespace c = false := by
  obtain ⟨hne, rfl⟩ := List.mem_getLast?_eq_getLast hc
  have hlast := List.rdropWhile_last_not isWhitespace (cs.dropWhile isWhitespace) hne
  exact Bool.eq_false_iff.mpr hlast

/-- A line that is trimmed has no carriage return to lose. -/
theorem stripCr_of_trim {line : List Char} (htrim : trim line = line) : stripCr line = line := by
  unfold stripCr
  split
  next hlast =>
    rw [← htrim] at hlast
    cases getLast?_trim hlast
  · rfl

/-! ## Texts in parts -/

/-- The characters of a text in two parts, where those of the parts are known. -/
theorem toList_append_of {s t : String} {cs ds : List Char} (hs : s.toList = cs)
    (ht : t.toList = ds) : (s ++ t).toList = cs ++ ds := by
  rw [String.toList_append, hs, ht]

end Lines
