import PowerForensics.Core.Json

/-! # JSON read from characters

The same language read off the front of a list of characters, without positions or
error texts. Every reader leaves a shorter text than it was given, which bounds its
loops. The parser over bytes refines it: on the encoding of a text it succeeds
exactly if the reader does, with the same value and at the same place.
-/

namespace PowerForensics.Json

/-- A function that takes a value off the front of a text and consumes something. -/
structure Reader (α : Type) where
  run : List Char → Option (α × List Char)
  shrinks : ∀ {cs a rest}, run cs = some (a, rest) → rest.length < cs.length

/-! ## Blanks and numbers -/

def isBlank (c : Char) : Bool := c ∈ [' ', '\t', '\n', '\r']

def skipBlanks (cs : List Char) : List Char := cs.dropWhile isBlank

def skipChar (p : Char → Bool) (cs : List Char) : List Char :=
  if cs.head?.any p then cs.tail else cs

def skipDigits (cs : List Char) : List Char := cs.dropWhile Char.isDigit

def skipFraction (cs : List Char) : List Char :=
  if cs.head?.any (· = '.') then skipDigits cs.tail else cs

def skipExponent (cs : List Char) : List Char :=
  if cs.head?.any (· ∈ ['e', 'E']) then skipDigits (skipChar (· ∈ ['+', '-']) cs.tail) else cs

/-- What is left after the longest run of characters that looks like a number. -/
def skipNumber (cs : List Char) : List Char :=
  skipExponent (skipFraction (skipDigits (skipChar (· = '-') cs)))

/-- The characters that `skipNumber` skips. -/
def numberToken (cs : List Char) : List Char := cs.take (cs.length - (skipNumber cs).length)

def readNumber (cs : List Char) : Option (JVal × List Char) :=
  (Binary64.parse (numberToken cs)).map fun n => (.num n, skipNumber cs)

theorem skipBlanks_suffix (cs : List Char) : skipBlanks cs <:+ cs := List.dropWhile_suffix _

theorem skipChar_suffix (p : Char → Bool) (cs : List Char) : skipChar p cs <:+ cs := by
  unfold skipChar
  split
  · exact List.tail_suffix cs
  · exact List.suffix_refl cs

theorem skipDigits_suffix (cs : List Char) : skipDigits cs <:+ cs := List.dropWhile_suffix _

theorem skipFraction_suffix (cs : List Char) : skipFraction cs <:+ cs := by
  unfold skipFraction
  split
  · exact (skipDigits_suffix _).trans (List.tail_suffix cs)
  · exact List.suffix_refl cs

theorem skipExponent_suffix (cs : List Char) : skipExponent cs <:+ cs := by
  unfold skipExponent
  split
  · exact (skipDigits_suffix _).trans ((skipChar_suffix _ _).trans (List.tail_suffix cs))
  · exact List.suffix_refl cs

theorem skipNumber_suffix (cs : List Char) : skipNumber cs <:+ cs :=
  (skipExponent_suffix _).trans ((skipFraction_suffix _).trans
    ((skipDigits_suffix _).trans (skipChar_suffix _ cs)))

theorem numberToken_append (cs : List Char) : numberToken cs ++ skipNumber cs = cs := by
  obtain ⟨tok, htok⟩ := skipNumber_suffix cs
  have hlen : cs.length = tok.length + (skipNumber cs).length := by
    rw [← List.length_append, htok]
  have htake : numberToken cs = tok := by
    rw [numberToken, hlen, Nat.add_sub_cancel]
    exact List.prefix_iff_eq_take.mp ⟨_, htok⟩ |>.symm
  rw [htake, htok]

theorem parse_nil : Binary64.parse [] = none := by decide

theorem readNumber_shrinks {cs : List Char} {v : JVal} {rest : List Char}
    (hread : readNumber cs = some (v, rest)) : rest.length < cs.length := by
  simp only [readNumber, Option.map_eq_some_iff, Prod.mk.injEq] at hread
  obtain ⟨n, hparse, -, rfl⟩ := hread
  have hne : numberToken cs ≠ [] := by
    intro hnil
    rw [hnil, parse_nil] at hparse
    cases hparse
  have hpos := List.length_pos_iff.mpr hne
  have hlen := congrArg List.length (numberToken_append cs)
  rw [List.length_append] at hlen
  omega

/-! ## Strings -/

/-- Four hexadecimal digits, as the integer reader takes them. -/
def readQuad (cs : List Char) : Option (Nat × List Char) :=
  if cs.length < 4 then none
  else (fromStrRadix16 (cs.take 4)).map fun n => (n, cs.drop 4)

/-- The character of a `\u` escape and what follows it. -/
def readUnicode (cs : List Char) : Option (Char × List Char) :=
  (readQuad cs).bind fun (hi, cs) =>
    if 0xD800 ≤ hi ∧ hi < 0xDC00 ∧ cs.take 2 = ['\\', 'u'] then
      (readQuad (cs.drop 2)).map fun (lo, cs) =>
        (if 0xDC00 ≤ lo ∧ lo < 0xE000 then
          (fromU32 (0x10000 + (hi - 0xD800) * 2 ^ 10 + (lo - 0xDC00))).getD '\uFFFD'
        else '\uFFFD', cs)
    else some ((fromU32 hi).getD '\uFFFD', cs)

def escapedChar (c : Char) : Option Char := (escapes.find? fun e => c = e.1).map Prod.snd

/-- One character of a string. -/
def readItem : List Char → Option (Char × List Char)
  | [] => none
  | '\\' :: cs =>
      match cs with
      | [] => none
      | c :: cs =>
          if c = 'u' then readUnicode cs
          else (escapedChar c).map fun d => (d, cs)
  | c :: cs => if c.toNat < 0x20 then none else some (c, cs)

theorem readItem_raw {c : Char} (hc : c ≠ '\\') (cs : List Char) :
    readItem (c :: cs) = if c.toNat < 0x20 then none else some (c, cs) := by
  rw [readItem.eq_def]
  split
  next heq => cases heq
  next heq =>
    cases heq
    exact absurd rfl hc
  next heq =>
    cases heq
    rfl

theorem readQuad_shrinks {cs : List Char} {n : Nat} {rest : List Char}
    (hread : readQuad cs = some (n, rest)) : rest.length < cs.length := by
  unfold readQuad at hread
  split at hread
  · cases hread
  next hlen =>
    simp only [Option.map_eq_some_iff, Prod.mk.injEq] at hread
    obtain ⟨_, _, _, rfl⟩ := hread
    rw [List.length_drop]
    omega

theorem readUnicode_shrinks {cs : List Char} {c : Char} {rest : List Char}
    (hread : readUnicode cs = some (c, rest)) : rest.length < cs.length := by
  simp only [readUnicode, Option.bind_eq_some_iff] at hread
  obtain ⟨⟨hi, mid⟩, hhi, hread⟩ := hread
  have hmid := readQuad_shrinks hhi
  dsimp only at hread
  split at hread
  · simp only [Option.map_eq_some_iff] at hread
    obtain ⟨⟨lo, last⟩, hlo, hread⟩ := hread
    obtain rfl : last = rest := congrArg Prod.snd hread
    have hlast := readQuad_shrinks hlo
    have hdrop : (mid.drop 2).length ≤ mid.length := by simp
    omega
  · simp only [Option.some.injEq, Prod.mk.injEq] at hread
    obtain ⟨-, rfl⟩ := hread
    exact hmid

theorem readItem_shrinks {cs : List Char} {c : Char} {rest : List Char}
    (hread : readItem cs = some (c, rest)) : rest.length < cs.length := by
  unfold readItem at hread
  split at hread
  · cases hread
  · split at hread
    · cases hread
    next d ds =>
      split at hread
      · have := readUnicode_shrinks hread
        simp only [List.length_cons]
        omega
      · simp only [Option.map_eq_some_iff, Prod.mk.injEq] at hread
        obtain ⟨_, _, _, rfl⟩ := hread
        simp only [List.length_cons]
        omega
  · split at hread
    · cases hread
    · simp only [Option.some.injEq, Prod.mk.injEq] at hread
      obtain ⟨-, rfl⟩ := hread
      simp

/-- The characters of a string up to its closing quote. -/
def readBody (cs : List Char) : Option (List Char × List Char) :=
  match cs with
  | [] => none
  | '"' :: rest => some ([], rest)
  | c :: tail =>
      match _hitem : readItem (c :: tail) with
      | none => none
      | some (d, rest) => (readBody rest).map fun (ds, rest) => (d :: ds, rest)
termination_by cs.length
decreasing_by exact readItem_shrinks _hitem

@[simp] theorem readBody_nil : readBody [] = none := by rw [readBody.eq_def]

@[simp] theorem readBody_quote (cs : List Char) : readBody ('"' :: cs) = some ([], cs) := by
  rw [readBody.eq_def]
  rfl

theorem readBody_item {c : Char} (hc : c ≠ '"') (cs : List Char) :
    readBody (c :: cs) = (readItem (c :: cs)).bind fun x =>
      (readBody x.2).map fun y => (x.1 :: y.1, y.2) := by
  rw [readBody.eq_def]
  split
  next heq => cases heq
  next heq =>
    cases heq
    exact absurd rfl hc
  next heq =>
    cases heq
    split
    next hitem => rw [hitem, Option.bind_none]
    next hitem => rw [hitem, Option.bind_some]

theorem readBody_shrinks {cs s rest : List Char} (hread : readBody cs = some (s, rest)) :
    rest.length < cs.length := by
  fun_induction readBody cs generalizing s rest with
  | case1 => cases hread
  | case2 tail =>
      simp only [Option.some.injEq, Prod.mk.injEq] at hread
      obtain ⟨-, rfl⟩ := hread
      simp
  | case3 => cases hread
  | case4 c tail _ d mid hitem ih =>
      simp only [Option.map_eq_some_iff, Prod.mk.injEq] at hread
      obtain ⟨⟨ds, last⟩, hbody, -, rfl⟩ := hread
      have := readItem_shrinks hitem
      have := ih hbody
      dsimp only
      omega

def readString : List Char → Option (String × List Char)
  | '"' :: cs => (readBody cs).map fun (s, rest) => (String.ofList s, rest)
  | _ => none

theorem readString_shrinks {cs : List Char} {s : String} {rest : List Char}
    (hread : readString cs = some (s, rest)) : rest.length < cs.length := by
  unfold readString at hread
  split at hread
  · simp only [Option.map_eq_some_iff, Prod.mk.injEq] at hread
    obtain ⟨_, hbody, -, rfl⟩ := hread
    have := readBody_shrinks hbody
    simp only [List.length_cons]
    omega
  · cases hread

/-! ## Values -/

/-- Elements between commas up to a closing character. -/
def readItems {α : Type} (element : Reader α) (close : Char) (cs : List Char) :
    Option (List α × List Char) :=
  match _hitem : element.run cs with
  | none => none
  | some (a, rest) =>
      match _hskip : skipBlanks rest with
      | [] => none
      | c :: tail =>
          if c = ',' then
            (readItems element close tail).map fun (as, rest) => (a :: as, rest)
          else if c = close then some ([a], tail)
          else none
termination_by cs.length
decreasing_by
  have hshort := element.shrinks _hitem
  have hle := (skipBlanks_suffix rest).length_le
  rw [_hskip, List.length_cons] at hle
  omega

theorem readItems_eq {α : Type} (element : Reader α) (close : Char) (cs : List Char) :
    readItems element close cs = (element.run cs).bind fun x =>
      match skipBlanks x.2 with
      | [] => none
      | c :: tail =>
          if c = ',' then (readItems element close tail).map fun y => (x.1 :: y.1, y.2)
          else if c = close then some ([x.1], tail)
          else none := by
  rw [readItems.eq_def]
  split
  next hitem => rw [hitem, Option.bind_none]
  next hitem =>
    rw [hitem, Option.bind_some]
    split <;> rename_i hskip <;> rw [hskip]

theorem readItems_shrinks {α : Type} {element : Reader α} {close : Char} {cs : List Char}
    {as : List α} {rest : List Char} (hread : readItems element close cs = some (as, rest)) :
    rest.length < cs.length := by
  fun_induction readItems element close cs generalizing as rest with
  | case1 => cases hread
  | case2 => cases hread
  | case3 cs a mid hitem tail hskip ih =>
      simp only [Option.map_eq_some_iff, Prod.mk.injEq] at hread
      obtain ⟨⟨_, last⟩, hlast, -, rfl⟩ := hread
      have := ih hlast
      have := element.shrinks hitem
      have hle := (skipBlanks_suffix mid).length_le
      rw [hskip, List.length_cons] at hle
      dsimp only
      omega
  | case4 cs a mid hitem tail hskip _ =>
      simp only [Option.some.injEq, Prod.mk.injEq] at hread
      obtain ⟨-, rfl⟩ := hread
      have := element.shrinks hitem
      have hle := (skipBlanks_suffix mid).length_le
      rw [hskip, List.length_cons] at hle
      omega
  | case5 => cases hread

/-- A key and its value. -/
def readPair (value : Reader JVal) (cs : List Char) : Option ((String × JVal) × List Char) :=
  (readString (skipBlanks cs)).bind fun x =>
    if (skipBlanks x.2).head? = some ':' then
      (value.run (skipBlanks x.2).tail).map fun y => ((x.1, y.1), y.2)
    else none

def pairReader (value : Reader JVal) : Reader (String × JVal) where
  run := readPair value
  shrinks := by
    intro cs kv rest hread
    simp only [readPair, Option.bind_eq_some_iff] at hread
    obtain ⟨⟨key, mid⟩, hkey, hread⟩ := hread
    dsimp only at hread
    have hcs := (skipBlanks_suffix cs).length_le
    have hmid := (skipBlanks_suffix mid).length_le
    have := readString_shrinks hkey
    split at hread
    · simp only [Option.map_eq_some_iff, Prod.mk.injEq] at hread
      obtain ⟨⟨v, last⟩, hval, -, rfl⟩ := hread
      have := value.shrinks hval
      rw [List.length_tail] at this
      dsimp only
      omega
    · cases hread

/-- Elements in brackets, none if the closing bracket comes at once. -/
def readList {α : Type} (element : Reader α) (close : Char) (cs : List Char) :
    Option (List α × List Char) :=
  if (skipBlanks cs).head? = some close then some ([], (skipBlanks cs).tail)
  else readItems element close (skipBlanks cs)

/-- One of the three words. -/
def readWord (word : String) (v : JVal) (cs : List Char) : Option (JVal × List Char) :=
  if word.toList <+: cs then some (v, cs.drop word.toList.length) else none

/-- A value that begins at once, given how the elements of its containers are read. -/
def readHere (element : Reader JVal) : List Char → Option (JVal × List Char)
  | [] => none
  | c :: rest =>
      if c = '{' then
        (readList (pairReader element) '}' rest).map fun x => (.obj x.1, x.2)
      else if c = '[' then (readList element ']' rest).map fun x => (.arr x.1, x.2)
      else if c = '"' then (readBody rest).map fun x => (.str (String.ofList x.1), x.2)
      else if c = 't' then readWord "true" (.bool true) (c :: rest)
      else if c = 'f' then readWord "false" (.bool false) (c :: rest)
      else if c = 'n' then readWord "null" .null (c :: rest)
      else if c = '-' ∨ c.isDigit then readNumber (c :: rest)
      else none

/-- A value after blanks. -/
def readValue (element : Reader JVal) (cs : List Char) : Option (JVal × List Char) :=
  readHere element (skipBlanks cs)

theorem readList_shrinks {α : Type} {element : Reader α} {close : Char} {cs : List Char}
    {as : List α} {rest : List Char} (hread : readList element close cs = some (as, rest)) :
    rest.length ≤ cs.length := by
  have hcs := (skipBlanks_suffix cs).length_le
  unfold readList at hread
  split at hread
  · simp only [Option.some.injEq, Prod.mk.injEq] at hread
    obtain ⟨-, rfl⟩ := hread
    rw [List.length_tail]
    omega
  · have := readItems_shrinks hread
    omega

theorem readWord_shrinks {word : String} (hword : 0 < word.toList.length) {v w : JVal}
    {cs rest : List Char} (hread : readWord word v cs = some (w, rest)) :
    rest.length < cs.length := by
  unfold readWord at hread
  split at hread
  next hbegins =>
    have hle := hbegins.length_le
    simp only [Option.some.injEq, Prod.mk.injEq] at hread
    obtain ⟨-, rfl⟩ := hread
    rw [List.length_drop]
    omega
  · cases hread

theorem readHere_shrinks {element : Reader JVal} {cs : List Char} {v : JVal} {rest : List Char}
    (hread : readHere element cs = some (v, rest)) : rest.length < cs.length := by
  have hmap : ∀ {α : Type} {o : Option (α × List Char)} {f : α → JVal} {n : Nat},
      (∀ a ds, o = some (a, ds) → ds.length ≤ n) →
      o.map (fun x => (f x.1, x.2)) = some (v, rest) → rest.length < n + 1 := by
    intro α o f n ho heq
    simp only [Option.map_eq_some_iff, Prod.mk.injEq] at heq
    obtain ⟨x, hx, -, rfl⟩ := heq
    have := ho x.1 x.2 hx
    omega
  cases cs with
  | nil => cases hread
  | cons c tail =>
      rw [readHere] at hread
      rw [List.length_cons]
      split at hread
      · exact hmap (fun _ _ h => readList_shrinks h) hread
      split at hread
      · exact hmap (fun _ _ h => readList_shrinks h) hread
      split at hread
      · exact hmap (f := fun s => .str (String.ofList s)) (fun _ _ h => (readBody_shrinks h).le)
          hread
      split at hread
      · exact readWord_shrinks (by decide) hread
      split at hread
      · exact readWord_shrinks (by decide) hread
      split at hread
      · exact readWord_shrinks (by decide) hread
      split at hread
      · exact readNumber_shrinks hread
      · cases hread

theorem readValue_shrinks {element : Reader JVal} {cs : List Char} {v : JVal} {rest : List Char}
    (hread : readValue element cs = some (v, rest)) : rest.length < cs.length :=
  (readHere_shrinks hread).trans_le (skipBlanks_suffix cs).length_le

/-- Values with the given number of levels of nesting. -/
def valueReader : Nat → Reader JVal
  | 0 => ⟨fun _ => none, by intro _ _ _ h; cases h⟩
  | levels + 1 => ⟨readValue (valueReader levels), readValue_shrinks⟩

/-- A whole text that is one value between blanks. -/
def readText (cs : List Char) : Option JVal :=
  ((valueReader (Parser.depthLimit + 1)).run cs).bind fun x =>
    if skipBlanks x.2 = [] then some x.1 else none

end PowerForensics.Json
