import PowerForensics.Core.RedactIdentifiers
import PowerForensics.Text.LineScan

/-! # Redaction and lines

All rules but two see a line by itself. A token that contains a line feed is found across two
lines, and a quoted value goes on until its quote is closed, on whatever line. Where neither
happens, a text is redacted line by line.
-/

namespace PowerForensics.Redact

open Scanner Lines

/-! ## Looking at a line -/

section Line

variable {line rest : List Char}

theorem takeWhile_line {p : Char → Bool} (hp : p '\n' = false) :
    (line ++ '\n' :: rest).takeWhile p = line.takeWhile p := by
  induction line with
  | nil => simp [hp]
  | cons c line ih =>
      rw [List.cons_append, List.takeWhile_cons, List.takeWhile_cons, ih]

theorem drop_takeWhile (p : Char → Bool) (tail : List Char) :
    (line ++ tail).drop (line.takeWhile p).length =
      line.drop (line.takeWhile p).length ++ tail :=
  List.drop_append_of_le_length (List.takeWhile_prefix p).length_le

theorem head_line {p : Char → Bool} (hp : p '\n' = false) :
    (line ++ '\n' :: rest).head?.any p = line.head?.any p := by
  cases line with
  | nil => simp [hp]
  | cons c line => rfl

theorem newline_ne_toLower {c : Char} (hc : '\n' ≠ c) : '\n' ≠ c.toLower := by
  intro heq
  have hval := congrArg Char.val heq
  rw [toLower_val c] at hval
  split at hval
  next hupper => grind [UInt32.toNat_add]
  next => exact hc (Char.ext hval)

theorem startsWithCi_line {pat : List Char} (hpat : '\n' ∉ pat) :
    startsWithCi pat (line ++ '\n' :: rest) = startsWithCi pat line := by
  induction pat generalizing line with
  | nil => simp [startsWithCi]
  | cons p pat ih =>
      obtain ⟨hp, hpat⟩ := not_or.mp (mt List.mem_cons.mpr hpat)
      cases line with
      | nil => simp [startsWithCi, newline_ne_toLower hp]
      | cons c line =>
          rw [List.cons_append, startsWithCi, startsWithCi, ih hpat]

theorem length_sub_line (u v : List Char) :
    (u ++ '\n' :: rest).length - (v ++ '\n' :: rest).length = u.length - v.length := by
  rw [List.length_append, List.length_append, Nat.add_sub_add_right]

theorem isPrefixOf_line {pat : List Char} (hpat : '\n' ∉ pat) :
    pat.isPrefixOf (line ++ '\n' :: rest) = pat.isPrefixOf line := by
  induction pat generalizing line with
  | nil => simp
  | cons p pat ih =>
      obtain ⟨hp, hpat⟩ := not_or.mp (mt List.mem_cons.mpr hpat)
      cases line with
      | nil => simp [List.isPrefixOf, Ne.symm hp]
      | cons c line =>
          rw [List.cons_append, List.isPrefixOf, List.isPrefixOf, ih hpat]

end Line

/-! ## Rules that see a line by itself -/

section Rules

variable {prev : Option Char} {line rest : List Char}

theorem lined_token {needle replacement : List Char} (hneedle : '\n' ∉ needle)
    (hreplacement : '\n' ∉ replacement) : Lined (tokenRule needle replacement) where
  sound := sound_token needle replacement
  fresh := fun text => rfl
  clean := by
    intro prev text p hp
    obtain ⟨rfl, -⟩ := tokenRule_eq_some hp
    exact hreplacement
  within := by
    intro prev line rest hline
    unfold tokenRule
    rw [startsWithCi_line hneedle]
    by_cases hbegins : startsWithCi needle line = true
    · rw [List.drop_append_of_le_length (startsWithCi_length hbegins), head_line rfl]
    · simp [hbegins]

theorem lined_drive : Lined driveRule where
  sound := masking_drive.sound
  fresh := by
    intro text
    unfold driveRule
    rfl
  clean := by
    intro prev text p hp
    unfold driveRule at hp
    split at hp
    next =>
      split at hp
      · obtain rfl := Option.some.inj hp
        have hmask : '\n' ∉ "<path>".toList := by decide
        exact hmask
      · cases hp
    next => cases hp
  within := by
    intro prev line rest _
    have hbreak : '\n'.isAlpha = false := rfl
    rcases line with _ | ⟨c, _ | ⟨d, _ | ⟨s, line⟩⟩⟩
    · rcases rest with _ | ⟨d, _ | ⟨s, rest⟩⟩
      · rfl
      · simp [driveRule]
      · by_cases hd : d = ':'
        · subst hd
          simp [driveRule, hbreak]
        · simp [driveRule, hd]
    · simp [driveRule]
    · by_cases hd : d = ':'
      · subst hd
        simp [driveRule]
      · simp [driveRule, hd]
    · by_cases hd : d = ':'
      · subst hd
        simp only [driveRule, List.cons_append]
        rw [takeWhile_line rfl]
      · simp [driveRule, hd]

theorem lined_unc : Lined uncRule where
  sound := masking_unc.sound
  fresh := fun text => rfl
  clean := by
    intro prev text p hp
    unfold uncRule at hp
    split at hp
    next =>
      dsimp only at hp
      split at hp
      · obtain rfl := Option.some.inj hp
        have hmask : '\n' ∉ "\\\\<host>\\".toList := by decide
        exact hmask
      · cases hp
    next => cases hp
  within := by
    intro prev line rest _
    rcases line with _ | ⟨c, _ | ⟨d, line⟩⟩
    · simp [uncRule]
    · simp [uncRule]
    · by_cases hcd : c = '\\' ∧ d = '\\'
      · obtain ⟨rfl, rfl⟩ := hcd
        simp only [uncRule, List.cons_append]
        have hhead : ((line ++ '\n' :: rest).drop (line.takeWhile isComponentChar).length).head? =
            some '\\' ↔ (line.drop (line.takeWhile isComponentChar).length).head? = some '\\' := by
          rw [drop_takeWhile]
          cases line.drop (line.takeWhile isComponentChar).length <;> simp
        rw [takeWhile_line rfl]
        simp only [hhead]
      · have hnone : ∀ text, uncRule prev (c :: d :: text) = none := by
          intro text
          unfold uncRule
          split
          next heq =>
            obtain ⟨rfl, htail⟩ := List.cons.inj heq
            obtain ⟨rfl, _⟩ := List.cons.inj htail
            exact absurd ⟨rfl, rfl⟩ hcd
          next => rfl
        rw [List.cons_append, List.cons_append, hnone, hnone]

theorem lined_profile {root mask : String} (hsound : Sound (profileRule root mask))
    (hroot : '\n' ∉ root.toList) (hmask : '\n' ∉ mask.toList) : Lined (profileRule root mask) where
  sound := hsound
  fresh := fun text => rfl
  clean := by
    intro prev text p hp
    unfold profileRule at hp
    split at hp
    · obtain rfl := Option.some.inj hp
      exact hmask
    · cases hp
  within := by
    intro prev line rest _
    unfold profileRule
    rw [startsWithCi_line hroot]
    by_cases hbegins : startsWithCi root.toList line = true
    · have hlength : root.length ≤ line.length := startsWithCi_length hbegins
      rw [List.drop_append_of_le_length hlength, takeWhile_line rfl]
    · simp [hbegins]

theorem lined_path : Lined pathRule :=
  lined_drive.or <| lined_unc.or <|
    (lined_profile (masking_profile (by decide) (by decide)).sound (by decide) (by decide)).or <|
      lined_profile (masking_profile (by decide) (by decide)).sound (by decide) (by decide)

theorem lined_guid : Lined guidRule where
  sound := masking_guid.sound
  fresh := fun text => rfl
  clean := by
    intro prev text p hp
    unfold guidRule at hp
    dsimp only at hp
    split at hp
    · obtain rfl := Option.some.inj hp
      have hmask : '\n' ∉ "<guid>".toList := by decide
      exact hmask
    · cases hp
  within := by
    intro prev line rest _
    unfold guidRule
    rw [takeWhile_line rfl, head_line rfl]

theorem titleLength_line (hline : '\n' ∉ line) :
    titleLength (line ++ '\n' :: rest) = titleLength line := by
  fun_induction titleLength line with
  | case1 => rfl
  | case2 => exact absurd List.mem_cons_self hline
  | case3 tail => rfl
  | case4 c tail hc hspaces ih =>
      have htail : '\n' ∉ tail := fun h => hline (List.mem_cons_of_mem c h)
      rw [← ih htail, List.cons_append]
      refine titleLength.eq_4 c _ hc fun more hspace htwo => ?_
      rcases tail with _ | ⟨d, tail⟩
      · simp at htwo
      · obtain ⟨rfl, _⟩ := List.cons.inj htwo
        exact hspaces tail hspace rfl

theorem titleRule_line {heading : String} (hheading : '\n' ∉ heading.toList)
    (hline : '\n' ∉ line) :
    titleRule heading (line ++ '\n' :: rest) = titleRule heading line := by
  unfold titleRule
  rw [isPrefixOf_line hheading]
  by_cases hbegins : heading.toList.isPrefixOf line = true
  · have hlength : heading.length ≤ line.length := (List.isPrefixOf_iff_prefix.mp hbegins).length_le
    have hdrop : '\n' ∉ line.drop heading.length := fun h => hline (List.mem_of_mem_drop h)
    rw [List.drop_append_of_le_length hlength, titleLength_line hdrop]
  · simp [hbegins]

theorem clean_title {heading : String} {text : List Char} {p : Patch}
    (hp : titleRule heading text = some p) : '\n' ∉ p.mask := by
  unfold titleRule at hp
  split at hp
  · obtain rfl := Option.some.inj hp
    have hmask : '\n' ∉ "<redacted>".toList := by decide
    exact hmask
  · cases hp

theorem lined_titled : Lined titledRule where
  sound := heading_titled.sound
  fresh := by
    intro text
    simp [titledRule]
  clean := by
    intro prev text p hp
    unfold titledRule at hp
    split at hp
    · obtain hp | ⟨_, hp⟩ := Option.or_eq_some_iff.mp hp
      · exact clean_title hp
      · exact clean_title hp
    · cases hp
  within := by
    intro prev line rest hline
    unfold titledRule
    rw [titleRule_line (by decide) hline, titleRule_line (by decide) hline]

theorem lined_pid : Lined pidRule where
  sound := heading_pid.sound
  fresh := fun text => rfl
  clean := by
    intro prev text p hp
    unfold pidRule at hp
    split at hp
    · cases hp
    · obtain ⟨label, _, hp⟩ := Option.bind_eq_some_iff.mp hp
      dsimp only at hp
      split at hp
      · cases hp
      · obtain rfl := Option.some.inj hp
        have hmask : '\n' ∉ "<pid>".toList := by decide
        exact hmask
  within := by
    intro prev line rest _
    have hlabel : pidLabel (line ++ '\n' :: rest) = pidLabel line := by
      simp only [pidLabel, List.find?]
      rw [startsWithCi_line (by decide), startsWithCi_line (by decide)]
    unfold pidRule
    rw [hlabel]
    cases hfound : pidLabel line with
    | none => rfl
    | some label =>
        have hbegins : startsWithCi label.toList line = true := by
          simpa using List.find?_some hfound
        have hlength : label.length ≤ line.length := startsWithCi_length hbegins
        simp only [Option.bind_some, bind]
        rw [List.drop_append_of_le_length hlength, takeWhile_line rfl, drop_takeWhile,
          takeWhile_line rfl]

theorem macGroups_not_hex {separator a b : Char} {tail : List Char}
    (hhex : ¬(isHex a && isHex b) = true) :
    macGroups separator (a :: b :: tail) = (0, a :: b :: tail) := by
  unfold macGroups
  rw [if_neg hhex]

theorem macGroups_line {separator : Char} (hseparator : separator ≠ '\n') (text : List Char) :
    macGroups separator (text ++ '\n' :: rest) =
      ((macGroups separator text).1, (macGroups separator text).2 ++ '\n' :: rest) := by
  have hbreak : isHex '\n' = false := rfl
  fun_induction macGroups separator text with
  | case1 a b hhex tail groups ih => simp [macGroups, hhex, ih, groups]
  | case2 a b hhex c tail hc => simp [macGroups, hhex, hc]
  | case3 a b hhex => simp [macGroups, hhex, Ne.symm hseparator]
  | case4 a b tail hhex => exact macGroups_not_hex hhex
  | case5 text hshort =>
      rcases text with _ | ⟨a, _ | ⟨b, text⟩⟩
      · cases rest with
        | nil => rfl
        | cons c rest => exact macGroups_not_hex (by simp [hbreak])
      · exact macGroups_not_hex (by simp [hbreak])
      · exact absurd rfl (hshort a b text)

theorem lined_mac : Lined macRule where
  sound := masking_mac.sound
  fresh := fun text => rfl
  clean := by
    intro prev text p hp
    unfold macRule at hp
    split at hp
    next =>
      dsimp only at hp
      split at hp
      · obtain rfl := Option.some.inj hp
        have hmask : '\n' ∉ "<mac>".toList := by decide
        exact hmask
      · cases hp
    next => cases hp
  within := by
    intro prev line rest hline
    have hbreak : isHex '\n' = false := rfl
    rcases line with _ | ⟨a, _ | ⟨b, _ | ⟨s, line⟩⟩⟩
    · rcases rest with _ | ⟨b, _ | ⟨s, rest⟩⟩
      · rfl
      · rfl
      · simp [macRule, hbreak]
    · rcases rest with _ | ⟨s, rest⟩
      · rfl
      · simp [macRule, hbreak]
    · simp [macRule]
    · have hs : s ≠ '\n' := by
        rintro rfl
        simp at hline
      have hgroups := @macGroups_line rest s hs (a :: b :: s :: line)
      have hlength := @length_sub_line rest (a :: b :: s :: line)
        (macGroups s (a :: b :: s :: line)).2
      simp only [List.cons_append] at hgroups hlength
      simp only [macRule, List.cons_append, hgroups]
      rw [head_line rfl, hlength]

theorem ipv4Groups_line (n : Nat) (text : List Char) :
    ipv4Groups n (text ++ '\n' :: rest) =
      (ipv4Groups n text).map (· ++ '\n' :: rest) := by
  induction n generalizing text with
  | zero => rfl
  | succ n ih =>
      unfold ipv4Groups
      dsimp only
      rw [takeWhile_line rfl, drop_takeWhile]
      split
      · rfl
      · split
        · rfl
        · rcases text.drop (text.takeWhile Char.isDigit).length with _ | ⟨c, tail⟩
          · simp
          · by_cases hc : c = '.'
            · subst hc
              exact ih tail
            · simp [hc]

theorem lined_ipv4 : Lined ipv4Rule where
  sound := masking_ipv4.sound
  fresh := fun text => rfl
  clean := by
    intro prev text p hp
    unfold ipv4Rule at hp
    split at hp
    · obtain ⟨_, _, hp⟩ := Option.bind_eq_some_iff.mp hp
      split at hp
      · cases hp
      · obtain rfl := Option.some.inj hp
        have hmask : '\n' ∉ "<ip>".toList := by decide
        exact hmask
    · cases hp
  within := by
    intro prev line rest _
    unfold ipv4Rule
    rw [head_line rfl, ipv4Groups_line]
    cases hgroups : ipv4Groups 4 line with
    | none => rfl
    | some after =>
        simp only [Option.map_some, Option.bind_some, bind]
        rw [head_line (by decide), length_sub_line]

end Rules

/-! ## Quoted values -/

/-- What is read of a keyed value before the value: the key, its placeholder and the length. -/
structure KeyHead where
  key : List Char
  placeholder : String
  size : Nat

def keyHead (prev : Option Char) (text : List Char) : Option KeyHead :=
  let key := text.takeWhile isWord
  if key ≠ [] ∧ ¬prev.any isWord then do
    let placeholder ← keyPlaceholder key
    let n ← separatorLength (text.drop key.length)
    return ⟨key, placeholder, key.length + n⟩
  else none

theorem keyedRule_eq (prev : Option Char) (text : List Char) :
    keyedRule prev text = (keyHead prev text).bind fun head =>
      valuePatch head.key head.placeholder head.size (text.drop head.size) := by
  unfold keyedRule keyHead
  dsimp only
  split
  · cases keyPlaceholder (text.takeWhile isWord) with
    | none => rfl
    | some placeholder =>
        cases separatorLength (text.drop (text.takeWhile isWord).length) with
        | none => rfl
        | some n => rfl
  · rfl

/-- The value that a quote opens, and whether the quote is closed. -/
def quotedText : List Char → Option (List Char × Bool)
  | '"' :: quoted =>
      some (quoted.take (quotedLength quoted), decide (quotedLength quoted < quoted.length))
  | _ => none

/-- The quoted value of a key at a place. -/
def quotedAt (v : Option Char × List Char) : Option (List Char × Bool) :=
  (keyHead v.1 v.2).bind fun head => quotedText (v.2.drop head.size)

/-- The quoted values of listed keys that are read in a text. -/
def quotedValues (text : List Char) : List (List Char × Bool) :=
  (visited keyedRule 0 none text).filterMap quotedAt

section Quotes

variable {prev : Option Char} {line rest : List Char}

theorem separatorLength_line :
    separatorLength (line ++ '\n' :: rest) = separatorLength line := by
  unfold separatorLength
  dsimp only
  rw [takeWhile_line rfl, drop_takeWhile]
  rcases line.drop (line.takeWhile (· = ' ')).length with _ | ⟨c, tail⟩
  · simp
  · simp only [List.cons_append]
    rw [takeWhile_line rfl]

theorem keyHead_line : keyHead prev (line ++ '\n' :: rest) = keyHead prev line := by
  unfold keyHead
  rw [takeWhile_line rfl]
  dsimp only
  rw [drop_takeWhile, separatorLength_line]

theorem keyHead_spec {text : List Char} {head : KeyHead} (h : keyHead prev text = some head) :
    keyPlaceholder head.key = some head.placeholder ∧ head.size ≤ text.length := by
  unfold keyHead at h
  dsimp only at h
  split at h
  next =>
    obtain ⟨placeholder, hplaceholder, h⟩ := Option.bind_eq_some_iff.mp h
    obtain ⟨n, hn, h⟩ := Option.bind_eq_some_iff.mp h
    obtain rfl := Option.some.inj h
    obtain ⟨-, hle, -⟩ := separatorLength_eq_some hn
    have hkey := (List.takeWhile_prefix isWord (l := text)).length_le
    rw [List.length_drop] at hle
    exact ⟨hplaceholder, by dsimp only; omega⟩
  next => cases h

theorem quotedLength_plain {c : Char} (hquote : c ≠ '"') (hescape : c ≠ '\\') (tail : List Char) :
    quotedLength (c :: tail) = quotedLength tail + 1 :=
  quotedLength.eq_4 c tail hquote fun _ _ h => absurd h hescape

/-- A quote that is closed in a text stays closed there. -/
theorem quotedLength_closed {text : List Char} (h : quotedLength text < text.length)
    (tail : List Char) : quotedLength (text ++ tail) = quotedLength text := by
  fun_induction quotedLength text with
  | case1 => cases h
  | case2 => rfl
  | case3 c rest ih =>
      simp only [List.length_cons] at h
      simpa [quotedLength] using ih (by omega)
  | case4 c rest hquote hescape ih =>
      simp only [List.length_cons] at h
      by_cases hc : c = '\\'
      · subst hc
        rcases rest with _ | ⟨d, rest⟩
        · simp [quotedLength] at h
        · exact absurd rfl (hescape d rest rfl)
      · rw [List.cons_append, quotedLength_plain hquote hc, ih (by omega)]

/-- A quote that is not closed goes on. -/
theorem quotedLength_open {text : List Char} (h : quotedLength text = text.length) {c : Char}
    (hc : c ≠ '"') (tail : List Char) : text.length < quotedLength (text ++ c :: tail) := by
  fun_induction quotedLength text with
  | case1 =>
      by_cases hescape : c = '\\'
      · subst hescape
        cases tail with
        | nil => simp [quotedLength]
        | cons d tail => simp [quotedLength]
      · simp [quotedLength_plain hc hescape]
  | case2 => cases h
  | case3 d rest ih =>
      simp only [List.length_cons] at h
      have hrest := ih (by omega)
      simpa [quotedLength] using hrest
  | case4 d rest hquote hescape ih =>
      simp only [List.length_cons] at h
      by_cases hd : d = '\\'
      · subst hd
        rcases rest with _ | ⟨e, rest⟩
        · simp [quotedLength]
        · exact absurd rfl (hescape e rest rfl)
      · have hrest := ih (by omega)
        rw [List.cons_append, quotedLength_plain hquote hd, List.length_cons]
        omega

theorem quotedText_none {text : List Char} (h : quotedText text = none) :
    quotedText (text ++ '\n' :: rest) = none := by
  unfold quotedText at h ⊢
  split at h
  next => cases h
  next hquote =>
    split
    next heq =>
      rcases text with _ | ⟨c, text⟩
      · simp at heq
      · obtain ⟨rfl, _⟩ := List.cons.inj heq
        exact absurd rfl (hquote text)
    next => rfl

theorem quotedText_eq_some {text value : List Char} {closed : Bool}
    (h : quotedText text = some (value, closed)) :
    ∃ quoted, text = '"' :: quoted ∧ value = quoted.take (quotedLength quoted) ∧
      closed = decide (quotedLength quoted < quoted.length) := by
  unfold quotedText at h
  split at h
  next quoted =>
    obtain ⟨rfl, rfl⟩ := Prod.mk.inj (Option.some.inj h)
    exact ⟨quoted, rfl, rfl, rfl⟩
  next => cases h

theorem quotedText_closed {text value : List Char} (h : quotedText text = some (value, true)) :
    quotedText (text ++ '\n' :: rest) = some (value, true) := by
  obtain ⟨quoted, rfl, rfl, hclosed⟩ := quotedText_eq_some h
  have hlt := of_decide_eq_true hclosed.symm
  have hmore : quotedLength quoted < (quoted ++ '\n' :: rest).length := by
    rw [List.length_append]
    omega
  rw [List.cons_append, quotedText, quotedLength_closed hlt, decide_eq_true hmore,
    List.take_append_of_le_length hlt.le]

theorem quotedText_open {text value : List Char} (h : quotedText text = some (value, false)) :
    ∃ more closed, quotedText (text ++ '\n' :: rest) = some (more, closed) ∧ '\n' ∈ more := by
  obtain ⟨quoted, rfl, rfl, hclosed⟩ := quotedText_eq_some h
  have hall : quotedLength quoted = quoted.length :=
    le_antisymm (quotedLength_le quoted) (not_lt.mp (of_decide_eq_false hclosed.symm))
  have hmore := quotedLength_open hall (by decide : '\n' ≠ '"') rest
  have hmem : '\n' ∈ (quoted ++ '\n' :: rest).take (quotedLength (quoted ++ '\n' :: rest)) := by
    rw [List.take_append, List.take_cons (by omega)]
    simp
  exact ⟨_, _, rfl, hmem⟩

/-- The quote of the value at a place, if there is one, is closed. -/
def Shut (v : Option Char × List Char) : Prop := ∀ value, quotedAt v ≠ some (value, false)

theorem quotedAt_shut {v : Option Char × List Char} (h : Shut v) :
    quotedAt (v.1, v.2 ++ '\n' :: rest) = quotedAt v := by
  unfold Shut quotedAt at h
  unfold quotedAt
  dsimp only
  rw [keyHead_line]
  cases hhead : keyHead v.1 v.2 with
  | none => rfl
  | some head =>
      rw [hhead] at h
      simp only [Option.bind_some] at h ⊢
      rw [List.drop_append_of_le_length (keyHead_spec hhead).2]
      rcases hquoted : quotedText (v.2.drop head.size) with _ | ⟨value, _ | _⟩
      · exact quotedText_none hquoted
      · exact absurd hquoted (h value)
      · exact quotedText_closed hquoted

theorem quotedAt_open {v : Option Char × List Char} (h : ¬Shut v) :
    ∃ more closed, quotedAt (v.1, v.2 ++ '\n' :: rest) = some (more, closed) ∧ '\n' ∈ more := by
  obtain ⟨value, hvalue⟩ := not_forall_not.mp h
  obtain ⟨head, hhead, hquoted⟩ := Option.bind_eq_some_iff.mp hvalue
  have hmore := @quotedText_open rest _ _ hquoted
  unfold quotedAt
  dsimp only
  rw [keyHead_line, hhead, Option.bind_some,
    List.drop_append_of_le_length (keyHead_spec hhead).2]
  exact hmore

theorem valuePatch_bare {key text : List Char} {placeholder : String} {read : Nat}
    (h : text.head? ≠ some '"') :
    valuePatch key placeholder read text =
      let value := text.takeWhile (isBareChar key)
      if value = [] then none
      else if keepValue key value then some ⟨read + value.length, 0, [], 0⟩
      else some ⟨read, value.length, placeholder.toList, 0⟩ := by
  unfold valuePatch
  split
  next => exact absurd rfl h
  next => rfl

theorem valuePatch_line {key text : List Char} {placeholder : String} {read : Nat}
    (h : ∀ value, quotedText text ≠ some (value, false)) :
    valuePatch key placeholder read (text ++ '\n' :: rest) =
      valuePatch key placeholder read text := by
  have hbreak : isBareChar key '\n' = false := by
    unfold isBareChar
    split <;> rfl
  by_cases hquote : text.head? = some '"'
  · obtain ⟨quoted, rfl⟩ := List.head?_eq_some_iff.mp hquote
    have hlt : quotedLength quoted < quoted.length := by
      by_contra hle
      exact h _ (by rw [quotedText, decide_eq_false hle])
    have hmore : quotedLength quoted < (quoted ++ '\n' :: rest).length := by
      rw [List.length_append]
      omega
    simp only [List.cons_append, valuePatch]
    rw [quotedLength_closed hlt, List.take_append_of_le_length hlt.le, if_pos hlt, if_pos hmore]
  · have hmore : (text ++ '\n' :: rest).head? ≠ some '"' := by
      cases text with
      | nil => simp
      | cons c text => exact hquote
    rw [valuePatch_bare hquote, valuePatch_bare hmore, takeWhile_line hbreak]

/-- Where no quote is left open, the rule does not see beyond the line. -/
theorem agrees_of_shut {v : Option Char × List Char} (h : Shut v) :
    Agrees keyedRule ('\n' :: rest) v := by
  unfold Shut quotedAt at h
  unfold Agrees
  rw [keyedRule_eq, keyedRule_eq, keyHead_line]
  cases hhead : keyHead v.1 v.2 with
  | none => rfl
  | some head =>
      rw [hhead] at h
      simp only [Option.bind_some] at h ⊢
      rw [List.drop_append_of_le_length (keyHead_spec hhead).2]
      exact valuePatch_line h

theorem keyPlaceholder_clean {key : List Char} {placeholder : String}
    (h : keyPlaceholder key = some placeholder) : '\n' ∉ placeholder.toList := by
  unfold keyPlaceholder at h
  dsimp only at h
  repeat' split at h
  all_goals
    first
    | cases h
      decide
    | cases h

theorem keyedRule_clean {text : List Char} {p : Patch} (hp : keyedRule prev text = some p) :
    '\n' ∉ p.mask := by
  rw [keyedRule_eq] at hp
  obtain ⟨head, hhead, hp⟩ := Option.bind_eq_some_iff.mp hp
  have hclean := keyPlaceholder_clean (keyHead_spec hhead).1
  obtain ⟨quoted, closing, -, -, ⟨-, rfl⟩ | rfl⟩ | ⟨-, -, ⟨-, rfl⟩ | rfl⟩ := valuePatch_eq_some hp
  · exact List.not_mem_nil
  · exact hclean
  · exact List.not_mem_nil
  · exact hclean

theorem keyedRule_fresh : Fresh keyedRule := fun _ => rfl

theorem keyedRule_stop (prev : Option Char) (rest : List Char) :
    keyedRule prev ('\n' :: rest) = none := by
  rw [keyedRule_eq]
  rfl

/-! ## Lines with quoted values -/

/-- Every quote that the line opens for a value is closed in it. -/
def Closed (line : List Char) : Prop := ∀ value ∈ quotedValues line, value.2 = true

theorem shut_of_closed (h : Closed line) : ∀ v ∈ visited keyedRule 0 none line, Shut v := by
  intro v hv value hvalue
  have hclosed := h (value, false) (List.mem_filterMap.mpr ⟨v, hv, hvalue⟩)
  cases hclosed

theorem maskKeyed_ofPieces {ls : List (List Char)} (hls : ∀ l ∈ ls.dropLast, Closed l) :
    maskKeyedIdentifiers (ofPieces ls) = ofPieces (ls.map maskKeyedIdentifiers) :=
  scan_ofPieces heading_keyed.sound keyedRule_fresh keyedRule_stop fun l hl _ v hv =>
    agrees_of_shut (shut_of_closed (hls l hl) v hv)

/-- The values of a closed line are those that it has by itself. -/
theorem quotedValues_closed (h : Closed line) :
    quotedValues (line ++ '\n' :: rest) = quotedValues line ++ quotedValues rest := by
  have hshut := shut_of_closed h
  have hfirst : ∀ prev, quotedAt (prev, '\n' :: rest) = none := fun _ => rfl
  unfold quotedValues
  rw [visited_front heading_keyed.sound (Nat.zero_le _) fun v hv => agrees_of_shut (hshut v hv),
    List.filterMap_append, List.filterMap_map]
  congr 1
  · exact List.filterMap_congr fun v hv => quotedAt_shut (hshut v hv)
  · simp only [visited, List.filterMap_cons, hfirst, keyedRule_stop]
    exact filterMap_visited_fresh keyedRule_fresh (fun _ => rfl) rest

/-- A value is a part of what it is read from. -/
theorem mem_of_value {text : List Char} {value : List Char × Bool}
    (hvalue : value ∈ quotedValues text) {c : Char} (hc : c ∈ value.1) : c ∈ text := by
  obtain ⟨v, hv, hquoted⟩ := List.mem_filterMap.mp hvalue
  obtain ⟨head, _, hquoted⟩ := Option.bind_eq_some_iff.mp hquoted
  obtain ⟨quoted, hsplit, hsame, _⟩ := quotedText_eq_some hquoted
  rw [hsame] at hc
  have hdrop : c ∈ v.2.drop head.size := by
    rw [hsplit]
    exact List.mem_cons_of_mem _ (List.mem_of_mem_take hc)
  exact (visited_suffix hv).subset (List.mem_of_mem_drop hdrop)

/-- The value of a quote that is left open goes on behind the line. -/
theorem exists_broken (h : ¬Closed line) (rest : List Char) :
    ∃ value ∈ quotedValues (line ++ '\n' :: rest), '\n' ∈ value.1 := by
  have hopen : ∃ v ∈ visited keyedRule 0 none line, ¬Shut v := by
    by_contra hall
    refine h fun value hvalue => ?_
    obtain ⟨v, hv, hquoted⟩ := List.mem_filterMap.mp hvalue
    have hshut : Shut v := by
      by_contra hnot
      exact hall ⟨v, hv, hnot⟩
    obtain ⟨text, _ | _⟩ := value
    · exact absurd hquoted (hshut text)
    · rfl
  have hfirst : ∃ v ∈ visited keyedRule 0 none line, ¬Shut v ∧
      (v.1, v.2 ++ '\n' :: rest) ∈ visited keyedRule 0 none (line ++ '\n' :: rest) :=
    exists_visited heading_keyed.sound (Nat.zero_le _)
      (fun v _ hshut => agrees_of_shut (not_not.mp hshut)) hopen
  obtain ⟨v, _, hnot, hin⟩ := hfirst
  obtain ⟨more, closed, hquoted, hmem⟩ := @quotedAt_open rest v hnot
  exact ⟨(more, closed), List.mem_filterMap.mpr ⟨_, hin, hquoted⟩, hmem⟩

/-- No value goes on behind its line exactly if every line but the last is closed. -/
theorem closed_iff {ls : List (List Char)} (hls : ∀ l ∈ ls, '\n' ∉ l) :
    (∀ value ∈ quotedValues (ofPieces ls), '\n' ∉ value.1) ↔ ∀ l ∈ ls.dropLast, Closed l := by
  induction ls with
  | nil => simp [quotedValues, visited]
  | cons l ls ih =>
      rw [List.forall_mem_cons] at hls
      rcases ls with _ | ⟨m, ls⟩
      · simp only [ofPieces_singleton, List.dropLast_singleton, List.not_mem_nil, false_imp_iff,
          implies_true, iff_true]
        exact fun value hvalue hmem => hls.1 (mem_of_value hvalue hmem)
      · rw [ofPieces_cons l (List.cons_ne_nil m ls),
          List.dropLast_cons_of_ne_nil (List.cons_ne_nil m ls), List.forall_mem_cons, ← ih hls.2]
        constructor
        · intro h
          have hclosed : Closed l := by
            by_contra hopen
            obtain ⟨value, hvalue, hmem⟩ := exists_broken hopen (ofPieces (m :: ls))
            exact h value hvalue hmem
          rw [quotedValues_closed hclosed] at h
          exact ⟨hclosed, fun value hvalue => h value (List.mem_append_right _ hvalue)⟩
        · rintro ⟨hclosed, h⟩ value hvalue hmem
          rw [quotedValues_closed hclosed] at hvalue
          obtain hvalue | hvalue := List.mem_append.mp hvalue
          · exact hls.1 (mem_of_value hvalue hmem)
          · exact h value hvalue hmem

end Quotes

/-! ## Tokens with line feeds -/

/-- A needle stands somewhere in a text, at identifier boundaries. -/
def Occurs (needle text : List Char) : Prop :=
  ∃ before after, text = before ++ after ∧ (tokenRule needle [] before.getLast? after).isSome

/-- No token with a line feed is found in the text when its turn comes. -/
def TokensApart : Option String → List RedactToken → List Char → Prop
  | _, [], _ => True
  | last, item :: items, text =>
      if last = some item.value then TokensApart last items text
      else
        ('\n' ∈ item.value.toList → ¬Occurs item.value.toList text) ∧
          TokensApart (some item.value) items
            (replaceCiBounded item.value item.placeholder text)

section Tokens

variable {needle replacement text : List Char}

theorem newline_mem_of_startsWithCi {pat : List Char} (h : startsWithCi pat text)
    (hpat : '\n' ∈ pat) : '\n' ∈ text.take pat.length := by
  by_contra hnot
  have hlower := map_toLower_take h
  have hin : '\n' ∈ (text.take pat.length).map Char.toLower := by
    rw [hlower]
    exact List.mem_map.mpr ⟨'\n', hpat, rfl⟩
  obtain ⟨c, hc, heq⟩ := List.mem_map.mp hin
  by_cases hbreak : '\n' = c
  · exact hnot (hbreak ▸ hc)
  · exact newline_ne_toLower hbreak heq.symm

theorem occurs_of_rule {prev : Option Char} {before after : List Char} {p : Patch}
    (hprev : prev = before.getLast?) (hp : tokenRule needle replacement prev after = some p)
    (hsplit : text = before ++ after) : Occurs needle text := by
  obtain ⟨-, hmatch⟩ := tokenRule_eq_some hp
  refine ⟨before, after, hsplit, ?_⟩
  rw [tokenRule, ← hprev, if_pos hmatch]
  rfl

/-- A needle with a line feed does not stand in a line. -/
theorem not_occurs_line (hneedle : '\n' ∈ needle) (htext : '\n' ∉ text) :
    ¬Occurs needle text := by
  rintro ⟨before, after, rfl, hfound⟩
  obtain ⟨p, hp⟩ := Option.isSome_iff_exists.mp hfound
  obtain ⟨-, -, hbegins, -⟩ := tokenRule_eq_some hp
  have hmem := List.mem_of_mem_take (newline_mem_of_startsWithCi hbegins hneedle)
  exact htext (List.mem_append_right before hmem)

theorem lastChar_none (before : List Char) : lastChar none before = before.getLast? := by
  rw [lastChar, Option.or_none]
  exact Option.map_id' ..

theorem scan_of_not_occurs (h : ¬Occurs needle text) :
    scan (tokenRule needle replacement) text = text := by
  refine scanFrom_eq_self fun before after hsplit _ => ?_
  cases hp : tokenRule needle replacement (lastChar none before) after with
  | none => rfl
  | some p => exact absurd (occurs_of_rule (lastChar_none before) hp hsplit) h

theorem count_lt_of_occurs (hneedle : '\n' ∈ needle) (hreplacement : '\n' ∉ replacement)
    (h : Occurs needle text) :
    (scan (tokenRule needle replacement) text).count '\n' < text.count '\n' := by
  have hclean : ∀ prev text p, tokenRule needle replacement prev text = some p →
      '\n' ∉ p.mask := by
    intro prev text p hp
    obtain ⟨rfl, -⟩ := tokenRule_eq_some hp
    exact hreplacement
  have htakes : ∀ (prev : Option Char) (window rest : List Char) (p : Patch),
      tokenRule needle replacement prev (window ++ rest) = some p → window.length = p.size →
      (p.write window).count '\n' < window.count '\n' := by
    intro prev window rest p hp hsize
    obtain ⟨rfl, -, hbegins, -⟩ := tokenRule_eq_some hp
    have hlength : needle.length = window.length := by
      rw [hsize, Patch.size]
      simp
    have hmem := newline_mem_of_startsWithCi hbegins hneedle
    rw [hlength, List.take_left] at hmem
    have hmask : (replacement.map (plain : Char → Char)).count '\n' = 0 :=
      List.count_eq_zero.mpr (by simpa [plain] using hreplacement)
    have hpos : 0 < window.count '\n' := List.count_pos_iff.mpr hmem
    simp only [Patch.write, List.take_zero, List.nil_append, Nat.zero_add, List.count_append, hmask,
      hlength, List.drop_length, List.count_nil]
    exact hpos
  obtain ⟨-, hnone⟩ | hlt :=
    (scans_scan (sound_token needle replacement) text).idle_or_count_lt hclean htakes
  · obtain ⟨before, after, hsplit, hfound⟩ := h
    obtain ⟨p, hp⟩ := Option.isSome_iff_exists.mp hfound
    obtain ⟨-, hmatch⟩ := tokenRule_eq_some hp
    have hne : after ≠ [] := by
      rintro rfl
      rw [rule_nil (sound_token needle [])] at hp
      cases hp
    have hmissed := hnone before after hsplit hne
    rw [lastChar_none, tokenRule, if_pos hmatch] at hmissed
    cases hmissed
  · exact hlt

/-- A token is replaced line by line unless it has a line feed and is found. -/
theorem replace_ofPieces {item : RedactToken} (hitem : '\n' ∉ item.placeholder.toList)
    {ls : List (List Char)} (hls : ∀ l ∈ ls, '\n' ∉ l)
    (hapart : '\n' ∈ item.value.toList → ¬Occurs item.value.toList (ofPieces ls)) :
    replaceCiBounded item.value item.placeholder (ofPieces ls) =
      ofPieces (ls.map (replaceCiBounded item.value item.placeholder)) := by
  by_cases hvalue : '\n' ∈ item.value.toList
  · have hsame : ∀ l ∈ ls, replaceCiBounded item.value item.placeholder l = id l := fun l hl =>
      scan_of_not_occurs (not_occurs_line hvalue (hls l hl))
    rw [List.map_congr_left hsame, List.map_id]
    exact scan_of_not_occurs (hapart hvalue)
  · exact (lined_token hvalue hitem).scan_ofPieces hls

theorem token_clean {item : RedactToken} (hitem : '\n' ∉ item.placeholder.toList) :
    ∀ prev text p, tokenRule item.value.toList item.placeholder.toList prev text = some p →
      '\n' ∉ p.mask := by
  intro prev text p hp
  obtain ⟨rfl, -⟩ := tokenRule_eq_some hp
  exact hitem

theorem maskItems_ofPieces {items : List RedactToken}
    (hitems : ∀ item ∈ items, '\n' ∉ item.placeholder.toList) {last : Option String}
    {ls : List (List Char)} (hls : ∀ l ∈ ls, '\n' ∉ l)
    (h : TokensApart last items (ofPieces ls)) :
    maskItems last items (ofPieces ls) = ofPieces (ls.map (maskItems last items)) := by
  induction items generalizing last ls with
  | nil => exact congrArg ofPieces (List.map_id ls).symm
  | cons item items ih =>
      rw [List.forall_mem_cons] at hitems
      by_cases hlast : last = some item.value
      · rw [TokensApart, if_pos hlast] at h
        have hskip : ∀ text : List Char,
            maskItems last (item :: items) text = maskItems last items text := fun text => by
          rw [maskItems, if_pos hlast]
        rw [hskip, ih hitems.2 hls h]
        exact congrArg ofPieces (List.map_congr_left fun l _ => (hskip l).symm)
      · rw [TokensApart, if_neg hlast] at h
        have hstep : ∀ text : List Char, maskItems last (item :: items) text =
            maskItems (some item.value) items
              (replaceCiBounded item.value item.placeholder text) := fun text => by
          rw [maskItems, if_neg hlast]
        have hreplace := replace_ofPieces hitems.1 hls h.1
        have hclean : ∀ l ∈ ls.map (replaceCiBounded item.value item.placeholder), '\n' ∉ l := by
          intro l hl
          obtain ⟨line, hline, rfl⟩ := List.mem_map.mp hl
          exact not_mem_scan (sound_token _ _) (token_clean hitems.1) (hls line hline)
        rw [hstep, hreplace, ih hitems.2 hclean (hreplace ▸ h.2), List.map_map]
        exact congrArg ofPieces (List.map_congr_left fun l _ => (hstep l).symm)

theorem count_maskItems_le {items : List RedactToken}
    (hitems : ∀ item ∈ items, '\n' ∉ item.placeholder.toList) (last : Option String)
    (text : List Char) : (maskItems last items text).count '\n' ≤ text.count '\n' := by
  induction items generalizing last text with
  | nil => exact le_refl _
  | cons item items ih =>
      rw [List.forall_mem_cons] at hitems
      rw [maskItems]
      split
      · exact ih hitems.2 last text
      · exact (ih hitems.2 _ _).trans
          (count_scan_le (sound_token _ _) (token_clean hitems.1) text)

/-- Where no line feed is lost, no token with a line feed has been found. -/
theorem tokensApart_of_count {items : List RedactToken}
    (hitems : ∀ item ∈ items, '\n' ∉ item.placeholder.toList) {last : Option String}
    (h : text.count '\n' ≤ (maskItems last items text).count '\n') :
    TokensApart last items text := by
  induction items generalizing last text with
  | nil => trivial
  | cons item items ih =>
      rw [List.forall_mem_cons] at hitems
      rw [maskItems] at h
      rw [TokensApart]
      split at h
      next hlast =>
        rw [if_pos hlast]
        exact ih hitems.2 h
      next hlast =>
        rw [if_neg hlast]
        have hrest := count_maskItems_le hitems.2 (some item.value)
          (replaceCiBounded item.value item.placeholder text)
        have hscan : (replaceCiBounded item.value item.placeholder text).count '\n' ≤
            text.count '\n' := count_scan_le (sound_token _ _) (token_clean hitems.1) text
        refine ⟨fun hvalue hoccurs => ?_, ih hitems.2 (hscan.trans h)⟩
        have hlt : (replaceCiBounded item.value item.placeholder text).count '\n' <
            text.count '\n' := count_lt_of_occurs hvalue hitems.1 hoccurs
        omega

theorem items_clean {tokens : List RedactToken}
    (htokens : ∀ t ∈ tokens, '\n' ∉ t.placeholder.toList) :
    ∀ item ∈ items tokens, '\n' ∉ item.placeholder.toList := by
  intro item hitem
  obtain ⟨hmem, -⟩ := List.mem_filter.mp ((List.mem_insertionSort _).mp hitem)
  obtain ⟨t, ht, rfl⟩ := List.mem_map.mp hmem
  exact htokens t ht

end Tokens

/-! ## Reports -/

/-- The report is redacted line by line, and no quoted value goes on behind its line. -/
structure KeepsLines (tokens : List RedactToken) (text : List Char) : Prop where
  count : (pieces (redactReportIdentifiers text tokens)).length = (pieces text).length
  apart : pieces (redactReportIdentifiers text tokens) =
    (pieces text).map fun line => redactReportIdentifiers line tokens
  inside : ∀ value ∈ quotedValues (maskWindowsPaths (maskIdentifiers tokens text)),
    '\n' ∉ value.1

/-- No token with a line feed is found, and every line but the last closes the quotes that it
opens for values, as they stand when its tokens and paths are masked. -/
structure LinesClosed (tokens : List RedactToken) (text : List Char) : Prop where
  found : TokensApart none (items tokens) text
  quotes : ∀ line ∈ (pieces text).dropLast, Closed (maskWindowsPaths (maskIdentifiers tokens line))

section Reports

variable {tokens : List RedactToken} {text : List Char}

/-- What is done to a text before the keyed values. -/
def masked (tokens : List RedactToken) (text : List Char) : List Char :=
  maskWindowsPaths (maskIdentifiers tokens text)

/-- What is done to a text after the keyed values. -/
def finished (text : List Char) : List Char :=
  maskIpv4 (maskMac (maskPids (maskGuids (maskTitledLabels text))))

theorem redact_eq (tokens : List RedactToken) (text : List Char) :
    redactReportIdentifiers text tokens = finished (maskKeyedIdentifiers (masked tokens text)) :=
  rfl

theorem lineWise_finished : LineWise finished :=
  lined_ipv4.lineWise.comp <| lined_mac.lineWise.comp <| lined_pid.lineWise.comp <|
    lined_guid.lineWise.comp lined_titled.lineWise

theorem masked_clean (htokens : ∀ t ∈ tokens, '\n' ∉ t.placeholder.toList) {line : List Char}
    (hline : '\n' ∉ line) : '\n' ∉ masked tokens line := by
  refine lined_path.lineWise.clean _ ?_
  have hle := count_maskItems_le (items_clean htokens) none line
  rw [← List.count_eq_zero] at hline ⊢
  exact Nat.le_zero.mp (hle.trans hline.le)

theorem masked_ofPieces (htokens : ∀ t ∈ tokens, '\n' ∉ t.placeholder.toList)
    (h : TokensApart none (items tokens) text) :
    masked tokens text = ofPieces ((pieces text).map (masked tokens)) := by
  have hlines : ∀ l ∈ pieces text, '\n' ∉ l := fun l hl => not_mem_pieces hl
  have hitems := items_clean htokens
  have happly : TokensApart none (items tokens) (ofPieces (pieces text)) := by
    rwa [ofPieces_pieces]
  have htext := maskItems_ofPieces hitems hlines happly
  rw [ofPieces_pieces] at htext
  have hclean : ∀ l ∈ (pieces text).map (maskItems none (items tokens)), '\n' ∉ l := by
    intro l hl
    obtain ⟨line, hline, rfl⟩ := List.mem_map.mp hl
    have hle := count_maskItems_le hitems none line
    have hzero := List.count_eq_zero.mpr (hlines line hline)
    exact List.count_eq_zero.mp (Nat.le_zero.mp (hle.trans hzero.le))
  have hpaths := lined_path.lineWise.apart _ hclean
  rw [← htext, List.map_map] at hpaths
  exact hpaths

theorem count_redactFinish_le (text : List Char) :
    (redactFinish text).count '\n' ≤ text.count '\n' := by
  have hkeyed : (maskKeyedIdentifiers (maskWindowsPaths text)).count '\n' ≤
      (maskWindowsPaths text).count '\n' :=
    count_scan_le heading_keyed.sound (fun _ _ _ hp => keyedRule_clean hp) _
  exact (lined_ipv4.count_le _).trans <| (lined_mac.count_le _).trans <|
    (lined_pid.count_le _).trans <| (lined_guid.count_le _).trans <|
      (lined_titled.count_le _).trans <| hkeyed.trans (lined_path.count_le _)

theorem apart_of_keepsLines (htokens : ∀ t ∈ tokens, '\n' ∉ t.placeholder.toList)
    (h : KeepsLines tokens text) : TokensApart none (items tokens) text := by
  have hcount := h.count
  rw [length_pieces, length_pieces] at hcount
  have hfinish : (redactReportIdentifiers text tokens).count '\n' ≤
      (maskIdentifiers tokens text).count '\n' := count_redactFinish_le _
  exact tokensApart_of_count (items_clean htokens)
    (by rw [← Nat.succ_injective hcount]; exact hfinish)

/-- Redaction keeps the lines of a text apart exactly if no token is found across lines and every
line but the last closes its quotes. -/
theorem keepsLines_iff (tokens : List RedactToken)
    (htokens : ∀ t ∈ tokens, '\n' ∉ t.placeholder.toList) (text : List Char) :
    KeepsLines tokens text ↔ LinesClosed tokens text := by
  have hlines : ∀ l ∈ pieces text, '\n' ∉ l := fun l hl => not_mem_pieces hl
  have hmasked : ∀ l ∈ (pieces text).map (masked tokens), '\n' ∉ l := by
    intro l hl
    obtain ⟨line, hline, rfl⟩ := List.mem_map.mp hl
    exact masked_clean htokens (hlines line hline)
  have hquotes : (∀ l ∈ ((pieces text).map (masked tokens)).dropLast, Closed l) ↔
      ∀ line ∈ (pieces text).dropLast, Closed (masked tokens line) := by
    rw [← List.map_dropLast, List.forall_mem_map]
  constructor
  · intro h
    have hapart := apart_of_keepsLines htokens h
    have hinside : ∀ value ∈ quotedValues (masked tokens text), '\n' ∉ value.1 := h.inside
    rw [masked_ofPieces htokens hapart, closed_iff hmasked] at hinside
    exact ⟨hapart, hquotes.mp hinside⟩
  · rintro ⟨hapart, hclosed⟩
    have hfront := masked_ofPieces htokens hapart
    have hinside : ∀ value ∈ quotedValues (masked tokens text), '\n' ∉ value.1 := by
      rw [hfront, closed_iff hmasked]
      exact hquotes.mpr hclosed
    -- tokens, keyed values and the scanners behind them take the lines one by one
    have hkeyed : ∀ l ∈ ((pieces text).map (masked tokens)).map maskKeyedIdentifiers,
        '\n' ∉ l := by
      intro l hl
      obtain ⟨line, hline, rfl⟩ := List.mem_map.mp hl
      exact not_mem_scan heading_keyed.sound (fun _ _ _ hp => keyedRule_clean hp)
        (hmasked line hline)
    have hwhole : redactReportIdentifiers text tokens =
        ofPieces ((pieces text).map fun line => redactReportIdentifiers line tokens) := by
      rw [redact_eq, hfront, maskKeyed_ofPieces (hquotes.mpr hclosed),
        lineWise_finished.apart _ hkeyed, List.map_map, List.map_map]
      rfl
    have hlineWise : pieces (redactReportIdentifiers text tokens) =
        (pieces text).map fun line => redactReportIdentifiers line tokens := by
      rw [hwhole]
      refine pieces_ofPieces (by simp [pieces_ne_nil]) fun l hl => ?_
      obtain ⟨line, hline, rfl⟩ := List.mem_map.mp hl
      exact lineWise_finished.clean _ (not_mem_scan heading_keyed.sound
        (fun _ _ _ hp => keyedRule_clean hp) (masked_clean htokens (hlines line hline)))
    exact ⟨by rw [hlineWise, List.length_map], hlineWise, hinside⟩

end Reports

instance (line : List Char) : Decidable (Closed line) :=
  inferInstanceAs (Decidable (∀ value ∈ quotedValues line, value.2 = true))

/-- A report on a machine. -/
def machineLines : List Char := "host: \"ALICE-PC\"\nnote: slow \"again\"".toList

def machineTokens : List RedactToken := [⟨"ALICE-PC", "<host>"⟩]

theorem keepsLines_machine : KeepsLines machineTokens machineLines :=
  (keepsLines_iff machineTokens (by decide) machineLines).mpr
    ⟨⟨fun hvalue => absurd hvalue (by decide), trivial⟩, by decide⟩

/-- The quote in the first line is not closed. -/
def unclosedLines : List Char := "note: \"slow\nmedian: 7 W".toList

/-- Of two lines one is left. -/
theorem unclosed_swallows : ¬KeepsLines [] unclosedLines := by
  intro h
  have hcount := h.count
  have hbefore : (pieces unclosedLines).length = 2 := by decide
  have hafter : redactReportIdentifiers unclosedLines [] = "note: \"<redacted>".toList := by
    decide +kernel
  rw [hbefore, hafter] at hcount
  revert hcount
  decide

end PowerForensics.Redact
