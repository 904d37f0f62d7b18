import PowerForensics.Core.Redact

/-! # What the rules of redaction do

One lemma for each rule says which patches it makes. Most rules put a mask in the place of all
that they read; the others keep a word and what separates it from a value, and mask the value.
-/

namespace PowerForensics.Redact

open Scanner

/-! ## Masks -/

/-- A rule that replaces all that it reads by a mask in angle brackets, or by a path. -/
def Masking (rule : Rule) : Prop :=
  ∀ prev text p, rule prev text = some p →
    p.kept = 0 ∧ p.tail = 0 ∧ 0 < p.masked ∧ p.masked ≤ text.length ∧
      p.mask.head? ∈ [some '<', some '\\'] ∧ p.mask.getLast? ∈ [some '>', some '\\']

theorem masking_of {n : Nat} {mask text : List Char} (hpos : 0 < n) (hle : n ≤ text.length)
    (hmask : mask.head? ∈ [some '<', some '\\'] ∧ mask.getLast? ∈ [some '>', some '\\']) :
    let p : Patch := ⟨0, n, mask, 0⟩
    p.kept = 0 ∧ p.tail = 0 ∧ 0 < p.masked ∧ p.masked ≤ text.length ∧
      p.mask.head? ∈ [some '<', some '\\'] ∧ p.mask.getLast? ∈ [some '>', some '\\'] :=
  ⟨rfl, rfl, hpos, hle, hmask⟩

theorem Masking.sound {rule : Rule} (h : Masking rule) : Sound rule := by
  intro prev text p hp
  obtain ⟨hkept, htail, hpos, hle, -⟩ := h prev text p hp
  rw [Patch.size]
  omega

theorem Masking.or {rule rule' : Rule} (h : Masking rule) (h' : Masking rule') :
    Masking fun prev text => (rule prev text).or (rule' prev text) := by
  intro prev text p hp
  obtain hp | ⟨-, hp⟩ := Option.or_eq_some_iff.mp hp
  · exact h prev text p hp
  · exact h' prev text p hp

theorem startsWithCi_length {pat text : List Char} (h : startsWithCi pat text) :
    pat.length ≤ text.length := by
  induction pat generalizing text with
  | nil => exact Nat.zero_le _
  | cons c pat ih =>
      cases text with
      | nil => cases h
      | cons d text =>
          have htail : startsWithCi pat text := (Bool.and_eq_true_iff.mp h).2
          simpa using ih htail

theorem masking_drive : Masking driveRule := by
  intro prev text p hp
  unfold driveRule at hp
  split at hp
  · next c s rest =>
    split at hp
    · obtain rfl := Option.some.inj hp
      have hle := (List.takeWhile_sublist isPathChar (l := rest)).length_le
      refine masking_of (by omega) ?_ (by decide)
      simp only [List.length_cons]
      omega
    · cases hp
  · cases hp

theorem masking_unc : Masking uncRule := by
  intro prev text p hp
  unfold uncRule at hp
  split at hp
  · next rest =>
    dsimp only at hp
    split at hp
    · next hhost =>
      obtain rfl := Option.some.inj hp
      have hpos := List.length_pos_of_mem (List.mem_of_mem_head? hhost.2)
      rw [List.length_drop] at hpos
      refine masking_of (by omega) ?_ (by decide)
      simp only [List.length_cons]
      omega
    · cases hp
  · cases hp

theorem masking_profile {root mask : String} (hroot : root ≠ "")
    (hmask : mask.toList.head? ∈ [some '<', some '\\'] ∧
      mask.toList.getLast? ∈ [some '>', some '\\']) :
    Masking (profileRule root mask) := by
  intro prev text p hp
  unfold profileRule at hp
  split at hp
  · next hbegins =>
    obtain rfl := Option.some.inj hp
    have hlength := startsWithCi_length hbegins
    have hle := (List.takeWhile_sublist isComponentChar (l := text.drop root.length)).length_le
    have hpos : 0 < root.length := Nat.pos_of_ne_zero (by simpa using hroot)
    rw [String.length_toList] at hlength
    rw [List.length_drop] at hle
    exact masking_of (by omega) (by omega) hmask
  · cases hp

theorem masking_path : Masking pathRule :=
  masking_drive.or <| masking_unc.or <|
    (masking_profile (by decide) (by decide)).or (masking_profile (by decide) (by decide))

theorem masking_guid : Masking guidRule := by
  intro prev text p hp
  unfold guidRule at hp
  dsimp only at hp
  split at hp
  · next hrun =>
    obtain rfl := Option.some.inj hp
    exact masking_of (by omega) (List.takeWhile_sublist _).length_le (by decide)
  · cases hp

/-- Groups are read from the front. -/
theorem macGroups_length (separator : Char) (text : List Char) :
    (macGroups separator text).2.length + 2 * (macGroups separator text).1 ≤ text.length := by
  fun_induction macGroups separator text with
  | case1 a b hhex rest groups ih =>
      have hrest : groups.2.length + 2 * groups.1 ≤ rest.length := ih
      simp only [List.length_cons]
      omega
  | case2 => simp
  | case3 => simp
  | case4 => simp
  | case5 => simp

theorem masking_mac : Masking macRule := by
  intro prev text p hp
  unfold macRule at hp
  split at hp
  · next a b separator rest =>
    dsimp only at hp
    split at hp
    · next hgroups =>
      obtain rfl := Option.some.inj hp
      have hlength := macGroups_length separator (a :: b :: separator :: rest)
      exact masking_of (by omega) (by omega) (by decide)
    · cases hp
  · cases hp

theorem ipv4Groups_length {n : Nat} {text rest : List Char} (h : ipv4Groups n text = some rest) :
    rest.length + n ≤ text.length := by
  fun_induction ipv4Groups n text with
  | case1 => simp_all
  | case2 => cases h
  | case3 text group left hgroup =>
      have hpos : 0 < group.length := List.length_pos_of_ne_nil fun hnil => hgroup (Or.inl hnil)
      have hle : group.length ≤ text.length := (List.takeWhile_sublist _).length_le
      have hleft : left.length = text.length - group.length := List.length_drop
      obtain rfl := Option.some.inj h
      omega
  | case4 n text group left hgroup _ rest' hrest ih =>
      have hpos : 0 < group.length := List.length_pos_of_ne_nil fun hnil => hgroup (Or.inl hnil)
      have hleft : left.length = text.length - group.length := List.length_drop
      have hread := ih h
      rw [hrest, List.length_cons] at hleft
      omega
  | case5 => cases h

theorem masking_ipv4 : Masking ipv4Rule := by
  intro prev text p hp
  unfold ipv4Rule at hp
  split at hp
  · obtain ⟨rest, hrest, hp⟩ := Option.bind_eq_some_iff.mp hp
    split at hp
    · cases hp
    · obtain rfl := Option.some.inj hp
      have hlength := ipv4Groups_length hrest
      exact masking_of (by omega) (by omega) (by decide)
  · cases hp

/-! ## Tokens -/

theorem tokenRule_eq_some {needle replacement text : List Char} {prev : Option Char} {p : Patch}
    (hp : tokenRule needle replacement prev text = some p) :
    p = ⟨0, needle.length, replacement, 0⟩ ∧ needle ≠ [] ∧ startsWithCi needle text ∧
      ¬prev.any isIdent ∧ ¬(text.drop needle.length).head?.any isIdent := by
  unfold tokenRule at hp
  split at hp
  · next hmatch =>
    obtain rfl := Option.some.inj hp
    exact ⟨rfl, hmatch⟩
  · cases hp

theorem sound_token (needle replacement : List Char) : Sound (tokenRule needle replacement) := by
  intro prev text p hp
  obtain ⟨rfl, hneedle, hbegins, -⟩ := tokenRule_eq_some hp
  have hpos := List.length_pos_of_ne_nil hneedle
  have hlength := startsWithCi_length hbegins
  simp only [Patch.size]
  omega

/-! ## Words with a value -/

/-- A rule that keeps a word and what separates it from a value, which it masks, unless it keeps
the value, too. In the word, no letter but an n begins anew. -/
def Heading (rule : Rule) : Prop :=
  ∀ prev text p, rule prev text = some p →
    0 < p.kept ∧ p.size ≤ text.length ∧
      (p.Idle ∨ ∃ word separators value, text = word ++ separators ++ value ∧
        p.kept = word.length + separators.length ∧
        (∀ before c rest, word = before ++ c :: rest → before ≠ [] →
          (before.getLast?.any Char.isAlphanum = false) → c.toLower = 'n') ∧
        (∀ c ∈ separators, c.isAlphanum = false) ∧ p.mask.getLast? = some '>' ∧
        (p.tail = 0 ∨ p.tail = 1 ∧ (value.drop p.masked).head? = some '"'))

theorem Heading.sound {rule : Rule} (h : Heading rule) : Sound rule := by
  intro prev text p hp
  obtain ⟨hkept, hle, -⟩ := h prev text p hp
  rw [Patch.size] at hle ⊢
  omega

/-- A text whose last character is not like all its characters is empty. -/
theorem eq_nil_of_last {f : Char → Bool} {text : List Char} (hall : ∀ c ∈ text, f c)
    (hlast : text.getLast?.any f = false) : text = [] := by
  by_contra hne
  rw [List.getLast?_eq_some_getLast hne, Option.any_some, hall _ (List.getLast_mem hne)] at hlast
  cases hlast

/-- In a word of letters and digits nothing begins anew. -/
theorem not_anew_of_alphanum {word : List Char} (h : ∀ c ∈ word, c.isAlphanum) :
    ∀ before c rest, word = before ++ c :: rest → before ≠ [] →
      (before.getLast?.any Char.isAlphanum = false) → c.toLower = 'n' := by
  rintro before c rest rfl hbefore hlast
  exact absurd (eq_nil_of_last (fun c hc => h c (List.mem_append_left _ hc)) hlast) hbefore

theorem titleLength_le (text : List Char) : titleLength text ≤ text.length := by
  fun_induction titleLength text with
  | case1 => exact Nat.le_refl 0
  | case2 => exact Nat.zero_le _
  | case3 => exact Nat.zero_le _
  | case4 => simpa

theorem titleRule_eq_some {heading : String} {text : List Char} {p : Patch}
    (hp : titleRule heading text = some p) :
    ∃ rest, text = heading.toList ++ rest ∧
      p = ⟨heading.length, titleLength rest, "<redacted>".toList, 0⟩ := by
  unfold titleRule at hp
  split at hp
  · next hbegins =>
    obtain ⟨rest, rfl⟩ := List.isPrefixOf_iff_prefix.mp hbegins
    obtain rfl := Option.some.inj hp
    exact ⟨rest, rfl, by simp [← String.length_toList]⟩
  · cases hp

theorem heading_title {heading word : String} (hheading : heading.toList = word.toList ++ [' '])
    (hword : ∀ c ∈ word.toList, c.isAlphanum) {text : List Char} {p : Patch}
    (hp : titleRule heading text = some p) :
    0 < p.kept ∧ p.size ≤ text.length ∧
      (p.Idle ∨ ∃ word separators value, text = word ++ separators ++ value ∧
        p.kept = word.length + separators.length ∧
        (∀ before c rest, word = before ++ c :: rest → before ≠ [] →
          (before.getLast?.any Char.isAlphanum = false) → c.toLower = 'n') ∧
        (∀ c ∈ separators, c.isAlphanum = false) ∧ p.mask.getLast? = some '>' ∧
        (p.tail = 0 ∨ p.tail = 1 ∧ (value.drop p.masked).head? = some '"')) := by
  obtain ⟨rest, rfl, rfl⟩ := titleRule_eq_some hp
  have hle := titleLength_le rest
  have hlength : heading.length = word.toList.length + 1 := by
    rw [← String.length_toList, hheading, List.length_append, List.length_singleton]
  have hmask : "<redacted>".toList.getLast? = some '>' := by decide
  refine ⟨by dsimp only; omega, ?_, Or.inr ⟨word.toList, [' '], rest, by rw [hheading], hlength,
    not_anew_of_alphanum hword, by decide, hmask, Or.inl rfl⟩⟩
  simp only [Patch.size, List.length_append, String.length_toList]
  omega

theorem heading_titled : Heading titledRule := by
  intro prev text p hp
  unfold titledRule at hp
  split at hp
  · obtain hp | ⟨-, hp⟩ := Option.or_eq_some_iff.mp hp
    · exact @heading_title _ "DASHBOARD" (by decide) (by decide) _ _ hp
    · exact @heading_title _ "TIMELINE" (by decide) (by decide) _ _ hp
  · cases hp

theorem toLower_val (c : Char) :
    c.toLower.val = if c.val ≥ 'A'.val ∧ c.val ≤ 'Z'.val then c.val + ('a'.val - 'A'.val)
      else c.val := by
  split
  · next h => exact congrArg Char.val (dif_pos h)
  · next h => exact congrArg Char.val (dif_neg h)

theorem isAlphanum_val (c : Char) : c.isAlphanum =
    (decide (c.val ≥ 'A'.val ∧ c.val ≤ 'Z'.val) || (c.val ≥ 'a'.val && c.val ≤ 'z'.val) ||
      c.isDigit) := rfl

theorem isAlphanum_toLower (c : Char) : c.toLower.isAlphanum = c.isAlphanum := by
  simp only [isAlphanum_val, Char.isDigit, toLower_val]
  split <;> grind [UInt32.toNat_add, Char.toNat_val]

theorem map_toLower_take {pat text : List Char} (h : startsWithCi pat text) :
    (text.take pat.length).map Char.toLower = pat.map Char.toLower := by
  induction pat generalizing text with
  | nil => rfl
  | cons c pat ih =>
      cases text with
      | nil => cases h
      | cons d text =>
          obtain ⟨hhead, htail⟩ := Bool.and_eq_true_iff.mp h
          simp only [List.length_cons, List.take_succ_cons, List.map_cons]
          rw [ih htail, of_decide_eq_true hhead]

theorem takeWhile_append_drop (f : Char → Bool) (text : List Char) :
    text.takeWhile f ++ text.drop (text.takeWhile f).length = text :=
  List.prefix_iff_eq_append.mp (List.takeWhile_prefix f)

theorem takeWhile_append_edge {f : Char → Bool} {text rest : List Char} (htext : ∀ c ∈ text, f c)
    (hrest : rest.head?.any f = false) : (text ++ rest).takeWhile f = text := by
  rw [List.takeWhile_append_of_pos htext]
  cases rest with
  | nil => rw [List.takeWhile_nil, List.append_nil]
  | cons c rest => rw [List.takeWhile_cons_of_neg (by simpa using hrest), List.append_nil]

/-- A text from which something is taken begins with a character of the kind. -/
theorem head_of_takeWhile {f : Char → Bool} {c : Char} {text : List Char}
    (hne : (c :: text).takeWhile f ≠ []) : f c := by
  by_contra hnot
  exact hne (List.takeWhile_cons_of_neg hnot)

theorem pidRule_eq_some {prev : Option Char} {text : List Char} {p : Patch}
    (hp : pidRule prev text = some p) :
    prev.any isWord = false ∧ ∃ label separators digits rest,
      text = label ++ separators ++ digits ++ rest ∧
      label.map Char.toLower ∈ ["ppid".toList, "pid".toList] ∧
      (∀ c ∈ separators, isPidSeparator c) ∧ digits ≠ [] ∧ (∀ c ∈ digits, c.isDigit) ∧
      p = ⟨label.length + separators.length, digits.length, "<pid>".toList, 0⟩ := by
  unfold pidRule at hp
  split at hp
  · cases hp
  · next hprev =>
    obtain ⟨label, hlabel, hp⟩ := Option.bind_eq_some_iff.mp hp
    dsimp only at hp
    split at hp
    · cases hp
    · next hdigits =>
      have hstarts := List.find?_some hlabel
      have hlower := map_toLower_take hstarts
      have hmem := List.mem_of_find?_eq_some hlabel
      have hlength := startsWithCi_length hstarts
      rw [String.length_toList] at hlength hlower
      have htake : (text.take label.length).length = label.length := List.length_take_of_le hlength
      have hsplit := List.take_append_drop label.length text
      generalize text.drop label.length = rest at *
      have hseparators := takeWhile_append_drop isPidSeparator rest
      generalize hsep : rest.takeWhile isPidSeparator = separators at *
      generalize rest.drop separators.length = rest' at *
      have hrest := takeWhile_append_drop Char.isDigit rest'
      refine ⟨by simpa using hprev, text.take label.length, separators,
        rest'.takeWhile Char.isDigit,
        rest'.drop (rest'.takeWhile Char.isDigit).length, ?_, ?_, ?_, hdigits,
        fun c hc => List.mem_takeWhile_imp hc, ?_⟩
      · rw [List.append_assoc, List.append_assoc, hrest, hseparators, hsplit]
      · rw [hlower]
        obtain rfl | rfl := List.mem_pair.mp hmem <;> decide
      · intro c hc
        rw [← hsep] at hc
        exact List.mem_takeWhile_imp hc
      · rw [htake]
        exact (Option.some.inj hp).symm

theorem not_alphanum_of_separator {c : Char} (h : isPidSeparator c) : c.isAlphanum = false := by
  have hall : ∀ c ∈ " \t=:#\"'".toList, c.isAlphanum = false := by decide
  exact hall c (List.contains_iff_mem.mp h)

theorem heading_pid : Heading pidRule := by
  intro prev text p hp
  obtain ⟨-, label, separators, digits, rest, rfl, hlabel, hseparators, -, -, rfl⟩ :=
    pidRule_eq_some hp
  have hmask : "<pid>".toList.getLast? = some '>' := by decide
  have hletters : ∀ l ∈ ["ppid".toList, "pid".toList], 0 < l.length ∧ ∀ c ∈ l, c.isAlphanum := by
    decide
  obtain ⟨hpos, halphanum⟩ := hletters _ hlabel
  rw [List.length_map] at hpos
  refine ⟨by dsimp only; omega, ?_, Or.inr ⟨label, separators, digits ++ rest, by simp, rfl,
    not_anew_of_alphanum fun c hc => ?_, fun c hc => not_alphanum_of_separator (hseparators c hc),
    hmask, Or.inl rfl⟩⟩
  · simp only [Patch.size, List.length_append]
    omega
  · rw [← isAlphanum_toLower]
    exact halphanum _ (List.mem_map_of_mem hc)

/-! ## Keyed values -/

/-- All keys of which the values are masked. -/
def allKeys : List String :=
  ["ssid", "network", "user", "username", "owner", "account", "login", "host", "hostname",
    "computer", "machine", "server", "path", "file", "dir", "directory", "filename", "session",
    "label", "note", "detail", "message", "description", "command", "cmd", "args", "arguments",
    "device", "devicename", "device_name", "adapter", "adapter_name", "descr", "name", "display",
    "monitor", "gpu", "manufacturer", "model"]

theorem mem_allKeys {key : List Char} {placeholder : String}
    (h : keyPlaceholder key = some placeholder) :
    String.ofList (key.map Char.toLower) ∈ allKeys ∧ placeholder.toList.getLast? = some '>' := by
  have hlists : ∀ keys ∈ [["ssid", "network"], ["user", "username", "owner", "account", "login"],
      ["host", "hostname", "computer", "machine", "server"],
      ["path", "file", "dir", "directory", "filename"],
      ["session", "label", "note", "detail", "message", "description", "command", "cmd", "args",
        "arguments"],
      ["device", "devicename", "device_name", "adapter", "adapter_name", "descr", "name",
        "display", "monitor", "gpu", "manufacturer", "model"]], ∀ key ∈ keys, key ∈ allKeys := by
    decide
  unfold keyPlaceholder at h
  dsimp only at h
  repeat' split at h
  all_goals first
    | exact absurd h (Option.some_ne_none _).symm
    | next hmem =>
      obtain rfl := Option.some.inj h
      exact ⟨hlists _ (by simp) _ hmem, by decide⟩

theorem separatorLength_eq_some {text : List Char} {n : Nat} (h : separatorLength text = some n) :
    0 < n ∧ n ≤ text.length ∧ ∀ c ∈ text.take n, c = ' ' ∨ c = ':' ∨ c = '=' := by
  unfold separatorLength at h
  dsimp only at h
  have hsplit := takeWhile_append_drop (· = ' ') text
  have hgap : ∀ c ∈ text.takeWhile (· = ' '), c = ' ' := fun c hc => by
    simpa using List.mem_takeWhile_imp hc
  generalize text.takeWhile (· = ' ') = gap at *
  split at h
  · next c rest hrest =>
    split at h
    · next hc =>
      obtain rfl := Option.some.inj h
      have hinner := takeWhile_append_drop (· = ' ') rest
      have hgap' : ∀ c ∈ rest.takeWhile (· = ' '), c = ' ' := fun c hc => by
        simpa using List.mem_takeWhile_imp hc
      generalize rest.takeWhile (· = ' ') = gap' at *
      have htext : text = (gap ++ [c] ++ gap') ++ rest.drop gap'.length := by
        rw [List.append_assoc, hinner, List.append_assoc, List.singleton_append, ← hrest, hsplit]
      have hlength : gap.length + 1 + gap'.length = (gap ++ [c] ++ gap').length := by
        simp only [List.length_append, List.length_singleton]
      refine ⟨by omega, ?_, fun d hd => ?_⟩
      · rw [hlength, htext, @List.length_append _ (gap ++ [c] ++ gap')]
        exact Nat.le_add_right _ _
      · rw [hlength, htext, List.take_left] at hd
        simp only [List.mem_append, List.mem_singleton] at hd
        obtain (hd | rfl) | hd := hd
        · exact Or.inl (hgap d hd)
        · exact Or.inr hc
        · exact Or.inl (hgap' d hd)
    · cases h
  · cases h

theorem keyedRule_eq_some {prev : Option Char} {text : List Char} {p : Patch}
    (hp : keyedRule prev text = some p) :
    prev.any isWord = false ∧ ∃ key separators value placeholder,
      text = key ++ separators ++ value ∧ key = text.takeWhile isWord ∧ key ≠ [] ∧
      keyPlaceholder key = some placeholder ∧ (∀ c ∈ separators, c = ' ' ∨ c = ':' ∨ c = '=') ∧
      valuePatch key placeholder (key.length + separators.length) value = some p := by
  unfold keyedRule at hp
  dsimp only at hp
  split at hp
  · next hkey =>
    obtain ⟨placeholder, hplaceholder, hp⟩ := Option.bind_eq_some_iff.mp hp
    obtain ⟨n, hn, hp⟩ := Option.bind_eq_some_iff.mp hp
    obtain ⟨-, hle, hseparators⟩ := separatorLength_eq_some hn
    have hsplit := takeWhile_append_drop isWord text
    have hrest := List.take_append_drop n (text.drop (text.takeWhile isWord).length)
    rw [List.drop_drop] at hrest
    refine ⟨by simpa using hkey.2, _, _, text.drop ((text.takeWhile isWord).length + n),
      placeholder, ?_, rfl, hkey.1, hplaceholder, hseparators, ?_⟩
    · rw [List.append_assoc, hrest, hsplit]
    · rw [List.length_take_of_le hle]
      exact hp
  · cases hp

theorem quotedLength_le (text : List Char) : quotedLength text ≤ text.length := by
  fun_induction quotedLength text with
  | case1 => exact Nat.le_refl 0
  | case2 => exact Nat.zero_le _
  | case3 => simpa
  | case4 => simpa

/-- A quoted value ends with a quote unless it ends with the text. -/
theorem quotedLength_closing {text : List Char} (hlt : quotedLength text < text.length) :
    (text.drop (quotedLength text)).head? = some '"' := by
  fun_induction quotedLength text with
  | case1 => cases hlt
  | case2 => rfl
  | case3 c rest ih =>
      simp only [List.length_cons] at hlt
      simpa using ih (by omega)
  | case4 c rest _ _ ih =>
      simp only [List.length_cons] at hlt
      simpa using ih (by omega)

theorem quotedLength_add_le {quoted : List Char} {closing : Nat}
    (h : closing = 0 ∨ closing = 1 ∧ (quoted.drop (quotedLength quoted)).head? = some '"') :
    quotedLength quoted + closing ≤ quoted.length := by
  obtain rfl | ⟨rfl, hquote⟩ := h
  · exact quotedLength_le quoted
  · have hpos := List.length_pos_of_mem (List.mem_of_mem_head? hquote)
    rw [List.length_drop] at hpos
    omega

/-- A quoted value is masked or kept with its quotes, a bare one without. -/
theorem valuePatch_eq_some {key text : List Char} {placeholder : String} {read : Nat} {p : Patch}
    (hp : valuePatch key placeholder read text = some p) :
    (∃ quoted closing, text = '"' :: quoted ∧
      (closing = 0 ∨ closing = 1 ∧ (quoted.drop (quotedLength quoted)).head? = some '"') ∧
      (keepValue key (quoted.take (quotedLength quoted)) ∧
          p = ⟨read + 1 + quotedLength quoted + closing, 0, [], 0⟩ ∨
        p = ⟨read + 1, quotedLength quoted, placeholder.toList, closing⟩)) ∨
    (text.head? ≠ some '"' ∧ text.takeWhile (isBareChar key) ≠ [] ∧
      (keepValue key (text.takeWhile (isBareChar key)) ∧
          p = ⟨read + (text.takeWhile (isBareChar key)).length, 0, [], 0⟩ ∨
        p = ⟨read, (text.takeWhile (isBareChar key)).length, placeholder.toList, 0⟩)) := by
  unfold valuePatch at hp
  split at hp
  · next quoted =>
    dsimp only at hp
    refine Or.inl ⟨quoted, if quotedLength quoted < quoted.length then 1 else 0, rfl, ?_, ?_⟩
    · split
      · next hlt => exact Or.inr ⟨rfl, quotedLength_closing hlt⟩
      · exact Or.inl rfl
    · split at hp
      · next hkeep => exact Or.inl ⟨hkeep, (Option.some.inj hp).symm⟩
      · exact Or.inr (Option.some.inj hp).symm
  · next hquote =>
    dsimp only at hp
    have hhead : text.head? ≠ some '"' := fun hhead => by
      cases text with
      | nil => cases hhead
      | cons c text => exact hquote text (by rw [Option.some.inj hhead])
    split at hp
    · cases hp
    · next hvalue =>
      refine Or.inr ⟨hhead, hvalue, ?_⟩
      split at hp
      · next hkeep => exact Or.inl ⟨hkeep, (Option.some.inj hp).symm⟩
      · exact Or.inr (Option.some.inj hp).symm

theorem mem_zip_tail {α : Type} (front rest : List α) (b c : α) :
    (b, c) ∈ (front ++ b :: c :: rest).zip (front ++ b :: c :: rest).tail := by
  induction front with
  | nil => simp
  | cons x front ih =>
      cases front with
      | nil => simp
      | cons y front => simpa using Or.inr ih

/-- An underscore in a key is followed by an n. -/
theorem not_anew_of_key {key : List Char} {placeholder : String}
    (h : keyPlaceholder key = some placeholder) :
    ∀ before c rest, key = before ++ c :: rest → before ≠ [] →
      (before.getLast?.any Char.isAlphanum = false) → c.toLower = 'n' := by
  rintro before c rest rfl hbefore hlast
  have hall : ∀ k ∈ allKeys, ∀ pair ∈ k.toList.zip k.toList.tail,
      pair.1.isAlphanum ∨ pair.2 = 'n' := by decide
  obtain ⟨front, b, rfl⟩ := List.eq_nil_or_concat before |>.resolve_left hbefore
  have hpair := mem_zip_tail (front.map Char.toLower) (rest.map Char.toLower) b.toLower c.toLower
  obtain halphanum | hn := hall _ (mem_allKeys h).1 _ (by simpa using hpair)
  · simp only [isAlphanum_toLower] at halphanum
    simp [halphanum] at hlast
  · exact hn

theorem heading_keyed : Heading keyedRule := by
  intro prev text p hp
  obtain ⟨-, key, separators, value, placeholder, rfl, -, hkey, hplaceholder, hseparators, hp⟩ :=
    keyedRule_eq_some hp
  have hpos := List.length_pos_of_ne_nil hkey
  have hanew := not_anew_of_key hplaceholder
  have hlast := (mem_allKeys hplaceholder).2
  have hplain : ∀ c ∈ separators, c.isAlphanum = false := by
    intro c hc
    obtain rfl | rfl | rfl := hseparators c hc <;> rfl
  obtain ⟨quoted, closing, rfl, hclosing, ⟨-, rfl⟩ | rfl⟩ | ⟨-, hvalue, ⟨-, rfl⟩ | rfl⟩ :=
    valuePatch_eq_some hp
  · have hle := quotedLength_add_le hclosing
    refine ⟨by dsimp only; omega, ?_, Or.inl ⟨rfl, rfl⟩⟩
    simp only [Patch.size, List.length_append, List.length_cons]
    omega
  · have hle := quotedLength_add_le hclosing
    refine ⟨by dsimp only; omega, ?_, Or.inr ⟨key, separators ++ ['"'], quoted, by simp, ?_,
      hanew, ?_, hlast, hclosing⟩⟩
    · simp only [Patch.size, List.length_append, List.length_cons]
      omega
    · simp only [List.length_append, List.length_singleton]
      omega
    · intro c hc
      obtain hc | hc := List.mem_append.mp hc
      · exact hplain c hc
      · rw [List.mem_singleton.mp hc]
        rfl
  · have hle := (List.takeWhile_sublist (isBareChar key) (l := value)).length_le
    refine ⟨by dsimp only; omega, ?_, Or.inl ⟨rfl, rfl⟩⟩
    simp only [Patch.size, List.length_append]
    omega
  · have hle := (List.takeWhile_sublist (isBareChar key) (l := value)).length_le
    refine ⟨by dsimp only; omega, ?_, Or.inr ⟨key, separators, value, rfl, rfl, hanew, hplain,
      hlast, Or.inl rfl⟩⟩
    simp only [Patch.size, List.length_append]
    omega

end PowerForensics.Redact
