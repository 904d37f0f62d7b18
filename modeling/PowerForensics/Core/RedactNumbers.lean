import PowerForensics.Core.RedactRules

/-! # Numbers that identify a machine

Addresses, identifiers and process numbers that stand in a text as whole tokens. Each of them is
marked, and the marks are followed through redaction: a token is gone when some of its marked
characters have been replaced. The scanners take some punctuation next to a token for a part of
it, and then leave it.
-/

namespace PowerForensics.Redact

open Scanner

/-! ## Tokens -/

/-- What stands next to a whole token: the edge of the text, or no letter or digit. -/
def Edge (c : Option Char) : Prop := c.any Char.isAlphanum = false

instance (c : Option Char) : Decidable (Edge c) := inferInstanceAs (Decidable (_ = _))

/-- A decimal number up to 255. -/
def IsOctet (group : List Char) : Prop :=
  group ≠ [] ∧ group.length ≤ 3 ∧ (∀ c ∈ group, c.isDigit) ∧ decimal group ≤ 255

instance (group : List Char) : Decidable (IsOctet group) := inferInstanceAs (Decidable (_ ∧ _))

/-- Groups that a separator joins. -/
def joined (separator : Char) (groups : List (List Char)) : List Char :=
  [separator].intercalate groups

def IsIpv4 (tok : List Char) : Prop :=
  ∃ groups, groups.length = 4 ∧ (∀ g ∈ groups, IsOctet g) ∧ tok = joined '.' groups

def IsMac (tok : List Char) : Prop :=
  ∃ separator ∈ [':', '-'], ∃ groups, groups.map List.length = [2, 2, 2, 2, 2, 2] ∧
    (∀ g ∈ groups, ∀ c ∈ g, isHex c) ∧ tok = joined separator groups

def IsGuid (tok : List Char) : Prop :=
  ∃ groups, groups.map List.length = [8, 4, 4, 4, 12] ∧ (∀ g ∈ groups, ∀ c ∈ g, isHex c) ∧
    tok = joined '-' groups

/-- The label of a process number with the number, as they are looked for. -/
def LabelledNumber (tok : List Char) : Prop :=
  ∃ label separators digits, label.map Char.toLower ∈ ["ppid".toList, "pid".toList] ∧
    (∀ c ∈ separators, isPidSeparator c) ∧ digits ≠ [] ∧ (∀ c ∈ digits, c.isDigit) ∧
    tok = label ++ separators ++ digits

inductive Kind where
  | ipv4
  | mac
  | guid
  | pid

namespace Kind

/-- What the scanner of the kind looks for: an address as it is, a process number with its
label. -/
def Found : Kind → List Char → Prop
  | ipv4 => IsIpv4
  | mac => IsMac
  | guid => IsGuid
  | pid => LabelledNumber

def rule : Kind → Rule
  | ipv4 => ipv4Rule
  | mac => macRule
  | guid => guidRule
  | pid => pidRule

/-- Punctuation before a token that is taken for a part of it. -/
def joinsBefore : Kind → List Char
  | ipv4 => []
  | mac => [':', '-']
  | guid => ['-']
  | pid => ['_']

/-- Punctuation after a token that is taken for a part of it. -/
def joinsAfter : Kind → List Char
  | ipv4 => ['.']
  | mac => [':', '-']
  | guid => ['-']
  | pid => []

/-- What may stand before a token for its scanner to find it. -/
def left (kind : Kind) (c : Option Char) : Prop := Edge c ∧ ∀ d ∈ c, d ∉ kind.joinsBefore

/-- What may stand after a token for its scanner to find it. A process name that is replaced
puts a p there. -/
def right (kind : Kind) (c : Option Char) : Prop :=
  (Edge c ∨ c = some 'p') ∧ ∀ d ∈ c, d ∉ kind.joinsAfter

end Kind

/-- A token that stands in a text, marked. -/
def marked (before tok after : List Char) : List Inked :=
  plainText before ++ ink tok ++ plainText after

/-- A token that stands in a text is still there after redaction. -/
def Survives (names : List String) (before tok after : List Char) : Prop :=
  ink tok <:+: redactReport (marked before tok after) names

/-- The token stands as a whole token. -/
def Whole (before after : List Char) : Prop := Edge before.getLast? ∧ Edge after.head?

/-- No punctuation that its scanner takes for a part of it is next to the token. -/
def Detached (kind : Kind) (before after : List Char) : Prop :=
  (∀ c ∈ before.getLast?, c ∉ kind.joinsBefore) ∧ ∀ c ∈ after.head?, c ∉ kind.joinsAfter

/-! ## What the scanners leave alone -/

section Spares

variable {rule : Rule} {tok : List Char} {left right : Option Char → Prop}

theorem spares_masking (h : Masking rule) (hangle : left (some '>')) (hbackslash : left (some '\\'))
    (hangle' : right (some '<')) (hbackslash' : right (some '\\')) :
    Spares rule tok left right where
  inside prev before c within after p _ _ hp := by
    obtain ⟨hkept, -, hmasked, -⟩ := h _ _ p hp
    exact ⟨hkept, hmasked⟩
  across prev before after p _ _ _ hp hlength := by
    obtain ⟨hkept, htail, -⟩ := h _ _ p hp
    rw [Patch.size] at hlength
    exact Or.inr (by omega)
  before prev before after p _ _ _ hp _ _ := by
    obtain ⟨-, -, -, -, -, hlast⟩ := h _ _ p hp
    obtain hlast | hlast := List.mem_pair.mp hlast
    · exact Or.inr ⟨List.ne_nil_of_mem (List.mem_of_getLast? hlast), hlast ▸ hangle⟩
    · exact Or.inr ⟨List.ne_nil_of_mem (List.mem_of_getLast? hlast), hlast ▸ hbackslash⟩
  after prev text p _ hp _ := by
    obtain ⟨-, -, -, -, hhead, -⟩ := h _ _ p hp
    obtain hhead | hhead := List.mem_pair.mp hhead
    · exact ⟨List.ne_nil_of_mem (List.mem_of_mem_head? hhead), hhead ▸ hangle'⟩
    · exact ⟨List.ne_nil_of_mem (List.mem_of_mem_head? hhead), hhead ▸ hbackslash'⟩

theorem spares_token {needle replacement : List Char}
    (htok : ∃ c ∈ tok.head?, c.isAlphanum) (hreplacement : replacement ≠ [])
    (hright : right replacement.head?) : Spares (tokenRule needle replacement) tok left right where
  inside prev before c within after p _ _ hp := by
    obtain ⟨rfl, hneedle, -⟩ := tokenRule_eq_some hp
    exact ⟨rfl, List.length_pos_of_ne_nil hneedle⟩
  across prev before after p _ _ _ hp hlength := by
    obtain ⟨rfl, -⟩ := tokenRule_eq_some hp
    exact Or.inr ⟨Nat.zero_le _, by simpa [Patch.size] using hlength⟩
  before prev before after p _ _ _ hp hlength _ := by
    -- A token ends where no letter or digit follows.
    obtain ⟨rfl, -, -, -, hfollows⟩ := tokenRule_eq_some hp
    obtain ⟨c, hc, halphanum⟩ := htok
    have hneedle : needle.length = before.length := by simpa [Patch.size] using hlength
    rw [hneedle, List.append_assoc, List.drop_left] at hfollows
    have hhead : (tok ++ after).head? = some c := by
      cases tok with
      | nil => cases hc
      | cons d tok => exact hc
    rw [hhead, Option.any_some, isIdent, halphanum] at hfollows
    exact absurd rfl hfollows
  after prev text p _ hp _ := by
    obtain ⟨rfl, -⟩ := tokenRule_eq_some hp
    exact ⟨hreplacement, hright⟩

/-- A token that stands at an edge does not begin in a word with what separates it from its
value. -/
theorem begins_in_value {word separators value before tok after : List Char} {c : Char}
    (hc : c.isAlphanum) (hn : c.toLower ≠ 'n') (hbefore : before ≠ [])
    (hedge : Edge before.getLast?)
    (hanew : ∀ before c rest, word = before ++ c :: rest → before ≠ [] →
      (before.getLast?.any Char.isAlphanum = false) → c.toLower = 'n')
    (hplain : ∀ c ∈ separators, c.isAlphanum = false)
    (htext : before ++ c :: tok ++ after = word ++ separators ++ value) :
    ∃ rest, before = word ++ separators ++ rest ∧ value = rest ++ c :: tok ++ after := by
  have hnot : c ∉ separators := fun hmem => by
    rw [hplain c hmem] at hc
    cases hc
  rw [List.append_assoc] at htext
  obtain ⟨rest, hword, hvalue⟩ | ⟨rest, rfl, hvalue⟩ := List.append_eq_append_iff.mp htext
  · cases rest with
    | nil => exact ⟨[], by simpa using hword.symm, by simpa using hvalue.symm⟩
    | cons d rest =>
        obtain ⟨rfl, -⟩ := List.cons.inj hvalue
        obtain ⟨beyond, rfl, rfl⟩ | ⟨beyond, rfl, hbeyond⟩ := List.append_eq_append_iff.mp hword
        · exact absurd (List.mem_append_right _ List.mem_cons_self) hnot
        · cases beyond with
          | nil =>
              have hseparators : c :: rest = separators := hbeyond
              exact absurd (hseparators ▸ List.mem_cons_self) hnot
          | cons d beyond =>
              obtain ⟨rfl, -⟩ := List.cons.inj hbeyond
              exact absurd (hanew before c beyond rfl hbefore hedge) hn
  · exact ⟨rest, rfl, by simpa using hvalue⟩

theorem heading_across (h : Heading rule) (htok : ∃ c ∈ tok.head?, c.isAlphanum ∧ c.toLower ≠ 'n')
    {prev : Option Char} {before after : List Char} {p : Patch} (hbefore : before ≠ [])
    (hedge : Edge before.getLast?) (hp : rule prev (before ++ tok ++ after) = some p)
    (hlength : before.length < p.size) :
    p.Idle ∨ p.kept ≤ before.length ∧ before.length < p.kept + p.masked := by
  obtain ⟨-, -, hidle | ⟨word, separators, value, htext, hkept, hanew, hplain, -, htail⟩⟩ :=
    h _ _ p hp
  · exact Or.inl hidle
  · obtain ⟨c, hc, halphanum, hn⟩ := htok
    obtain ⟨tok, rfl⟩ := List.head?_eq_some_iff.mp hc
    obtain ⟨rest, rfl, rfl⟩ := begins_in_value halphanum hn hbefore hedge hanew hplain htext
    have hbound : rest.length < p.masked + p.tail := by
      rw [Patch.size, List.length_append, List.length_append, hkept] at hlength
      omega
    refine Or.inr ⟨by rw [hkept, List.length_append, List.length_append]; omega, ?_⟩
    rw [hkept, List.length_append, List.length_append]
    obtain htail | ⟨htail, hquote⟩ := htail
    · omega
    · by_contra hbeyond
      have hmasked : p.masked = rest.length := by omega
      rw [hmasked, List.append_assoc, List.drop_left] at hquote
      obtain rfl : c = '"' := by simpa using hquote
      cases halphanum

theorem spares_heading (h : Heading rule)
    (htok : ∃ c ∈ tok.head?, c.isAlphanum ∧ c.toLower ≠ 'n') (hleft : ∀ c, left c → Edge c)
    (hangle : left (some '>'))
    (hinside : ∀ prev before c within after, tok = before ++ c :: within → right after.head? →
      rule (before.getLast?.or prev) (c :: within ++ after) = none) :
    Spares rule tok left right where
  inside prev before c within after p htok hright hp := by
    rw [hinside prev before c within after htok hright] at hp
    cases hp
  across prev before after p hbefore hlast _ hp hlength :=
    heading_across h htok hbefore (hleft _ hlast) hp hlength
  before prev before after p _ _ _ hp _ _ := by
    obtain ⟨-, -, hidle | ⟨word, separators, value, -, -, -, -, hlast, -⟩⟩ := h _ _ p hp
    · exact Or.inl hidle
    · exact Or.inr ⟨List.ne_nil_of_mem (List.mem_of_getLast? hlast), hlast ▸ hangle⟩
  after prev text p _ hp hkept := by
    have hpos := (h _ _ p hp).1
    omega

/-! ## What the scanners find -/

theorem catches_masking (h : Masking rule)
    (hhere : ∀ prev after, left prev → right after.head? →
      (rule prev (tok ++ after)).isSome) (htok : tok ≠ []) : Catches rule tok left right where
  here prev after hleft hright := by
    obtain ⟨p, hp⟩ := Option.isSome_iff_exists.mp (hhere prev after hleft hright)
    obtain ⟨hkept, -, hmasked, -⟩ := h _ _ p hp
    exact ⟨p, hp, hkept ▸ List.length_pos_of_ne_nil htok, hmasked⟩
  across prev before after p _ _ _ hp hlength := by
    obtain ⟨hkept, htail, -⟩ := h _ _ p hp
    rw [Patch.size] at hlength
    omega

end Spares

/-! ## Shapes of tokens -/

theorem isHex_toLower (c : Char) : isHex c.toLower = isHex c := by
  simp only [isHex, Char.isDigit, Char.le_def, toLower_val]
  split <;> grind [UInt32.toNat_add, Char.toNat_val]

theorem isDigit_toLower (c : Char) : c.toLower.isDigit = c.isDigit := by
  simp only [Char.isDigit, toLower_val]
  split <;> grind [UInt32.toNat_add, Char.toNat_val]

theorem isHex_of_isDigit {c : Char} (h : c.isDigit) : isHex c := by
  simp [isHex, h]

theorem isAlphanum_of_isHex {c : Char} (h : isHex c) : c.isAlphanum := by
  simp only [isHex, Char.isDigit, Char.le_def, isAlphanum_val] at *
  grind

/-- A text of hexadecimal digits and punctuation. -/
structure Numeric (tok : List Char) : Prop where
  length : 3 ≤ tok.length
  chars : ∀ c ∈ tok, isHex c ∨ c ∈ ['.', ':', '-']
  head : ∃ c ∈ tok.head?, isHex c

@[simp] theorem joined_singleton (separator : Char) (group : List Char) :
    joined separator [group] = group := List.intercalate_singleton

@[simp] theorem joined_cons_cons (separator : Char) (group group' : List Char)
    (groups : List (List Char)) :
    joined separator (group :: group' :: groups) =
      group ++ separator :: joined separator (group' :: groups) := by
  simp [joined, List.intercalate_cons_cons]

theorem mem_joined {separator c : Char} {groups : List (List Char)}
    (h : c ∈ joined separator groups) : c = separator ∨ ∃ g ∈ groups, c ∈ g := by
  induction groups with
  | nil => cases h
  | cons group groups ih =>
      cases groups with
      | nil =>
          rw [joined_singleton] at h
          exact Or.inr ⟨group, List.mem_cons_self, h⟩
      | cons group' groups =>
          rw [joined_cons_cons, List.mem_append, List.mem_cons] at h
          obtain h | h | h := h
          · exact Or.inr ⟨group, List.mem_cons_self, h⟩
          · exact Or.inl h
          · obtain h | ⟨g, hg, hc⟩ := ih h
            · exact Or.inl h
            · exact Or.inr ⟨g, List.mem_cons_of_mem _ hg, hc⟩

/-- A word that begins in joined groups begins with a group. -/
theorem joined_suffix {separator : Char} (hseparator : isWord separator = false)
    {groups : List (List Char)} (hgroups : ∀ g ∈ groups, ∀ c ∈ g, isWord c)
    {before within : List Char} {c : Char} (h : joined separator groups = before ++ c :: within)
    (hc : isWord c) (hbefore : before.getLast?.any isWord = false) :
    ∃ group groups', (∀ g ∈ group :: groups', g ∈ groups) ∧
      c :: within = joined separator (group :: groups') := by
  induction groups generalizing before with
  | nil =>
      have hlength := congrArg List.length h
      simp [joined] at hlength
  | cons group groups ih =>
      have hstart : before = [] → ∃ group₁ groups₁, (∀ g ∈ group₁ :: groups₁, g ∈ group :: groups) ∧
          c :: within = joined separator (group₁ :: groups₁) := by
        rintro rfl
        exact ⟨group, groups, fun _ hg => hg, h.symm⟩
      have hnot : ∀ rest, group = before ++ rest → before = [] := by
        rintro rest rfl
        exact eq_nil_of_last
          (fun c hc => hgroups _ List.mem_cons_self c (List.mem_append_left _ hc)) hbefore
      cases groups with
      | nil =>
          rw [joined_singleton] at h
          exact hstart (hnot _ h)
      | cons group' groups =>
          rw [joined_cons_cons] at h
          -- the word begins behind the first group or in it
          obtain ⟨rest, rfl, hrest⟩ | ⟨rest, hgroup, -⟩ := List.append_eq_append_iff.mp h
          · cases rest with
            | nil =>
                obtain ⟨rfl, -⟩ := List.cons.inj hrest
                exact absurd (hseparator.symm.trans hc) Bool.false_ne_true
            | cons d rest =>
                obtain ⟨rfl, hrest'⟩ := List.cons.inj hrest
                have hlast : rest.getLast?.any isWord = false := by
                  cases rest with
                  | nil => rfl
                  | cons e rest =>
                      simpa [List.getLast?_append,
                        List.getLast?_eq_some_getLast (List.cons_ne_nil e rest)] using hbefore
                obtain ⟨group₁, groups₁, hmem, heq⟩ :=
                  ih (fun g hg => hgroups g (List.mem_cons_of_mem _ hg)) hrest' hlast
                exact ⟨group₁, groups₁, fun g hg => List.mem_cons_of_mem _ (hmem g hg), heq⟩
          · exact hstart (hnot _ hgroup)

theorem length_of_joined {separator : Char} {groups : List (List Char)} (hgroups : groups ≠ []) :
    (joined separator groups).length + 1 =
      (groups.map List.length).foldr (· + ·) 0 + groups.length := by
  induction groups with
  | nil => exact absurd rfl hgroups
  | cons group groups ih =>
      cases groups with
      | nil =>
          simp only [joined_singleton, List.map_cons, List.map_nil, List.foldr_cons, List.foldr_nil,
            List.length_singleton, Nat.add_zero]
      | cons group' groups =>
          have hrest := ih (List.cons_ne_nil _ _)
          simp only [joined_cons_cons, List.length_append, List.length_cons, List.map_cons,
            List.foldr_cons] at hrest ⊢
          omega

theorem numeric_of_joined {separator : Char} {groups : List (List Char)}
    (hseparator : separator ∈ ['.', ':', '-']) (hgroups : ∀ g ∈ groups, g ≠ [] ∧ ∀ c ∈ g, isHex c)
    (hlength : 4 ≤ groups.length) : Numeric (joined separator groups) := by
  match groups, hlength with
  | group :: group' :: groups, hlength =>
    have hsum := @length_of_joined separator _ (List.cons_ne_nil group (group' :: groups))
    refine ⟨by omega, fun c hc => ?_, ?_⟩
    · obtain rfl | ⟨g, hg, hc⟩ := mem_joined hc
      · exact Or.inr hseparator
      · exact Or.inl ((hgroups g hg).2 c hc)
    · obtain ⟨hne, hhex⟩ := hgroups group List.mem_cons_self
      obtain ⟨c, group, rfl⟩ := List.exists_cons_of_ne_nil hne
      exact ⟨c, by simp, hhex c List.mem_cons_self⟩

theorem numeric_of_found {kind : Kind} {tok : List Char} (h : kind.Found tok)
    (hkind : kind ≠ .pid) : Numeric tok := by
  cases kind with
  | pid => exact absurd rfl hkind
  | ipv4 =>
      obtain ⟨groups, hlength, hgroups, rfl⟩ := h
      refine numeric_of_joined (by decide) (fun g hg => ?_) hlength.ge
      obtain ⟨hne, -, hdigits, -⟩ := hgroups g hg
      exact ⟨hne, fun c hc => isHex_of_isDigit (hdigits c hc)⟩
  | mac =>
      obtain ⟨separator, hseparator, groups, hlengths, hgroups, rfl⟩ := h
      have hlength := congrArg List.length hlengths
      rw [List.length_map] at hlength
      refine numeric_of_joined (List.mem_cons_of_mem _ hseparator)
        (fun g hg => ⟨?_, hgroups g hg⟩) (by rw [hlength]; decide)
      rintro rfl
      have hmem := List.mem_map_of_mem (f := List.length) hg
      rw [hlengths] at hmem
      exact absurd hmem (by decide)
  | guid =>
      obtain ⟨groups, hlengths, hgroups, rfl⟩ := h
      have hlength := congrArg List.length hlengths
      rw [List.length_map] at hlength
      refine numeric_of_joined (by decide) (fun g hg => ⟨?_, hgroups g hg⟩)
        (by rw [hlength]; decide)
      rintro rfl
      have hmem := List.mem_map_of_mem (f := List.length) hg
      rw [hlengths] at hmem
      exact absurd hmem (by decide)

theorem Numeric.head_alphanum {tok : List Char} (h : Numeric tok) :
    ∃ c ∈ tok.head?, c.isAlphanum ∧ c.toLower ≠ 'n' := by
  obtain ⟨c, hc, hhex⟩ := h.head
  refine ⟨c, hc, isAlphanum_of_isHex hhex, fun hn => ?_⟩
  rw [← isHex_toLower, hn] at hhex
  exact absurd hhex (by decide)

/-- Letters beyond the hexadecimal digits do not occur. -/
theorem Numeric.toLower_ne {tok : List Char} (h : Numeric tok) {c d : Char} (hc : c ∈ tok)
    (hd : isHex d = false) (hpunct : d ∉ ['.', ':', '-']) : c.toLower ≠ d := by
  rintro rfl
  obtain hhex | hmem := h.chars c hc
  · rw [isHex_toLower, hhex] at hd
    cases hd
  · have hsame : ∀ c ∈ ['.', ':', '-'], c.toLower ∈ ['.', ':', '-'] := by decide
    exact hpunct (hsame c hmem)

theorem Numeric.not_mem {tok : List Char} (h : Numeric tok) {c : Char} (hc : isHex c = false)
    (hpunct : c ∉ ['.', ':', '-']) : c ∉ tok := fun hmem => by
  obtain hhex | hmem := h.chars c hmem
  · exact absurd (hc.symm.trans hhex) Bool.false_ne_true
  · exact hpunct hmem

/-- The heading of a view that begins with a token has its first characters. -/
theorem mem_of_titleRule {heading : String} {tok after : List Char} {p : Patch} {c : Char}
    (hlength : 3 ≤ tok.length) (hthird : heading.toList[2]? = some c)
    (hp : titleRule heading (tok ++ after) = some p) : c ∈ tok := by
  obtain ⟨rest, htext, -⟩ := titleRule_eq_some hp
  have hlt : 2 < heading.toList.length := (List.getElem?_eq_some_iff.mp hthird).1
  have hthird' : (tok ++ after)[2]? = (heading.toList ++ rest)[2]? := by rw [htext]
  rw [List.getElem?_append_left (by omega), List.getElem?_append_left hlt, hthird] at hthird'
  exact List.mem_of_getElem? hthird'

/-- Headings of views stand at the beginning of a line, and no token begins with one. -/
theorem titledRule_inside {tok : List Char} (hlength : 3 ≤ tok.length) (hline : '\n' ∉ tok)
    (hletters : 'S' ∉ tok ∧ 'M' ∉ tok) {before within after : List Char} {c : Char}
    (htok : tok = before ++ c :: within) (prev : Option Char) :
    titledRule (before.getLast?.or prev) (c :: within ++ after) = none := by
  by_contra hsome
  obtain ⟨p, hp⟩ := Option.ne_none_iff_exists'.mp hsome
  unfold titledRule at hp
  split at hp
  · next hprev =>
    have hbefore : before = [] := by
      by_contra hne
      rw [List.getLast?_eq_some_getLast hne, Option.some_or] at hprev
      obtain hprev | hprev := hprev
      · cases hprev
      · rw [← Option.some.inj hprev, htok] at hline
        exact hline (List.mem_append_left _ (List.getLast_mem hne))
    rw [hbefore, List.nil_append] at htok
    rw [← htok] at hp
    obtain hp | ⟨-, hp⟩ := Option.or_eq_some_iff.mp hp
    · exact hletters.1 (mem_of_titleRule hlength (by decide) hp)
    · exact hletters.2 (mem_of_titleRule hlength (by decide) hp)
  · cases hp

theorem pidRule_numeric {tok : List Char} (h : Numeric tok) {before within after : List Char}
    {c : Char} (htok : tok = before ++ c :: within) (prev : Option Char) :
    pidRule prev (c :: within ++ after) = none := by
  by_contra hsome
  obtain ⟨p, hp⟩ := Option.ne_none_iff_exists'.mp hsome
  obtain ⟨-, label, separators, digits, rest, htext, hlabel, -⟩ := pidRule_eq_some hp
  have hmem : c ∈ tok := htok ▸ List.mem_append_right _ List.mem_cons_self
  have hhead : ∀ l ∈ ["ppid".toList, "pid".toList], l.head? = some 'p' := by decide
  have hp' := hhead _ hlabel
  cases label with
  | nil => cases hp'
  | cons d label =>
      obtain ⟨rfl, -⟩ := List.cons.inj htext
      exact h.toLower_ne hmem (d := 'p') (by decide) (by decide) (Option.some.inj hp')

/-! ## Keys -/

/-- What tells the keys of masked values from the words in a token. -/
theorem key_shape {key : List Char} {placeholder : String}
    (h : keyPlaceholder key = some placeholder) :
    3 ≤ key.length ∧ (key.head?.any Char.isDigit = false) ∧
      (∀ c ∈ key[2]?, c ≠ '_' ∧ c ≠ 'p') ∧ (∃ c ∈ key.take 4, isHex c = false) ∧
      (key.take 2).map Char.toLower ∉ [['p', 'p'], ['p', 'i']] := by
  have hall : ∀ k ∈ allKeys, 3 ≤ k.toList.length ∧ (k.toList.head?.any Char.isDigit = false) ∧
      (∀ c ∈ k.toList[2]?, c ≠ '_' ∧ c ≠ 'p') ∧ (∃ c ∈ k.toList.take 4, isHex c = false) ∧
      k.toList.take 2 ∉ [['p', 'p'], ['p', 'i']] := by decide
  obtain ⟨hlength, hdigit, hthird, ⟨d, hd, hhex⟩, hbegin⟩ := hall _ (mem_allKeys h).1
  rw [String.toList_ofList] at hlength hdigit hthird hd hbegin
  rw [List.length_map] at hlength
  rw [← List.map_take] at hd hbegin
  obtain ⟨c, hc, rfl⟩ := List.mem_map.mp hd
  refine ⟨hlength, ?_, fun c hc => ?_, ⟨c, hc, by rwa [isHex_toLower] at hhex⟩, hbegin⟩
  · rw [List.head?_map, Option.any_map] at hdigit
    simpa only [Function.comp_def, isDigit_toLower] using hdigit
  · rw [List.getElem?_map] at hthird
    obtain ⟨hunderscore, hp⟩ := hthird _ (Option.mem_map_of_mem Char.toLower hc)
    refine ⟨?_, ?_⟩
    · rintro rfl
      exact hunderscore rfl
    · rintro rfl
      exact hp rfl

/-- No key begins where a word of a numeric token begins. -/
theorem keyedRule_eq_none {prev : Option Char} {text : List Char}
    (h : prev.any isWord = false → ∀ key, key = text.takeWhile isWord → key ≠ [] →
      keyPlaceholder key = none) : keyedRule prev text = none := by
  by_contra hsome
  obtain ⟨p, hp⟩ := Option.ne_none_iff_exists'.mp hsome
  obtain ⟨hprev, key, _, _, placeholder, -, hkey, hne, hplaceholder, -⟩ := keyedRule_eq_some hp
  rw [h hprev key hkey hne] at hplaceholder
  cases hplaceholder

theorem keyedRule_ipv4 {tok : List Char} (h : IsIpv4 tok) {before within after : List Char}
    {c : Char} (htok : tok = before ++ c :: within) (prev : Option Char) :
    keyedRule prev (c :: within ++ after) = none := by
  refine keyedRule_eq_none fun _ key hkey hne => ?_
  by_contra hsome
  obtain ⟨placeholder, hplaceholder⟩ := Option.ne_none_iff_exists'.mp hsome
  obtain ⟨groups, -, hgroups, rfl⟩ := h
  have hmem : c ∈ joined '.' groups := htok ▸ List.mem_append_right _ List.mem_cons_self
  obtain rfl | ⟨g, hg, hc⟩ := mem_joined hmem
  · exact hne (by rw [hkey]; rfl)
  · have hdigit := (hgroups g hg).2.2.1 c hc
    have hword : isWord c := by simp [isWord, Char.isAlphanum, hdigit]
    have hnot := (key_shape hplaceholder).2.1
    rw [hkey, List.cons_append, List.takeWhile_cons_of_pos hword, List.head?_cons,
      Option.any_some, hdigit] at hnot
    cases hnot

/-- A key cannot begin with a group of hexadecimal digits, unless the group has two of them and
more of the key follows. -/
theorem keyPlaceholder_hex {group rest : List Char} (hgroup : ∀ c ∈ group, isHex c)
    (hlength : 4 ≤ group.length ∨ group.length = 2 ∧ ∀ c ∈ rest.head?, c = '_' ∨ c = 'p') :
    keyPlaceholder (group ++ rest) = none := by
  by_contra hsome
  obtain ⟨placeholder, hplaceholder⟩ := Option.ne_none_iff_exists'.mp hsome
  obtain ⟨hlong, -, hthird, ⟨c, hc, hhex⟩, -⟩ := key_shape hplaceholder
  obtain hlength | ⟨hlength, hrest⟩ := hlength
  · rw [List.take_append_of_le_length hlength] at hc
    exact absurd (hhex.symm.trans (hgroup c (List.mem_of_mem_take hc))) Bool.false_ne_true
  · cases rest with
    | nil =>
        rw [List.append_nil] at hlong
        omega
    | cons d rest =>
        have hd : d ∈ (group ++ d :: rest)[2]? := by
          rw [List.getElem?_append_right (by omega), hlength]
          rfl
        obtain ⟨hunderscore, hp⟩ := hthird d hd
        obtain rfl | rfl := hrest d rfl
        · exact hunderscore rfl
        · exact hp rfl

theorem any_of_any_or {f : Char → Bool} {last prev : Option Char}
    (h : (last.or prev).any f = false) : last.any f = false := by
  cases last with
  | none => rfl
  | some c => exact h

theorem keyedRule_joined {separator : Char} (hseparator : isWord separator = false)
    {groups : List (List Char)}
    (hgroups : ∀ g ∈ groups, (∀ c ∈ g, isHex c) ∧ (4 ≤ g.length ∨ g.length = 2))
    {before within after : List Char} {c : Char}
    (htok : joined separator groups = before ++ c :: within)
    (hafter : Edge after.head? ∨ after.head? = some 'p') (prev : Option Char) :
    keyedRule (before.getLast?.or prev) (c :: within ++ after) = none := by
  refine keyedRule_eq_none fun hprev key hkey hne => ?_
  have hword : ∀ g ∈ groups, ∀ c ∈ g, isWord c := fun g hg c hc => by
    simp [isWord, isAlphanum_of_isHex ((hgroups g hg).1 c hc)]
  have hc : isWord c := head_of_takeWhile (hkey ▸ hne)
  obtain ⟨group, groups', hmem, heq⟩ :=
    joined_suffix hseparator hword htok hc (any_of_any_or hprev)
  obtain ⟨hhex, hlength⟩ := hgroups group (hmem group List.mem_cons_self)
  rw [heq] at hkey
  cases groups' with
  | cons group' groups' =>
      rw [joined_cons_cons, List.append_assoc, List.cons_append,
        List.takeWhile_append_of_pos (fun c hc => hword _ (hmem _ List.mem_cons_self) c hc),
        List.takeWhile_cons_of_neg (by simp [hseparator])] at hkey
      rw [hkey]
      exact keyPlaceholder_hex hhex (hlength.imp_right fun h => ⟨h, by simp⟩)
  | nil =>
      rw [joined_singleton,
        List.takeWhile_append_of_pos (fun c hc => hword _ (hmem _ List.mem_cons_self) c hc)] at hkey
      rw [hkey]
      refine keyPlaceholder_hex hhex (hlength.imp_right fun h => ⟨h, fun d hd => ?_⟩)
      cases after with
      | nil => cases hd
      | cons e after =>
          by_cases he : isWord e
          · rw [List.takeWhile_cons_of_pos he] at hd
            obtain rfl := Option.some.inj hd
            obtain hedge | hp := hafter
            · have hunderscore : e.isAlphanum = false := hedge
              exact Or.inl (by simpa [isWord, hunderscore] using he)
            · exact Or.inr (Option.some.inj hp)
          · rw [List.takeWhile_cons_of_neg he] at hd
            cases hd

theorem not_word_of_separator {c : Char} (h : isPidSeparator c) : isWord c = false := by
  have hall : ∀ c ∈ " \t=:#\"'".toList, isWord c = false := by decide
  exact hall c (List.contains_iff_mem.mp h)

theorem label_letters {label : List Char}
    (hlabel : label.map Char.toLower ∈ ["ppid".toList, "pid".toList]) :
    (∀ c ∈ label, c.isAlphanum) ∧ 2 ≤ label.length ∧
      (label.take 2).map Char.toLower ∈ [['p', 'p'], ['p', 'i']] := by
  have hall : ∀ l ∈ ["ppid".toList, "pid".toList], (∀ c ∈ l, c.isAlphanum) ∧ 2 ≤ l.length ∧
      l.take 2 ∈ [['p', 'p'], ['p', 'i']] := by decide
  obtain ⟨hletters, hlength, hbegin⟩ := hall _ hlabel
  rw [List.length_map] at hlength
  rw [← List.map_take] at hbegin
  refine ⟨fun c hc => ?_, hlength, hbegin⟩
  rw [← isAlphanum_toLower]
  exact hletters _ (List.mem_map_of_mem hc)

theorem keyedRule_pid {tok : List Char} (h : LabelledNumber tok) {before within after : List Char}
    {c : Char} (htok : tok = before ++ c :: within) (prev : Option Char) :
    keyedRule (before.getLast?.or prev) (c :: within ++ after) = none := by
  refine keyedRule_eq_none fun hprev key hkey hne => ?_
  by_contra hsome
  obtain ⟨placeholder, hplaceholder⟩ := Option.ne_none_iff_exists'.mp hsome
  obtain ⟨-, hdigit, -, -, hbegin⟩ := key_shape hplaceholder
  obtain ⟨label, separators, digits, hlabel, hseparators, -, hdigits, rfl⟩ := h
  have hc : isWord c := head_of_takeWhile (hkey ▸ hne)
  rw [List.append_assoc] at htok
  obtain ⟨rest, rfl, hrest⟩ | ⟨rest, hlabelRest, hrest⟩ := List.append_eq_append_iff.mp htok
  · have hmem : c ∈ separators ++ digits := hrest ▸ List.mem_append_right _ List.mem_cons_self
    obtain hmem | hmem := List.mem_append.mp hmem
    · have hnot := not_word_of_separator (hseparators c hmem)
      exact absurd (hnot.symm.trans hc) Bool.false_ne_true
    · rw [hkey, List.cons_append, List.takeWhile_cons_of_pos hc, List.head?_cons, Option.any_some,
        hdigits c hmem] at hdigit
      cases hdigit
  · have hletters := label_letters hlabel
    have hword : ∀ c ∈ label, isWord c := by
      intro c hc
      rw [isWord, hletters.1 c hc]
      rfl
    -- no word begins inside the label, and no key begins as the label does
    have hbefore : before = [] := by
      apply eq_nil_of_last _ (any_of_any_or hprev)
      exact fun c hc => hword c (hlabelRest ▸ List.mem_append_left _ hc)
    rw [hbefore, List.nil_append] at htok
    have hbegins : key = label ++ (separators ++ digits ++ after).takeWhile isWord := by
      rw [hkey, ← htok, List.append_assoc label, List.takeWhile_append_of_pos hword]
    rw [hbegins, List.take_append_of_le_length hletters.2.1] at hbegin
    exact hbegin hletters.2.2

/-! ## Foreign scanners -/

/-- Redaction but for the scanner that looks for the token spares it. -/
theorem left_of_mask (kind : Kind) : kind.left (some '>') ∧ kind.left (some '\\') ∧
    kind.right (some '<') ∧ kind.right (some '\\') ∧ kind.right (some 'p') := by
  cases kind <;> refine ⟨⟨rfl, ?_⟩, ⟨rfl, ?_⟩, ⟨Or.inl rfl, ?_⟩, ⟨Or.inl rfl, ?_⟩,
    ⟨Or.inr rfl, ?_⟩⟩ <;>
    simp [Kind.joinsBefore, Kind.joinsAfter]

theorem head_alphanum {kind : Kind} {tok : List Char} (h : kind.Found tok) :
    ∃ c ∈ tok.head?, c.isAlphanum ∧ c.toLower ≠ 'n' := by
  by_cases hkind : kind = .pid
  · subst hkind
    obtain ⟨label, separators, digits, hlabel, -, -, -, rfl⟩ := h
    obtain ⟨hletters, hlength, hbegin⟩ := label_letters hlabel
    cases label with
    | nil => exact absurd hlength (by decide)
    | cons c label =>
        refine ⟨c, rfl, hletters c List.mem_cons_self, fun hn => ?_⟩
        simp [hn] at hbegin
  · exact (numeric_of_found h hkind).head_alphanum

theorem pid_shape {tok : List Char} (h : LabelledNumber tok) :
    3 ≤ tok.length ∧ '\n' ∉ tok ∧ 'S' ∉ tok ∧ 'M' ∉ tok := by
  obtain ⟨label, separators, digits, hlabel, hseparators, hne, hdigits, rfl⟩ := h
  have hall : ∀ c ∈ label ++ separators ++ digits,
      c.toLower ∈ ['p', 'i', 'd'] ∨ isPidSeparator c ∨ c.isDigit := by
    intro c hc
    obtain hc | hc := List.mem_append.mp hc
    · obtain hc | hc := List.mem_append.mp hc
      · have hletters : ∀ l ∈ ["ppid".toList, "pid".toList], ∀ c ∈ l, c ∈ ['p', 'i', 'd'] := by
          decide
        exact Or.inl (hletters _ hlabel _ (List.mem_map_of_mem hc))
      · exact Or.inr (Or.inl (hseparators c hc))
    · exact Or.inr (Or.inr (hdigits c hc))
  refine ⟨?_, fun hmem => absurd (hall _ hmem) (by decide),
    fun hmem => absurd (hall _ hmem) (by decide), fun hmem => absurd (hall _ hmem) (by decide)⟩
  have hlength := (label_letters hlabel).2.1
  have hpos := List.length_pos_of_ne_nil hne
  simp only [List.length_append]
  omega

theorem spares_keyed {kind : Kind} {tok : List Char} (h : kind.Found tok) :
    Spares keyedRule tok kind.left kind.right := by
  refine spares_heading heading_keyed (head_alphanum h) (fun _ h => h.1) (left_of_mask kind).1 ?_
  intro prev before c within after htok hright
  cases kind with
  | ipv4 => exact keyedRule_ipv4 h htok _
  | mac =>
      obtain ⟨separator, hseparator, groups, hlengths, hgroups, rfl⟩ := h
      have hword : isWord separator = false := by
        obtain rfl | rfl := List.mem_pair.mp hseparator <;> rfl
      refine keyedRule_joined hword (fun g hg => ⟨hgroups g hg, Or.inr ?_⟩) htok hright.1 prev
      have hmem := List.mem_map_of_mem (f := List.length) hg
      rw [hlengths] at hmem
      simpa using hmem
  | guid =>
      obtain ⟨groups, hlengths, hgroups, rfl⟩ := h
      refine keyedRule_joined (by rfl) (fun g hg => ⟨hgroups g hg, Or.inl ?_⟩) htok hright.1 prev
      have hmem := List.mem_map_of_mem (f := List.length) hg
      rw [hlengths] at hmem
      simp only [List.mem_cons, List.not_mem_nil, or_false] at hmem
      omega
  | pid => exact keyedRule_pid h htok prev

theorem spares_titled {kind : Kind} {tok : List Char} (h : kind.Found tok) :
    Spares titledRule tok kind.left kind.right := by
  refine spares_heading heading_titled (head_alphanum h) (fun _ h => h.1) (left_of_mask kind).1 ?_
  intro prev before c within after htok _
  by_cases hkind : kind = .pid
  · subst hkind
    obtain ⟨hlength, hline, hletters⟩ := pid_shape h
    exact titledRule_inside hlength hline hletters htok prev
  · have hnumeric := numeric_of_found h hkind
    exact titledRule_inside hnumeric.length (hnumeric.not_mem (by decide) (by decide))
      ⟨hnumeric.not_mem (by decide) (by decide), hnumeric.not_mem (by decide) (by decide)⟩ htok prev

theorem spares_pid {kind : Kind} {tok : List Char} (h : kind.Found tok) (hkind : kind ≠ .pid) :
    Spares pidRule tok kind.left kind.right :=
  spares_heading heading_pid (head_alphanum h) (fun _ h => h.1) (left_of_mask kind).1
    fun _ _ _ _ _ htok _ => pidRule_numeric (numeric_of_found h hkind) htok _

/-- Rules that put a mask in the place of all that they read. -/
theorem spares_mask (kind : Kind) {rule : Rule} (hrule : Masking rule) (tok : List Char) :
    Spares rule tok kind.left kind.right :=
  have hmask := left_of_mask kind
  spares_masking hrule hmask.1 hmask.2.1 hmask.2.2.1 hmask.2.2.2.1

/-! ## Scanners that find their tokens -/

theorem ipv4Groups_joined {groups : List (List Char)} (hgroups : ∀ g ∈ groups, IsOctet g)
    (hne : groups ≠ []) {after : List Char} (hafter : after.head?.any Char.isDigit = false) :
    ipv4Groups groups.length (joined '.' groups ++ after) = some after := by
  induction groups with
  | nil => exact absurd rfl hne
  | cons group groups ih =>
      obtain ⟨hgroup, hlength, hdigits, hvalue⟩ := hgroups group List.mem_cons_self
      have hread : ∀ rest : List Char, rest.head?.any Char.isDigit = false →
          (group ++ rest).takeWhile Char.isDigit = group :=
        fun rest hrest => takeWhile_append_edge hdigits hrest
      have hnot : ¬(group = [] ∨ 3 < group.length ∨ 255 < decimal group) := by
        rintro (h | h | h)
        · exact hgroup h
        · omega
        · omega
      cases groups with
      | nil =>
          simp only [joined_singleton, List.length_singleton, ipv4Groups, hread after hafter, hnot,
            if_false, if_true, List.drop_left]
      | cons group' groups =>
          have hrest := ih (fun g hg => hgroups g (List.mem_cons_of_mem _ hg))
            (List.cons_ne_nil _ _)
          rw [joined_cons_cons, List.append_assoc, List.cons_append]
          rw [List.length_cons, ipv4Groups]
          simp only [hread _ (show ('.' :: (joined '.' (group' :: groups) ++ after)).head?.any
            Char.isDigit = false from rfl), hnot, if_false, List.drop_left]
          simpa using hrest

theorem not_digit_of_edge {c : Option Char} (h : Edge c) : c.any Char.isDigit = false := by
  cases c with
  | none => rfl
  | some c =>
      have hedge : (c.isAlpha || c.isDigit) = false := h
      exact (Bool.or_eq_false_iff.mp hedge).2

theorem not_hex_of_edge {c : Option Char} (h : Edge c) : c.any isHex = false := by
  cases c with
  | none => rfl
  | some c =>
      have hedge : c.isAlphanum = false := h
      by_contra hhex
      rw [isAlphanum_of_isHex (Bool.eq_true_of_not_eq_false hhex)] at hedge
      cases hedge

/-- What may stand after a token is neither a digit nor a hexadecimal one. -/
theorem not_hex_of_right {kind : Kind} {c : Option Char} (h : kind.right c) :
    c.any isHex = false := by
  obtain hedge | rfl := h.1
  · exact not_hex_of_edge hedge
  · rfl

theorem not_digit_of_right {kind : Kind} {c : Option Char} (h : kind.right c) :
    c.any Char.isDigit = false := by
  obtain hedge | rfl := h.1
  · exact not_digit_of_edge hedge
  · rfl

theorem catches_ipv4 {tok : List Char} (h : IsIpv4 tok) :
    Catches ipv4Rule tok (Kind.left .ipv4) (Kind.right .ipv4) := by
  have hnumeric := @numeric_of_found .ipv4 _ h (by simp)
  refine catches_masking masking_ipv4 (fun prev after hleft hright => ?_)
    (fun hnil => by simpa [hnil] using hnumeric.length)
  obtain ⟨groups, hlength, hgroups, rfl⟩ := h
  have hafter := not_digit_of_right hright
  have hread := ipv4Groups_joined hgroups (by rintro rfl; cases hlength) hafter
  rw [hlength] at hread
  have hhead : (joined '.' groups ++ after).head?.any Char.isDigit := by
    cases groups with
    | nil => cases hlength
    | cons group groups =>
        obtain ⟨hgroup, -, hdigits, -⟩ := hgroups group List.mem_cons_self
        obtain ⟨c, group, rfl⟩ := List.exists_cons_of_ne_nil hgroup
        have hdigit := hdigits c List.mem_cons_self
        cases groups <;> simp [hdigit]
  have hdot : after.head?.any (fun c => c.isDigit || c = '.') = false := by
    cases after with
    | nil => rfl
    | cons c after =>
        have hc := hright.2 c rfl
        simp_all [Kind.joinsAfter]
  have hprev : ¬prev.any Char.isDigit := by simp [not_digit_of_edge hleft.1]
  rw [ipv4Rule, if_pos ⟨hhead, hprev⟩, hread]
  simp [hdot]

/-- Groups are counted up to what is not a separator. -/
theorem macGroups_joined {separator : Char} {groups : List (List Char)}
    (hgroups : ∀ g ∈ groups, g.length = 2 ∧ ∀ c ∈ g, isHex c) (hne : groups ≠ [])
    {after : List Char} (hafter : after.head? ≠ some separator) :
    macGroups separator (joined separator groups ++ after) = (groups.length, after) := by
  induction groups with
  | nil => exact absurd rfl hne
  | cons group groups ih =>
      obtain ⟨hlength, hhex⟩ := hgroups group List.mem_cons_self
      obtain ⟨a, b, rfl⟩ := List.length_eq_two.mp hlength
      have ha := hhex a (by simp)
      have hb := hhex b (by simp)
      cases groups with
      | nil =>
          cases after with
          | nil => simp [macGroups, ha, hb]
          | cons c after =>
              have hc : c ≠ separator := fun h => hafter (by rw [h]; rfl)
              simp [macGroups, ha, hb, hc]
      | cons group' groups =>
          have hrest := ih (fun g hg => hgroups g (List.mem_cons_of_mem _ hg))
            (List.cons_ne_nil _ _)
          simp only [joined_cons_cons, List.cons_append, List.nil_append, macGroups, ha, hb,
            Bool.and_self, if_true, hrest, List.length_cons]

theorem catches_mac {tok : List Char} (h : IsMac tok) :
    Catches macRule tok (Kind.left .mac) (Kind.right .mac) := by
  have hnumeric := @numeric_of_found .mac _ h (by simp)
  refine catches_masking masking_mac (fun prev after hleft hright => ?_)
    (fun hnil => by simpa [hnil] using hnumeric.length)
  obtain ⟨separator, hseparator, groups, hlengths, hgroups, rfl⟩ := h
  have hjoins : ∀ c : Option Char, c.any isHex = false → (∀ d ∈ c, d ∉ [':', '-']) →
      ¬c.any fun c => isHex c || c = ':' || c = '-' := by
    intro c hhex hnot
    cases c with
    | none => simp
    | some c =>
        have hc := hnot c rfl
        simp_all
  have hprev := hjoins prev (not_hex_of_edge hleft.1) hleft.2
  have hafter := hjoins after.head? (not_hex_of_right hright) hright.2
  have hne : after.head? ≠ some separator := fun heq => hright.2 separator heq hseparator
  have hlength : groups.length = 6 := by simpa using congrArg List.length hlengths
  have hpairs : ∀ g ∈ groups, g.length = 2 ∧ ∀ c ∈ g, isHex c := fun g hg => by
    have hmem := List.mem_map_of_mem (f := List.length) hg
    rw [hlengths] at hmem
    exact ⟨by simpa using hmem, hgroups g hg⟩
  have hread := macGroups_joined hpairs (by rintro rfl; cases hlength) hne
  match groups, hlength with
  | group :: group' :: groups, hlength =>
    obtain ⟨hpair, hhex⟩ := hpairs group List.mem_cons_self
    obtain ⟨a, b, rfl⟩ := List.length_eq_two.mp hpair
    have ha := hhex a (by simp)
    have hb := hhex b (by simp)
    rw [joined_cons_cons] at hread ⊢
    simp only [List.cons_append, List.nil_append] at hread ⊢
    simp only [macRule]
    rw [if_pos ⟨ha, hprev, hb, List.mem_pair.mp hseparator, by rw [hread]; exact hlength,
      by rw [hread]; exact hafter⟩]
    rfl

theorem count_joined {separator : Char} {groups : List (List Char)} (hne : groups ≠ [])
    (hgroups : ∀ g ∈ groups, separator ∉ g) :
    (joined separator groups).count separator + 1 = groups.length := by
  induction groups with
  | nil => exact absurd rfl hne
  | cons group groups ih =>
      have hgroup := List.count_eq_zero.mpr (hgroups group List.mem_cons_self)
      cases groups with
      | nil => simpa using hgroup
      | cons group' groups =>
          have hrest := ih (List.cons_ne_nil _ _) fun g hg => hgroups g (List.mem_cons_of_mem _ hg)
          rw [joined_cons_cons, List.count_append, List.count_cons_self, hgroup, List.length_cons]
          omega

theorem catches_guid {tok : List Char} (h : IsGuid tok) :
    Catches guidRule tok (Kind.left .guid) (Kind.right .guid) := by
  have hnumeric := @numeric_of_found .guid _ h (by simp)
  refine catches_masking masking_guid (fun prev after hleft hright => ?_)
    (fun hnil => by simpa [hnil] using hnumeric.length)
  obtain ⟨c, hc, hhex⟩ := hnumeric.head
  obtain ⟨groups, hlengths, hgroups, rfl⟩ := h
  have hjoins : ∀ c : Option Char, c.any isHex = false → (∀ d ∈ c, d ∉ ['-']) →
      c.any (fun c => isHex c || c = '-') = false := by
    intro c hhex hnot
    cases c with
    | none => rfl
    | some c =>
        have hc := hnot c rfl
        simp_all
  have hprev := hjoins prev (not_hex_of_edge hleft.1) hleft.2
  have hafter := hjoins after.head? (not_hex_of_right hright) hright.2
  have hlength : groups.length = 5 := by simpa using congrArg List.length hlengths
  have hne : groups ≠ [] := by
    rintro rfl
    cases hlength
  have hrun : ∀ c ∈ joined '-' groups, (isHex c || c = '-') := by
    intro c hc
    obtain rfl | ⟨g, hg, hc⟩ := mem_joined hc
    · rfl
    · simp [hgroups g hg c hc]
  have htake : (joined '-' groups ++ after).takeWhile (fun c => isHex c || c = '-') =
      joined '-' groups := takeWhile_append_edge hrun hafter
  have hsum := @length_of_joined '-' _ hne
  have hcount := @count_joined '-' _ hne fun g hg hmem =>
    absurd (hgroups g hg _ hmem) (by decide)
  rw [hlengths, hlength] at hsum
  have hhead : (joined '-' groups ++ after).head?.any isHex := by
    obtain ⟨rest, hrest⟩ := List.head?_eq_some_iff.mp hc
    rw [hrest]
    exact hhex
  unfold guidRule
  simp only [htake]
  rw [if_pos ⟨hhead, by simp [hprev], Or.inl ⟨by simpa using hsum, by omega⟩⟩]
  rfl

theorem startsWithCi_append {pat label : List Char} (rest : List Char)
    (h : label.map Char.toLower = pat.map Char.toLower) : startsWithCi pat (label ++ rest) := by
  induction pat generalizing label with
  | nil => rfl
  | cons c pat ih =>
      cases label with
      | nil => cases h
      | cons d label =>
          obtain ⟨hhead, htail⟩ := List.cons.inj h
          exact Bool.and_eq_true_iff.mpr ⟨decide_eq_true hhead, ih htail⟩

/-- The longer label is tried first, and the shorter one does not begin like it. -/
theorem pidLabel_append {label : List Char} (rest : List Char)
    (h : label.map Char.toLower ∈ ["ppid".toList, "pid".toList]) :
    ∃ found, pidLabel (label ++ rest) = some found ∧ found.length = label.length := by
  obtain h | h := List.mem_pair.mp h
  · refine ⟨"ppid", ?_, ?_⟩
    · have hstarts := @startsWithCi_append "ppid".toList label rest (h.trans (by decide))
      simp only [pidLabel, List.find?_cons, hstarts]
    · have hlength := congrArg List.length h
      rw [List.length_map] at hlength
      rw [hlength]
      rfl
  · refine ⟨"pid", ?_, ?_⟩
    · have hstarts := @startsWithCi_append "pid".toList label rest (h.trans (by decide))
      have hnot : startsWithCi "ppid".toList (label ++ rest) = false := by
        cases label with
        | nil => simp at h
        | cons a label =>
            cases label with
            | nil => simp at h
            | cons b label =>
                have hsecond : b.toLower = 'i' := by
                  simp only [List.map_cons] at h
                  exact (List.cons.inj (List.cons.inj h).2).1
                simp [startsWithCi, hsecond]
      simp only [pidLabel, List.find?_cons, hstarts, hnot]
    · have hlength := congrArg List.length h
      rw [List.length_map] at hlength
      rw [hlength]
      rfl

/-- The scanner of process numbers keeps the label and what separates it from the number. -/
theorem catchesBehind_pid {label separators digits : List Char}
    (hlabel : label.map Char.toLower ∈ ["ppid".toList, "pid".toList])
    (hseparators : ∀ c ∈ separators, isPidSeparator c) (hne : digits ≠ [])
    (hdigits : ∀ c ∈ digits, c.isDigit) :
    CatchesBehind pidRule (label ++ separators) digits (Kind.left .pid) (Kind.right .pid) where
  here prev after hleft _ := by
    obtain ⟨found, hfound, hlength⟩ := pidLabel_append (separators ++ digits ++ after) hlabel
    have hprev : ¬prev.any isWord := by
      cases prev with
      | none => simp
      | some c =>
          have hedge : c.isAlphanum = false := hleft.1
          have hunderscore := hleft.2 c rfl
          simp_all [isWord, Kind.joinsBefore]
    have hpos := List.length_pos_of_ne_nil hne
    have htake : (separators ++ digits ++ after).takeWhile isPidSeparator = separators := by
      obtain ⟨d, digits, rfl⟩ := List.exists_cons_of_ne_nil hne
      have hd : ¬isPidSeparator d := fun hd => by
        have halphanum := not_alphanum_of_separator hd
        simp [Char.isAlphanum, hdigits d List.mem_cons_self] at halphanum
      rw [List.append_assoc]
      exact takeWhile_append_edge hseparators (by simpa using hd)
    have htext : label ++ separators ++ digits ++ after =
        label ++ (separators ++ digits ++ after) := by simp
    have hmore : (digits ++ after).takeWhile Char.isDigit =
        digits ++ after.takeWhile Char.isDigit := List.takeWhile_append_of_pos hdigits
    refine ⟨⟨label.length + separators.length, (digits ++ after.takeWhile Char.isDigit).length,
      "<pid>".toList, 0⟩, ?_, ?_, ?_, ?_⟩
    · rw [htext, pidRule, if_neg hprev, hfound]
      simp only [Option.bind_eq_bind, Option.bind_some, hlength, List.drop_left, htake]
      rw [List.append_assoc, List.drop_left, hmore, if_neg (by simp [hne])]
    · simp only [List.length_append]
      omega
    · simp only [List.length_append]
      omega
    · simp only [List.length_append]
      omega
  across prev before after p hbefore hlast hp := by
    -- What is masked are digits, so it does not reach the label.
    obtain ⟨hletters, hlength, hbegin⟩ := label_letters hlabel
    obtain ⟨c, label, rfl⟩ := List.exists_cons_of_ne_nil (l := label) fun hnil => by
      simp [hnil] at hlength
    have hn : c.toLower ≠ 'n' := fun hn => by simp [hn] at hbegin
    obtain ⟨-, label', separators', digits', rest, htext, hlabel', hseparators', -, hdigits',
      rfl⟩ := pidRule_eq_some hp
    have hletters' := (label_letters hlabel').1
    have htext' : before ++ c :: (label ++ separators ++ digits) ++ after =
        label' ++ separators' ++ (digits' ++ rest) := by simpa using htext
    obtain ⟨between, rfl, hvalue⟩ := begins_in_value (hletters c List.mem_cons_self) hn hbefore
      hlast.1 (not_anew_of_alphanum hletters')
      (fun c hc => not_alphanum_of_separator (hseparators' c hc)) htext'
    have hshort : digits'.length ≤ between.length := by
      by_contra hlong
      have hget : (digits' ++ rest)[between.length]? = some c := by
        rw [hvalue, List.append_assoc, List.getElem?_append_right (le_refl _)]
        simp
      rw [List.getElem?_append_left (by omega)] at hget
      have hdigit := hdigits' c (List.mem_of_getElem? hget)
      have hp : c.toLower = 'p' := by
        cases label with
        | nil => simp at hbegin
        | cons d label => obtain h | h := List.mem_pair.mp hbegin <;> exact (List.cons.inj h).1
      rw [← isDigit_toLower, hp] at hdigit
      cases hdigit
    simp only [Patch.size, List.length_append]
    omega

end PowerForensics.Redact
