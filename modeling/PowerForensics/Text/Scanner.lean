import Mathlib.Data.List.Basic
import Mathlib.Data.List.Infix

/-! # Rewriting scanners

A scanner walks over a text once. At each place a rule sees the character before it and what
follows, and may have the next elements rewritten; what has been read is not looked at again.
Elements show a character and may carry a mark, which rules do not see. So a mark tells which
elements of the output have been copied, and from where.
-/

namespace Scanner

/-! ## Characters of a text

What is said of the characters of a text is decided by going through the text.
-/

section Characters

variable (p : Char → Prop) [DecidablePred p]

instance decidableForallText (text : List Char) :
    Decidable (∀ c ∈ text, p c) := List.decidableBAll p text

instance decidableExistsText (text : List Char) :
    Decidable (∃ c ∈ text, p c) := List.decidableBEx p text

instance decidableForallChar (c : Option Char) : Decidable (∀ d ∈ c, p d) :=
  Option.decidableForallMem c

end Characters

/-! ## Elements -/

/-- Elements that show a character. -/
class Glyph (α : Type) where
  char : α → Char
  plain : Char → α
  char_plain : ∀ c, char (plain c) = c

export Glyph (char plain char_plain)

attribute [simp] char_plain

instance : Glyph Char where
  char c := c
  plain c := c
  char_plain _ := rfl

/-- A character, marked or not. -/
structure Inked where
  glyph : Char
  inked : Bool
  deriving DecidableEq

instance : Glyph Inked where
  char := Inked.glyph
  plain c := ⟨c, false⟩
  char_plain _ := rfl

@[simp] theorem inked_plain (c : Char) : (plain c : Inked).inked = false := rfl

def ink (text : List Char) : List Inked := text.map fun c => ⟨c, true⟩

def plainText (text : List Char) : List Inked := text.map plain

/-- How much of the mark a text has. -/
def inkOf (text : List Inked) : Nat := text.countP Inked.inked

@[simp] theorem inkOf_nil : inkOf [] = 0 := rfl

@[simp] theorem inkOf_append (u v : List Inked) : inkOf (u ++ v) = inkOf u + inkOf v :=
  List.countP_append

@[simp] theorem inkOf_ink (text : List Char) : inkOf (ink text) = text.length := by
  simp [inkOf, ink, List.countP_map, Function.comp_def]

@[simp] theorem inkOf_plain (text : List Char) : inkOf (text.map plain) = 0 := by
  simp [inkOf, List.countP_map, Function.comp_def]

theorem inkOf_le_of_sublist {u v : List Inked} (h : u.Sublist v) : inkOf u ≤ inkOf v :=
  h.countP_le

@[simp] theorem ink_append (u v : List Char) : ink (u ++ v) = ink u ++ ink v := List.map_append

@[simp] theorem length_ink (text : List Char) : (ink text).length = text.length :=
  List.length_map _

section Elements

variable {α : Type} [Glyph α]

/-- The characters of a text. -/
def chars (text : List α) : List Char := text.map char

@[simp] theorem chars_nil : chars ([] : List α) = [] := rfl

@[simp] theorem chars_cons (x : α) (text : List α) : chars (x :: text) = char x :: chars text := rfl

@[simp] theorem chars_append (u v : List α) : chars (u ++ v) = chars u ++ chars v :=
  List.map_append

@[simp] theorem length_chars (text : List α) : (chars text).length = text.length :=
  List.length_map _

@[simp] theorem chars_plain (text : List Char) : chars (text.map (plain : Char → α)) = text := by
  simp [chars, Function.comp_def]

@[simp] theorem chars_ink (text : List Char) : chars (ink text) = text := by
  simp [chars, ink, Function.comp_def, char]

@[simp] theorem chars_char (text : List Char) : chars text = text := List.map_id _

/-- The character before the end of a text, which follows one before it. -/
def lastChar (prev : Option Char) (text : List α) : Option Char :=
  (text.getLast?.map char).or prev

/-- The first character of a text. -/
def firstChar (text : List α) : Option Char := text.head?.map char

@[simp] theorem lastChar_nil (prev : Option Char) : lastChar prev ([] : List α) = prev := rfl

@[simp] theorem lastChar_cons (prev : Option Char) (x : α) (text : List α) :
    lastChar prev (x :: text) = lastChar (some (char x)) text := by
  cases text with
  | nil => rfl
  | cons y text => simp [lastChar, List.getLast?_cons]

theorem lastChar_append (prev : Option Char) (u v : List α) :
    lastChar prev (u ++ v) = lastChar (lastChar prev u) v := by
  induction u generalizing prev with
  | nil => rfl
  | cons x u ih => simpa using ih (some (char x))

theorem lastChar_append_ink (prev : Option Char) (u : List Inked) (text : List Char) :
    lastChar prev (u ++ ink text) = text.getLast?.or (lastChar prev u) := by
  rw [lastChar_append, lastChar, ink, List.getLast?_map, Option.map_map]
  cases text.getLast? <;> rfl

theorem lastChar_of_ne_nil {text : List α} (htext : text ≠ []) (prev prev' : Option Char) :
    lastChar prev text = lastChar prev' text := by
  cases text with
  | nil => exact absurd rfl htext
  | cons x text => simp

end Elements

/-! ## Rules -/

/-- The next elements are copied, then some are replaced by a mask, then some are copied. -/
structure Patch where
  kept : Nat
  masked : Nat
  mask : List Char
  tail : Nat
  deriving DecidableEq

def Patch.size (p : Patch) : Nat := p.kept + p.masked + p.tail

/-- What a rule has done with the elements before and after a place. -/
abbrev Rule := Option Char → List Char → Option Patch

/-- Every patch reads something, and nothing beyond the end. -/
def Sound (rule : Rule) : Prop :=
  ∀ prev text p, rule prev text = some p → 0 < p.size ∧ p.size ≤ text.length

section Scan

variable {α : Type} [Glyph α] {rule : Rule}

/-- What becomes of the elements that a patch has read. -/
def Patch.write (p : Patch) (window : List α) : List α :=
  window.take p.kept ++ p.mask.map plain ++ window.drop (p.kept + p.masked)

/-- Go on after some elements that have been read already. -/
def scanFrom (rule : Rule) : Nat → Option Char → List α → List α
  | _, _, [] => []
  | skip + 1, _, x :: rest => scanFrom rule skip (some (char x)) rest
  | 0, prev, x :: rest =>
      match rule prev (chars (x :: rest)) with
      | some p => p.write ((x :: rest).take p.size) ++
          scanFrom rule (p.size - 1) (some (char x)) rest
      | none => x :: scanFrom rule 0 (some (char x)) rest

def scan (rule : Rule) (text : List α) : List α := scanFrom rule 0 none text

/-- The rule does nothing wherever a scan comes. -/
def Quiet (rule : Rule) : Option Char → List Char → Prop
  | _, [] => True
  | prev, c :: text => rule prev (c :: text) = none ∧ Quiet rule (some c) text

instance decidableQuiet (rule : Rule) : ∀ prev text, Decidable (Quiet rule prev text)
  | _, [] => inferInstanceAs (Decidable True)
  | _, c :: text => @instDecidableAnd _ _ inferInstance (decidableQuiet rule (some c) text)

theorem scanFrom_of_quiet {prev : Option Char} {text : List α}
    (h : Quiet rule prev (chars text)) : scanFrom rule 0 prev text = text := by
  induction text generalizing prev with
  | nil => rfl
  | cons x text ih =>
      obtain ⟨hnone, hrest⟩ := h
      have hnone : rule prev (chars (x :: text)) = none := hnone
      rw [scanFrom, hnone]
      exact congrArg (x :: ·) (ih hrest)

theorem scan_of_quiet {text : List α} (h : Quiet rule none (chars text)) :
    scan rule text = text := scanFrom_of_quiet h

/-- A scan as a relation: each element is copied, or a patch applies to the next ones. -/
inductive Scans (rule : Rule) : Option Char → List α → List α → Prop
  | nil (prev) : Scans rule prev [] []
  | keep {prev x rest out} : rule prev (chars (x :: rest)) = none →
      Scans rule (some (char x)) rest out → Scans rule prev (x :: rest) (x :: out)
  | patch {prev window rest out p} : rule prev (chars (window ++ rest)) = some p →
      window.length = p.size → Scans rule (lastChar prev window) rest out →
      Scans rule prev (window ++ rest) (p.write window ++ out)

theorem scanFrom_append (window rest : List α) (prev : Option Char) :
    scanFrom rule window.length prev (window ++ rest) =
      scanFrom rule 0 (lastChar prev window) rest := by
  induction window generalizing prev with
  | nil => rfl
  | cons x window ih => simpa [scanFrom] using ih (some (char x))

theorem scans_scanFrom (hsound : Sound rule) (prev : Option Char) (text : List α) :
    Scans rule prev text (scanFrom rule 0 prev text) := by
  induction hlength : text.length using Nat.strong_induction_on generalizing prev text with
  | _ n ih =>
    cases text with
    | nil => exact .nil prev
    | cons x rest =>
        unfold scanFrom
        split
        next p hp =>
          obtain ⟨hpos, hle⟩ := hsound _ _ _ hp
          rw [length_chars] at hle
          have hsplit := List.take_append_drop p.size (x :: rest)
          have hwindow : ((x :: rest).take p.size).length = p.size :=
            List.length_take_of_le hle
          have hskip : scanFrom rule (p.size - 1) (some (char x)) rest =
              scanFrom rule 0 (lastChar prev ((x :: rest).take p.size))
                ((x :: rest).drop p.size) := by
            rw [← scanFrom_append, hwindow, hsplit]
            obtain ⟨k, hk⟩ := Nat.exists_eq_succ_of_ne_zero hpos.ne'
            simp [hk, scanFrom]
          rw [hskip]
          have hrest := ih ((x :: rest).drop p.size).length
            (by rw [List.length_drop, hlength]; omega)
            (lastChar prev ((x :: rest).take p.size)) _ rfl
          have hwhole := @Scans.patch _ _ rule prev _ _ _ p (by rwa [hsplit]) hwindow hrest
          rwa [hsplit] at hwhole
        next hp => exact .keep hp (ih rest.length (by simp [← hlength]) _ _ rfl)

theorem scans_scan (hsound : Sound rule) (text : List α) : Scans rule none text (scan rule text) :=
  scans_scanFrom hsound none text

end Scan

/-! ## Marks -/

section Marks

variable {rule : Rule}

theorem window_split (p : Patch) {α : Type} (window : List α) :
    window = window.take p.kept ++ (window.drop p.kept).take p.masked ++
      window.drop (p.kept + p.masked) := by
  rw [List.append_assoc, ← List.drop_drop, List.take_append_drop, List.take_append_drop]

theorem inkOf_write (p : Patch) (window : List Inked) :
    inkOf (p.write window) + inkOf ((window.drop p.kept).take p.masked) = inkOf window := by
  conv_rhs => rw [window_split p window]
  simp only [Patch.write, inkOf_append, inkOf_plain]
  omega

theorem inkOf_cons_lt (x : Inked) {u v : List Inked} (hlt : inkOf v < inkOf u) :
    inkOf (x :: v) < inkOf (x :: u) := by
  simp only [inkOf, List.countP_cons] at hlt ⊢
  omega

/-- What is replaced behind a patch is replaced in the whole. -/
theorem inkOf_lt_of_rest (p : Patch) (window : List Inked) {rest out : List Inked}
    (hlt : inkOf out < inkOf rest) : inkOf (p.write window ++ out) < inkOf (window ++ rest) := by
  have hwrite := inkOf_write p window
  rw [inkOf_append, inkOf_append]
  omega

theorem inkOf_lt_of_write {p : Patch} {window rest out : List Inked}
    (hlt : inkOf (p.write window) < inkOf window) (hle : inkOf out ≤ inkOf rest) :
    inkOf (p.write window ++ out) < inkOf (window ++ rest) := by
  rw [inkOf_append, inkOf_append]
  exact Nat.add_lt_add_of_lt_of_le hlt hle

/-- A patch that replaces a marked element leaves less of the mark. -/
theorem inkOf_write_lt {p : Patch} {before after : List Inked} {c : Char}
    (hkept : p.kept ≤ before.length) (hmasked : before.length < p.kept + p.masked) :
    inkOf (p.write (before ++ ⟨c, true⟩ :: after)) < inkOf (before ++ ⟨c, true⟩ :: after) := by
  have hwrite := inkOf_write p (before ++ ⟨c, true⟩ :: after)
  have hmem : (⟨c, true⟩ : Inked) ∈
      ((before ++ ⟨c, true⟩ :: after).drop p.kept).take p.masked := by
    rw [List.drop_append_of_le_length hkept]
    have hdrop : (before.drop p.kept).length < p.masked := by
      rw [List.length_drop]
      omega
    rw [List.take_append, List.take_cons (by omega)]
    simp
  have hpos : 0 < inkOf (((before ++ ⟨c, true⟩ :: after).drop p.kept).take p.masked) :=
    List.countP_pos_iff.mpr ⟨_, hmem, rfl⟩
  omega

theorem Scans.inkOf_le {prev : Option Char} {u v : List Inked} (h : Scans rule prev u v) :
    inkOf v ≤ inkOf u := by
  induction h with
  | nil => exact le_refl _
  | keep _ _ ih =>
      simp only [inkOf, List.countP_cons] at ih ⊢
      omega
  | @patch prev window rest out p _ _ _ ih =>
      have hwrite := inkOf_write p window
      rw [inkOf_append, inkOf_append]
      omega

theorem inkOf_scan_le (hsound : Sound rule) (u : List Inked) : inkOf (scan rule u) ≤ inkOf u :=
  (scans_scan hsound u).inkOf_le

/-! ## A marked text and its neighbours -/

variable {tok : List Char} {left right : Option Char → Prop}

/-- The patch changes nothing. -/
def Patch.Idle (p : Patch) : Prop := p.masked = 0 ∧ p.mask = []

theorem Patch.Idle.write_eq {p : Patch} (hidle : p.Idle) (window : List Inked) :
    p.write window = window := by
  rw [write, hidle.1, hidle.2, Nat.add_zero, List.map_nil, List.append_nil,
    List.take_append_drop]

/-- What a rule may do to a text that stands between certain neighbours: where it reads the
text it replaces some of it or does nothing at all, and where it reads a neighbour it leaves one
that will do. -/
structure Spares (rule : Rule) (tok : List Char) (left right : Option Char → Prop) : Prop where
  inside : ∀ prev before c within after p, tok = before ++ c :: within → right after.head? →
    rule (before.getLast?.or prev) (c :: within ++ after) = some p → p.kept = 0 ∧ 0 < p.masked
  across : ∀ prev before after p, before ≠ [] → left before.getLast? → right after.head? →
    rule prev (before ++ tok ++ after) = some p → before.length < p.size →
      p.Idle ∨ p.kept ≤ before.length ∧ before.length < p.kept + p.masked
  before : ∀ prev before after p, before ≠ [] → left before.getLast? → right after.head? →
    rule prev (before ++ tok ++ after) = some p → p.size = before.length → p.tail = 0 →
      p.Idle ∨ p.mask ≠ [] ∧ left p.mask.getLast?
  after : ∀ prev text p, right text.head? → rule prev text = some p → p.kept = 0 →
    p.mask ≠ [] ∧ right p.mask.head?

theorem head?_chars {α : Type} [Glyph α] (text : List α) : (chars text).head? = firstChar text :=
  List.head?_map

theorem getLast?_chars {α : Type} [Glyph α] {text : List α} (htext : text ≠ [])
    (prev : Option Char) : (chars text).getLast? = lastChar prev text := by
  simp [chars, lastChar, List.getLast?_map, List.getLast?_eq_some_getLast htext]

theorem firstChar_append {α : Type} [Glyph α] {u : List α} (hu : u ≠ []) (v : List α) :
    firstChar (u ++ v) = firstChar u := by
  cases u with
  | nil => exact absurd rfl hu
  | cons x u => rfl

theorem lastChar_plain {text : List Char} (htext : text ≠ []) (prev : Option Char) :
    lastChar prev (text.map (plain : Char → Inked)) = text.getLast? := by
  rw [← getLast?_chars (by simpa using htext), chars_plain]

theorem lastChar_plainText (prev : Option Char) (u : List Inked) :
    lastChar prev (plainText (chars u)) = lastChar prev u := by
  simp [lastChar, plainText, chars, Function.comp_def]

theorem firstChar_plainText (u : List Inked) : firstChar (plainText (chars u)) = firstChar u := by
  simp [firstChar, plainText, chars, Function.comp_def]

theorem window_ne_nil (hsound : Sound rule) {prev : Option Char} {window rest : List Inked}
    {p : Patch} (hrule : rule prev (chars (window ++ rest)) = some p)
    (hsize : window.length = p.size) : window ≠ [] := by
  rintro rfl
  have hpos := (hsound _ _ _ hrule).1
  simp only [List.length_nil] at hsize
  omega

/-- The neighbour after a place remains one that will do. -/
theorem Scans.right_of (hsound : Sound rule) (hspares : Spares rule tok left right)
    {prev : Option Char} {u v : List Inked} (h : Scans rule prev u v)
    (hright : right (firstChar u)) : right (firstChar v) := by
  cases h with
  | nil => exact hright
  | keep _ _ => exact hright
  | @patch _ window rest out p hrule hsize hrest =>
      have hwindow := window_ne_nil hsound hrule hsize
      rw [firstChar_append hwindow] at hright
      by_cases hkept : p.kept = 0
      · have hafter := hspares.after prev _ p
          (by rwa [head?_chars, firstChar_append hwindow]) hrule hkept
        have hmask : firstChar (p.write window ++ out) = p.mask.head? := by
          rw [Patch.write, hkept, List.take_zero, List.nil_append, List.append_assoc,
            firstChar_append (by simpa using hafter.1), ← head?_chars, chars_plain]
        exact hmask ▸ hafter.2
      · obtain ⟨x, window, rfl⟩ := List.exists_cons_of_ne_nil hwindow
        have hfirst : firstChar (p.write (x :: window) ++ out) = firstChar (x :: window) := by
          rw [Patch.write, List.take_cons (by omega)]
          rfl
        exact hfirst ▸ hright

/-- Inside the text nothing is done, or some of it is replaced. -/
theorem Scans.inside (hsound : Sound rule) (hspares : Spares rule tok left right)
    {prev : Option Char} {u v : List Inked} (h : Scans rule prev u v) :
    ∀ before within after prev₀, tok = before ++ within → u = ink within ++ after →
      prev = before.getLast?.or prev₀ → right (firstChar after) →
      (∃ after', v = ink within ++ after' ∧ right (firstChar after')) ∨ inkOf v < inkOf u := by
  intro before within after prev₀ htok hu hprev hright
  induction within generalizing before prev u v with
  | nil =>
      rw [ink, List.map_nil, List.nil_append] at hu
      subst hu
      exact Or.inl ⟨v, rfl, h.right_of hsound hspares hright⟩
  | cons c within ih =>
      cases h with
      | nil => cases hu
      | @keep _ x rest out hrule hrest =>
          rw [ink, List.map_cons, List.cons_append] at hu
          obtain ⟨rfl, rfl⟩ := List.cons.inj hu
          obtain ⟨after', rfl, hright'⟩ | hlt :=
            ih hrest (before ++ [c]) (by simpa using htok) rfl (by simp [char])
          · exact Or.inl ⟨after', rfl, hright'⟩
          · exact Or.inr (inkOf_cons_lt _ hlt)
      | @patch _ window rest out p hrule hsize hrest =>
          have hwindow := window_ne_nil hsound hrule hsize
          rw [hu] at hrule
          obtain ⟨hkept, hmasked⟩ := hspares.inside prev₀ before c within (chars after) p htok
            (by rwa [head?_chars]) (by rw [← hprev]; simpa using hrule)
          obtain ⟨x, window, rfl⟩ := List.exists_cons_of_ne_nil hwindow
          obtain ⟨rfl, -⟩ := List.cons.inj hu
          have hlt := @inkOf_write_lt p [] window c
            (by simp [hkept]) (by simp [hkept, hmasked])
          exact Or.inr (inkOf_lt_of_write hlt hrest.inkOf_le)

/-- A patch that ends before the text leaves a neighbour that will do. -/
theorem left_write (hspares : Spares rule tok left right) {prev prevOut : Option Char}
    {window : List Inked} {after : List Char} {p : Patch} (hwindow : window ≠ [])
    (hrule : rule prev (chars window ++ tok ++ after) = some p) (hsize : window.length = p.size)
    (hleft : left (lastChar prev window)) (hright : right after.head?) :
    left (lastChar prevOut (p.write window)) := by
  have hchars : chars window ≠ [] := by simpa [chars] using hwindow
  have hsame : lastChar prevOut window = lastChar prev window := lastChar_of_ne_nil hwindow _ _
  by_cases htail : p.tail = 0
  · obtain hidle | ⟨hmask, hlast⟩ := hspares.before prev (chars window) after p hchars
      (by rwa [getLast?_chars hwindow prev]) hright hrule (by simp [hsize]) htail
    · rw [hidle.write_eq, hsame]
      exact hleft
    · have hdrop : window.drop (p.kept + p.masked) = [] :=
        List.drop_eq_nil_of_le (by rw [hsize, Patch.size]; omega)
      rw [Patch.write, hdrop, List.append_nil, lastChar_append, lastChar_plain hmask]
      exact hlast
  · have hdrop : window.drop (p.kept + p.masked) ≠ [] := by
      rw [Ne, List.drop_eq_nil_iff, hsize, Patch.size]
      omega
    have hsplit := List.take_append_drop (p.kept + p.masked) window
    rw [← hsplit, lastChar_append, lastChar_of_ne_nil hdrop _ none] at hleft
    rw [Patch.write, lastChar_append, lastChar_of_ne_nil hdrop _ none]
    exact hleft

/-- A patch that reads into the text replaces some of it. -/
theorem inkOf_write_lt_of_across (htok : tok ≠ []) {before read rest after : List Inked}
    {p : Patch} (hread : read ≠ []) (hsplit : ink tok ++ after = read ++ rest)
    (hkept : p.kept ≤ before.length) (hmasked : before.length < p.kept + p.masked) :
    inkOf (p.write (before ++ read)) < inkOf (before ++ read) := by
  obtain ⟨c, tok, rfl⟩ := List.exists_cons_of_ne_nil htok
  obtain ⟨x, read, rfl⟩ := List.exists_cons_of_ne_nil hread
  obtain ⟨rfl, -⟩ := List.cons.inj hsplit
  exact inkOf_write_lt hkept hmasked

/-- What a patch replaces of the token, if it keeps the lead and something of the token. -/
theorem inkOf_write_lt_behind {lead : List Char} {p : Patch}
    {window rest after : List Inked}
    (hsplit : window ++ rest = plainText lead ++ ink tok ++ after) (hsize : window.length = p.size)
    (hlead : lead.length ≤ p.kept) (hkept : p.kept < (lead ++ tok).length)
    (hmasked : 0 < p.masked) : inkOf (p.write window) < inkOf window := by
  have hindex : p.kept < window.length := by
    rw [hsize, Patch.size]
    omega
  have hwithin : p.kept - lead.length < tok.length := by
    rw [List.length_append] at hkept
    omega
  have hmarked : window[p.kept]? = some ⟨tok[p.kept - lead.length], true⟩ := by
    have hwhole : (window ++ rest)[p.kept]? = window[p.kept]? :=
      List.getElem?_append_left hindex
    rw [← hwhole, hsplit, List.append_assoc,
      List.getElem?_append_right (by simpa [plainText] using hlead),
      List.getElem?_append_left (by simpa [plainText] using hwithin)]
    simp [plainText, ink]
  obtain ⟨_, hget⟩ := List.getElem?_eq_some_iff.mp hmarked
  have hdrop := List.drop_eq_getElem_cons hindex
  have hwindow := List.take_append_drop p.kept window
  rw [hdrop, hget] at hwindow
  rw [← hwindow]
  refine inkOf_write_lt ?_ ?_
  · rw [List.length_take_of_le hindex.le]
  · rw [List.length_take_of_le hindex.le]
    omega

/-- A patch ends before a text that stands behind it, or it reads into the text. -/
theorem ends_or_reads {window rest before after : List Inked} {tok : List Char}
    (hu : window ++ rest = before ++ ink tok ++ after) :
    (∃ before₂, before = window ++ before₂ ∧ rest = before₂ ++ ink tok ++ after) ∨
      ∃ read, read ≠ [] ∧ window = before ++ read ∧ ink tok ++ after = read ++ rest ∧
        before.length < window.length := by
  rw [List.append_assoc] at hu
  obtain ⟨before₂, rfl, hrest⟩ | ⟨read, rfl, hread⟩ := List.append_eq_append_iff.mp hu
  · exact Or.inl ⟨before₂, rfl, by rw [hrest, List.append_assoc]⟩
  by_cases hnil : read = []
  · subst hnil
    exact Or.inl ⟨[], by simp, by simpa using hread.symm⟩
  · refine Or.inr ⟨read, hnil, rfl, hread, ?_⟩
    rw [List.length_append]
    exact Nat.lt_add_of_pos_right (List.length_pos_of_ne_nil hnil)

/-- A patch that has read into the text without changing it: the rest of the text stands behind it,
or some of that is replaced. -/
theorem Scans.read_on (hsound : Sound rule) (hspares : Spares rule tok left right)
    {prev : Option Char} {before read rest after out : List Inked}
    (h : Scans rule (lastChar prev (before ++ read)) rest out)
    (hread : ink tok ++ after = read ++ rest) (hright : right (firstChar after)) :
    (∃ after', read ++ out = ink tok ++ after' ∧ right (firstChar after')) ∨
      inkOf out < inkOf rest := by
  obtain ⟨beyond, rfl, rfl⟩ | ⟨within, hwithin, rfl⟩ := List.append_eq_append_iff.mp hread
  · refine Or.inl ⟨beyond ++ out, List.append_assoc _ _ _, ?_⟩
    cases beyond with
    | nil => exact h.right_of hsound hspares hright
    | cons x beyond => exact hright
  · obtain ⟨t₁, t₂, rfl, rfl, rfl⟩ := List.map_eq_append_iff.mp hwithin
    obtain ⟨after', rfl, hright'⟩ | hlt := h.inside hsound hspares t₁ t₂ after
      (lastChar prev before) rfl rfl (by simpa [ink] using lastChar_append_ink prev before t₁) hright
    · exact Or.inl ⟨after', by simp [ink], hright'⟩
    · exact Or.inr hlt

theorem not_nil_of_stands (htok : tok ≠ []) {before after : List Inked} :
    ([] : List Inked) ≠ before ++ ink tok ++ after := by
  intro hu
  have hlength := congrArg List.length hu
  have hpos := List.length_pos_of_ne_nil htok
  simp only [List.length_nil, List.length_append, length_ink] at hlength
  omega

/-- Where the text stands it goes on to stand, or some of it is replaced. -/
theorem Scans.stands (hsound : Sound rule) (hspares : Spares rule tok left right)
    (htok : tok ≠ []) {prev : Option Char} {u v : List Inked} (h : Scans rule prev u v) :
    ∀ before after prevOut, u = before ++ ink tok ++ after → left (lastChar prev before) →
      right (firstChar after) → (before = [] → left prevOut) →
      (∃ before' after', v = before' ++ ink tok ++ after' ∧ left (lastChar prevOut before') ∧
        right (firstChar after')) ∨ inkOf v < inkOf u := by
  induction h with
  | nil =>
      intro before after prevOut hu
      exact absurd hu (not_nil_of_stands htok)
  | @keep prev x rest out hrule hrest ih =>
      intro before after prevOut hu hleft hright hprev
      cases before with
      | nil =>
          obtain ⟨after', hout, hright'⟩ | hlt := (Scans.keep hrule hrest).inside hsound hspares
            [] tok after prev rfl hu rfl hright
          · exact Or.inl ⟨[], after', hout, hprev rfl, hright'⟩
          · exact Or.inr hlt
      | cons y before =>
          obtain ⟨rfl, rfl⟩ := List.cons.inj hu
          rw [lastChar_cons] at hleft
          obtain ⟨before', after', rfl, hleft', hright'⟩ | hlt :=
            ih before after (some (char x)) rfl hleft hright fun hnil => by
              simpa [hnil] using hleft
          · exact Or.inl ⟨x :: before', after', rfl, by simpa using hleft', hright'⟩
          · exact Or.inr (inkOf_cons_lt x hlt)
  | @patch prev window rest out p hrule hsize hrest ih =>
      intro before after prevOut hu hleft hright hprev
      have hwindow := window_ne_nil hsound hrule hsize
      by_cases hbefore : before = []
      · -- The patch begins with the text.
        subst hbefore
        obtain ⟨after', hout, hright'⟩ | hlt := (Scans.patch hrule hsize hrest).inside hsound
          hspares [] tok after prev rfl hu rfl hright
        · exact Or.inl ⟨[], after', hout, hprev rfl, hright'⟩
        · exact Or.inr hlt
      have hfirst : right (chars after).head? := by rwa [head?_chars]
      have hrule' : rule prev (chars before ++ tok ++ chars after) = some p := by
        simpa [hu] using hrule
      obtain ⟨before₂, rfl, hrest'⟩ | ⟨read, hnil, rfl, hread, hshort⟩ := ends_or_reads hu
      · -- Where the patch ends before the text, the rest of the scan keeps it.
        have hprev' : before₂ = [] → left (lastChar prevOut (p.write window)) := by
          rintro rfl
          rw [List.append_nil] at hrule' hleft
          exact left_write hspares hwindow hrule' hsize hleft hfirst
        rw [lastChar_append] at hleft
        obtain ⟨before', after', rfl, hleft', hright'⟩ | hlt :=
          ih before₂ after (lastChar prevOut (p.write window)) hrest' hleft hright hprev'
        · refine Or.inl ⟨p.write window ++ before', after', by simp, ?_, hright'⟩
          rwa [lastChar_append]
        · exact Or.inr (inkOf_lt_of_rest p window hlt)
      -- Where it reads into the text, it changes nothing or replaces some of the text.
      obtain hidle | ⟨hkept, hmasked⟩ := hspares.across prev (chars before) (chars after) p
        (by simpa [chars] using hbefore) (by rwa [getLast?_chars hbefore prev]) hfirst hrule'
        (by rwa [length_chars, ← hsize])
      · obtain ⟨after', hout, hright'⟩ | hlt := hrest.read_on hsound hspares hread hright
        · refine Or.inl ⟨before, after', ?_, ?_, hright'⟩
          · rw [hidle.write_eq, List.append_assoc, hout, List.append_assoc]
          · rwa [lastChar_of_ne_nil hbefore _ prev]
        · exact Or.inr (inkOf_lt_of_rest p _ hlt)
      · have hlt := inkOf_write_lt_of_across htok hnil hread (by simpa using hkept)
          (by simpa using hmasked)
        exact Or.inr (inkOf_lt_of_write hlt hrest.inkOf_le)

/-- The rule that looks for a text replaces some of it wherever it finds it between certain
neighbours, and wherever it reads into it. -/
structure Catches (rule : Rule) (tok : List Char) (left right : Option Char → Prop) : Prop where
  here : ∀ prev after, left prev → right after.head? →
    ∃ p, rule prev (tok ++ after) = some p ∧ p.kept < tok.length ∧ 0 < p.masked
  across : ∀ prev before after p, before ≠ [] → left before.getLast? → right after.head? →
    rule prev (before ++ tok ++ after) = some p → before.length < p.size →
      p.kept ≤ before.length ∧ before.length < p.kept + p.masked

theorem Scans.caught (hsound : Sound rule) (hcatches : Catches rule tok left right)
    (htok : tok ≠ []) {prev : Option Char} {u v : List Inked} (h : Scans rule prev u v) :
    ∀ before after, u = before ++ ink tok ++ after → left (lastChar prev before) →
      right (firstChar after) → inkOf v < inkOf u := by
  induction h with
  | nil =>
      intro before after hu
      exact absurd hu (not_nil_of_stands htok)
  | @keep prev x rest out hrule hrest ih =>
      intro before after hu hleft hright
      cases before with
      | nil =>
          obtain ⟨p, hp, -⟩ := hcatches.here prev (chars after) hleft (by rwa [head?_chars])
          rw [hu] at hrule
          simp [hp] at hrule
      | cons y before =>
          obtain ⟨rfl, rfl⟩ := List.cons.inj hu
          rw [lastChar_cons] at hleft
          exact inkOf_cons_lt x (ih before after rfl hleft hright)
  | @patch prev window rest out p hrule hsize hrest ih =>
      intro before after hu hleft hright
      have hwindow := window_ne_nil hsound hrule hsize
      have hfirst : right (chars after).head? := by rwa [head?_chars]
      by_cases hbefore : before = []
      · -- The patch begins with the text, so it is the one that replaces some of it.
        subst hbefore
        obtain ⟨p', hp', hkept, hmasked⟩ := hcatches.here prev (chars after) hleft hfirst
        obtain rfl : p' = p := by
          rw [hu] at hrule
          simpa [hp'] using hrule
        have hlt : inkOf (p'.write window) < inkOf window :=
          @inkOf_write_lt_behind tok [] p' window rest after hu hsize (Nat.zero_le _) hkept hmasked
        exact inkOf_lt_of_write hlt hrest.inkOf_le
      have hrule' : rule prev (chars before ++ tok ++ chars after) = some p := by
        simpa [hu] using hrule
      obtain ⟨before₂, rfl, hrest'⟩ | ⟨read, hnil, rfl, hread, hshort⟩ := ends_or_reads hu
      · rw [lastChar_append] at hleft
        exact inkOf_lt_of_rest p window (ih before₂ after hrest' hleft hright)
      obtain ⟨hkept, hmasked⟩ := hcatches.across prev (chars before) (chars after) p
        (by simpa [chars] using hbefore) (by rwa [getLast?_chars hbefore prev]) hfirst hrule'
        (by rwa [length_chars, ← hsize])
      have hlt := inkOf_write_lt_of_across htok hnil hread (by simpa using hkept)
        (by simpa using hmasked)
      exact inkOf_lt_of_write hlt hrest.inkOf_le

/-! ## Texts that go through several scans -/

/-- Of a marked text some has been replaced, or it stands between neighbours that will do. -/
structure Tracked (tok : List Char) (left right : Option Char → Prop) (u : List Inked) : Prop where
  le : inkOf u ≤ tok.length
  stands : inkOf u = tok.length →
    ∃ before after, u = before ++ ink tok ++ after ∧ left (lastChar none before) ∧
      right (firstChar after)

theorem Tracked.scan (hsound : Sound rule) (hspares : Spares rule tok left right)
    (htok : tok ≠ []) {u : List Inked} (h : Tracked tok left right u) (hnone : left none) :
    Tracked tok left right (scan rule u) := by
  have hle := inkOf_scan_le hsound u
  refine ⟨hle.trans h.le, fun hink => ?_⟩
  obtain ⟨before, after, hu, hleft, hright⟩ := h.stands (le_antisymm h.le (hink ▸ hle))
  obtain hstands | hlt := (scans_scan hsound u).stands hsound hspares htok before after none hu
    hleft hright fun _ => hnone
  · exact hstands
  · have hbound := h.le
    omega

theorem Tracked.caught (hsound : Sound rule) (hcatches : Catches rule tok left right)
    (htok : tok ≠ []) {u : List Inked} (h : Tracked tok left right u) :
    inkOf (Scanner.scan rule u) < tok.length := by
  have hle := inkOf_scan_le hsound u
  obtain hlt | heq := h.le.lt_or_eq
  · exact hle.trans_lt hlt
  · obtain ⟨before, after, hu, hleft, hright⟩ := h.stands heq
    have hlt := (scans_scan hsound u).caught hsound hcatches htok before after hu hleft hright
    omega

theorem tracked_of_marked {before after : List Char} (hleft : left before.getLast?)
    (hright : right after.head?) :
    Tracked tok left right (plainText before ++ ink tok ++ plainText after) := by
  refine ⟨by simp [plainText], fun _ => ⟨_, _, rfl, ?_, ?_⟩⟩
  · cases before with
    | nil => exact hleft
    | cons c before =>
        rwa [plainText, lastChar_plain (List.cons_ne_nil c before)]
  · rwa [plainText, ← head?_chars, chars_plain]

/-- A marked text of which some has been replaced is not there any more. -/
theorem not_infix_of_inkOf_lt {u : List Inked} (hlt : inkOf u < tok.length) : ¬ink tok <:+: u := by
  intro hthere
  have hle := inkOf_le_of_sublist hthere.sublist
  rw [inkOf_ink] at hle
  omega

end Marks

/-! ## Two marks

A lead and the token behind it are followed together and are then seen one by one: a scan does
not see what elements carry, so what it makes of one mark follows from what it makes of both.
-/

section Maps

variable {α β γ : Type} [Glyph α] [Glyph β] {rule : Rule} {f : α → β}

theorem chars_map (hchar : ∀ x, char (f x) = char x) (text : List α) :
    chars (text.map f) = chars text := by
  simp [chars, Function.comp_def, hchar]

theorem Patch.write_map (hplain : ∀ c, f (plain c) = plain c) (p : Patch) (window : List α) :
    p.write (window.map f) = (p.write window).map f := by
  simp [Patch.write, Function.comp_def, hplain, List.map_take, List.map_drop]

theorem scanFrom_map (hchar : ∀ x, char (f x) = char x) (hplain : ∀ c, f (plain c) = plain c)
    (skip : Nat) (prev : Option Char) (text : List α) :
    scanFrom rule skip prev (text.map f) = (scanFrom rule skip prev text).map f := by
  induction text generalizing skip prev with
  | nil => cases skip <;> rfl
  | cons x text ih =>
      cases skip with
      | succ skip => rw [List.map_cons, scanFrom, scanFrom, hchar, ih]
      | zero =>
          have hchars : chars (f x :: text.map f) = chars (x :: text) :=
            chars_map hchar (x :: text)
          rw [List.map_cons, scanFrom, scanFrom, hchars, hchar]
          split
          next p _ =>
            rw [ih, List.map_append, ← p.write_map hplain, List.map_take, List.map_cons]
          next => rw [ih, List.map_cons]

theorem scan_map (hchar : ∀ x, char (f x) = char x) (hplain : ∀ c, f (plain c) = plain c)
    (text : List α) : scan rule (text.map f) = (scan rule text).map f :=
  scanFrom_map hchar hplain 0 none text

/-- What is seen of the elements, but not of masks, is left in its order. -/
theorem Scans.filterMap_sublist {g : α → Option γ} (hplain : ∀ c, g (plain c) = none)
    {prev : Option Char} {u v : List α} (h : Scans rule prev u v) :
    (v.filterMap g).Sublist (u.filterMap g) := by
  induction h with
  | nil => exact List.Sublist.refl _
  | @keep _ x rest out _ _ ih =>
      rw [List.filterMap_cons, List.filterMap_cons]
      cases g x with
      | none => exact ih
      | some y => exact ih.cons_cons y
  | @patch _ window rest out p _ _ _ ih =>
      have hmask : (p.mask.map (plain : Char → α)).filterMap g = [] := by
        simp [hplain]
      rw [Patch.write, List.filterMap_append, List.filterMap_append, List.filterMap_append, hmask,
        List.append_nil, List.filterMap_append]
      refine List.Sublist.append ?_ ih
      conv_rhs => rw [window_split p window]
      rw [List.filterMap_append, List.filterMap_append]
      exact List.Sublist.append (List.sublist_append_left _ _) (List.Sublist.refl _)

end Maps

/-- An element of a lead, of the token behind it, or of neither. -/
inductive Part where
  | other
  | lead
  | token
  deriving DecidableEq

structure Parted where
  glyph : Char
  part : Part

instance : Glyph Parted where
  char := Parted.glyph
  plain c := ⟨c, .other⟩
  char_plain _ := rfl

namespace Parted

/-- What some of the parts are seen as. -/
def seen (parts : List Part) (x : Parted) : Inked := ⟨x.glyph, x.part ∈ parts⟩

/-- The part that an element belongs to, if it is not a mask. -/
def owner (x : Parted) : Option Part := if x.part = .other then none else some x.part

def text (before lead token after : List Char) : List Parted :=
  before.map plain ++ lead.map (⟨·, .lead⟩) ++ token.map (⟨·, .token⟩) ++ after.map plain

theorem seen_token (before lead token after : List Char) :
    (text before lead token after).map (seen [.token]) =
      plainText (before ++ lead) ++ ink token ++ plainText after := by
  simp [text, seen, plainText, ink, Function.comp_def, plain]

theorem seen_lead (before lead token after : List Char) :
    (text before lead token after).map (seen [.lead]) =
      plainText before ++ ink lead ++ plainText (token ++ after) := by
  simp [text, seen, plainText, ink, Function.comp_def, plain]

theorem seen_both (before lead token after : List Char) :
    (text before lead token after).map (seen [.lead, .token]) =
      plainText before ++ ink (lead ++ token) ++ plainText after := by
  simp [text, seen, plainText, ink, Function.comp_def, plain]

theorem inkOf_seen (u : List Parted) :
    inkOf (u.map (seen [.lead, .token])) =
      inkOf (u.map (seen [.lead])) + inkOf (u.map (seen [.token])) := by
  induction u with
  | nil => rfl
  | cons x u ih =>
      obtain ⟨c, part⟩ := x
      simp only [List.map_cons, inkOf, List.countP_cons] at ih ⊢
      cases part <;> simp [seen, -List.countP_map] <;> omega

theorem owner_text (before lead token after : List Char) :
    (text before lead token after).filterMap owner =
      lead.map (fun _ => .lead) ++ token.map (fun _ => .token) := by
  simp [text, owner, List.filterMap_map, Function.comp_def, plain]

theorem of_no_ink {u : List Parted} (h : inkOf (u.map (seen [.lead, .token])) = 0) :
    u.filterMap owner = [] ∧ u.map (seen [.token]) = plainText (chars u) := by
  have hother : ∀ x ∈ u, x.part = .other := by
    intro x hx
    have hseen := List.countP_eq_zero.mp h _ (List.mem_map_of_mem hx)
    obtain ⟨c, part⟩ := x
    cases part <;> simp [seen] at hseen ⊢
  refine ⟨List.filterMap_eq_nil_iff.mpr fun x hx => by simp [owner, hother x hx], ?_⟩
  rw [plainText, chars, List.map_map]
  exact List.map_congr_left fun x hx => by simp [seen, hother x hx, plain, char]

/-- Elements that are seen with the marks of a lead and a token, in their order. -/
theorem of_all_ink {u : List Parted} {lead token : List Char}
    (hseen : u.map (seen [.lead, .token]) = ink (lead ++ token))
    (howner : (u.filterMap owner).Sublist
      (lead.map (fun _ => .lead) ++ token.map (fun _ => .token))) :
    u.map (seen [.token]) = plainText lead ++ ink token := by
  have hpart : ∀ x ∈ u, x.part ≠ .other := by
    intro x hx hother
    have hmem : seen [.lead, .token] x ∈ ink (lead ++ token) := hseen ▸ List.mem_map_of_mem hx
    obtain ⟨c, -, hc⟩ := List.mem_map.mp hmem
    simpa [seen, hother] using congrArg Inked.inked hc
  have hparts : u.filterMap owner = u.map part := by
    rw [← List.filterMap_eq_map]
    exact List.filterMap_congr fun x hx => by simp [owner, hpart x hx]
  have hglyphs : u.map glyph = lead ++ token := by
    have hchars := congrArg chars hseen
    rwa [chars_ink, chars_map (f := seen _) (fun _ => rfl)] at hchars
  have hlength : u.length = lead.length + token.length := by
    simpa using congrArg List.length hglyphs
  have hsame := howner.eq_of_length (by simp [hparts, hlength])
  rw [hparts] at hsame
  have hzip : u = List.zipWith Parted.mk (u.map glyph) (u.map part) := by
    simp [List.zipWith_map, List.zipWith_self]
  rw [hzip, hglyphs, hsame, List.zipWith_append (by simp), List.zipWith_map_right,
    List.zipWith_map_right, List.zipWith_self, List.zipWith_self]
  simp [plainText, ink, seen, plain, Function.comp_def]

/-- A token that stands behind its lead is the only one that is seen. -/
theorem of_stands {u : List Parted} {lead token : List Char} {before after : List Inked}
    (howner : (u.filterMap owner).Sublist
      (lead.map (fun _ => .lead) ++ token.map (fun _ => .token)))
    (hall : inkOf (u.map (seen [.lead, .token])) = (lead ++ token).length)
    (hstands : u.map (seen [.lead, .token]) = before ++ ink (lead ++ token) ++ after) :
    u.map (seen [.token]) =
      plainText (chars before ++ lead) ++ ink token ++ plainText (chars after) := by
  rw [hstands, inkOf_append, inkOf_append, inkOf_ink] at hall
  obtain ⟨front, back, rfl, hfront, rfl⟩ := List.map_eq_append_iff.mp hstands
  obtain ⟨first, middle, rfl, rfl, hmiddle⟩ := List.map_eq_append_iff.mp hfront
  obtain ⟨hfirst, hfirstSeen⟩ := of_no_ink (u := first) (by omega)
  obtain ⟨hback, hbackSeen⟩ := of_no_ink (u := back) (by omega)
  rw [List.filterMap_append, List.filterMap_append, hfirst, hback, List.nil_append,
    List.append_nil] at howner
  have hchars : ∀ v : List Parted, chars (v.map (seen [.lead, .token])) = chars v :=
    chars_map (f := seen _) fun _ => rfl
  rw [List.map_append, List.map_append, hfirstSeen, hbackSeen, of_all_ink hmiddle howner, hchars,
    hchars]
  simp [plainText]

end Parted

/-- A rule that replaces some of a token wherever it stands behind its lead, and never reads on
into the lead. -/
structure CatchesBehind (rule : Rule) (lead tok : List Char) (left right : Option Char → Prop) :
    Prop where
  here : ∀ prev after, left prev → right after.head? →
    ∃ p, rule prev (lead ++ tok ++ after) = some p ∧ lead.length ≤ p.kept ∧
      p.kept < (lead ++ tok).length ∧ 0 < p.masked
  across : ∀ prev before after p, before ≠ [] → left before.getLast? →
    rule prev (before ++ (lead ++ tok ++ after)) = some p → p.size ≤ before.length

section Behind

variable {rule : Rule} {lead tok : List Char} {left right : Option Char → Prop}

theorem Scans.caught_behind (hcatches : CatchesBehind rule lead tok left right)
    {prev : Option Char} {u v : List Inked} (h : Scans rule prev u v) :
    ∀ before after, u = before ++ (plainText lead ++ ink tok ++ after) →
      left (lastChar prev before) → right (firstChar after) → inkOf v < inkOf u := by
  have hchars : ∀ after : List Inked,
      chars (plainText lead ++ ink tok ++ after) = lead ++ tok ++ chars after := by
    intro after
    rw [chars_append, chars_append, chars_ink, plainText, chars_plain]
  have hhere : ∀ prev (after : List Inked), left prev → right (firstChar after) →
      ∃ p, rule prev (lead ++ tok ++ chars after) = some p ∧ lead.length ≤ p.kept ∧
        p.kept < (lead ++ tok).length ∧ 0 < p.masked :=
    fun prev after hleft hright => hcatches.here prev (chars after) hleft (by rwa [head?_chars])
  induction h with
  | nil prev =>
      intro before after hu hleft hright
      obtain ⟨rfl, hu⟩ := List.append_eq_nil_iff.mp hu.symm
      obtain ⟨p, -, -, hkept, -⟩ := hhere prev after hleft hright
      have hlength := congrArg List.length hu
      simp only [List.length_append, length_ink, plainText, List.length_map, List.length_nil]
        at hlength hkept
      omega
  | @keep prev x rest out hrule hrest ih =>
      intro before after hu hleft hright
      cases before with
      | nil =>
          obtain ⟨p, hp, -⟩ := hhere prev after hleft hright
          rw [hu, List.nil_append, hchars, hp] at hrule
          cases hrule
      | cons y before =>
          obtain ⟨rfl, rfl⟩ := List.cons.inj hu
          rw [lastChar_cons] at hleft
          exact inkOf_cons_lt x (ih before after rfl hleft hright)
  | @patch prev window rest out p hrule hsize hrest ih =>
      intro before after hu hleft hright
      cases before with
      | nil =>
          -- the patch is the one that the rule has for the token
          obtain ⟨p', hp', hlead, hkept, hmasked⟩ := hhere prev after hleft hright
          rw [List.nil_append] at hu
          obtain rfl : p' = p := by
            rw [hu, hchars, hp'] at hrule
            exact Option.some.inj hrule
          exact inkOf_lt_of_write (inkOf_write_lt_behind hu hsize hlead hkept hmasked)
            hrest.inkOf_le
      | cons y before =>
          -- a patch that begins in front of the token ends there
          have hshort := hcatches.across prev (chars (y :: before)) (chars after) p
            (by simp) (by rwa [getLast?_chars (List.cons_ne_nil y before) prev])
            (by rw [← hchars, ← chars_append, ← hu]; exact hrule)
          rw [length_chars, ← hsize] at hshort
          obtain ⟨before₂, hbefore⟩ := List.prefix_of_prefix_length_le
            (List.prefix_append window rest) (hu ▸ List.prefix_append _ _) hshort
          rw [← hbefore, List.append_assoc] at hu
          rw [← hbefore, lastChar_append] at hleft
          exact inkOf_lt_of_rest p window
            (ih before₂ after (List.append_cancel_left hu) hleft hright)

end Behind

end Scanner
