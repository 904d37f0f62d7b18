import PowerForensics.Core.JsonCursorRefinement
import PowerForensics.Core.JsonReader

/-! # The cursor is always valid

The invariant of a run is that the cursor stands between two characters of the text. An observer
keeps the calls that are open: every value, array and object is called at the depth that is the
number of arrays and objects open around it, and every return is that of the innermost call, at
the depth it was made at.
-/

namespace PowerForensics.Json.Cursor

open Observed Observed.Run

/-- A position between two characters, before the first one or behind the last one. -/
def OnBoundary (text : List Char) (pos : Nat) : Prop :=
  ∃ before after, text = before ++ after ∧ pos = (Utf8.encode before).length

def size (text : List Char) : Nat := (Utf8.encode text).length

namespace Method

/-- The depth that a method is called with. -/
def depth? : Method → Option Nat
  | value depth => some depth
  | array depth => some depth
  | object depth => some depth
  | _ => none

/-- An array or an object is read. -/
def isContainer : Method → Bool
  | array _ => true
  | object _ => true
  | _ => false

end Method

/-- How many arrays and objects are open. -/
def containers (opened : List Method) : Nat := opened.countP Method.isContainer

/-- A call goes into the calls that are open if it is at the right depth, a return takes the
innermost one away if it is the return of it at the same depth. -/
def follow (opened : List Method) : Event → Option (List Method)
  | .enter m _ =>
      if ∀ depth ∈ m.depth?, depth = containers opened then some (m :: opened) else none
  | .leave m _ _ _ =>
      if opened.head? = some m ∧ ∀ depth ∈ m.depth?, depth = containers opened.tail then
        some opened.tail
      else none
  | _ => some opened

/-- What holds of the positions of an event. -/
def Event.Valid (text : List Char) : Event → Prop
  | .enter m pos =>
      pos ≤ size text ∧ OnBoundary text pos ∧ ∀ depth ∈ m.depth?, depth ≤ Parser.depthLimit + 1
  | .leave _ start pos ok =>
      start ≤ pos ∧ pos ≤ size text ∧ OnBoundary text pos ∧ (ok = true → start < pos)
  | .move start pos => start ≤ pos ∧ pos ≤ size text ∧ OnBoundary text pos
  | .pass _ start pos => start < pos ∧ pos ≤ size text ∧ OnBoundary text pos
  | .text start stop pos =>
      start ≤ stop ∧ stop ≤ size text ∧ OnBoundary text start ∧ OnBoundary text pos

def monitor (text : List Char) : Monitor Nat Event (List Method) where
  inv := OnBoundary text
  valid := Event.Valid text
  next := follow

/-! ## Boundaries -/

section Boundaries

variable {text : List Char} {pos : Nat}

theorem onBoundary_zero (text : List Char) : OnBoundary text 0 := ⟨[], text, rfl, rfl⟩

theorem OnBoundary.le_size (hpos : OnBoundary text pos) : pos ≤ size text := by
  obtain ⟨before, after, rfl, rfl⟩ := hpos
  rw [size, Utf8.encode_append, List.length_append]
  omega

/-- Behind characters that the text goes on with there is a boundary. -/
theorem OnBoundary.add {ds : List Char} (hpos : OnBoundary text pos)
    (hds : Utf8.encode ds <+: (Utf8.encode text).drop pos) :
    OnBoundary text (pos + (Utf8.encode ds).length) := by
  obtain ⟨before, after, rfl, rfl⟩ := hpos
  rw [Utf8.encode_append, List.drop_left, Utf8.encode_isPrefix] at hds
  obtain ⟨rest, rfl⟩ := hds
  refine ⟨before ++ ds, rest, ?_, ?_⟩
  · rw [List.append_assoc]
  · rw [Utf8.encode_append, List.length_append]

/-- Behind an ASCII byte there is a boundary. -/
theorem OnBoundary.succ {x : UInt8} (hpos : OnBoundary text pos)
    (hx : (Utf8.encode text)[pos]? = some x) (hlow : x.toNat < 0x80) :
    OnBoundary text (pos + 1) := by
  obtain ⟨before, after, rfl, rfl⟩ := hpos
  rw [Utf8.encode_append, ← List.head?_drop, List.drop_left] at hx
  have hhead := Utf8.head_of_head_encode hlow hx
  obtain ⟨c, rest, rfl⟩ : ∃ c rest, after = c :: rest := by
    cases after with
    | nil => cases hhead
    | cons c rest => exact ⟨c, rest, rfl⟩
  obtain rfl : c = Char.ofNat x.toNat := by simpa using hhead
  have hnat := Utf8.toNat_ofNat (n := x.toNat) (Or.inl (by omega))
  have hascii : Utf8.IsAscii (Char.ofNat x.toNat) := by
    rw [Utf8.IsAscii, hnat]
    exact hlow
  refine ⟨before ++ [Char.ofNat x.toNat], rest, ?_, ?_⟩
  · rw [List.append_assoc, List.singleton_append]
  · rw [Utf8.encode_append, List.length_append, Utf8.encode_cons_ascii hascii]
    rfl

end Boundaries

/-! ## The steps -/

section Sound

variable {α : Type} {text : List Char} {opened : List Method} {pos : Nat}

/-- A result from a position meets what the observer demands, and its value has a property. -/
abbrev Sound (text : List Char) (opened : List Method) (pos : Nat) (Q : α → Nat → Prop)
    (r : Result Nat Event α) : Prop :=
  Safe (monitor text) opened pos Q r

/-- A value comes with the cursor further on. -/
abbrev Further (pos : Nat) : α → Nat → Prop := fun _ pos' => pos < pos'

theorem sound_err {Q : α → Nat → Prop} (hpos : OnBoundary text pos) (msg : String) :
    Sound text opened pos Q (err (Utf8.encode text) msg pos) :=
  Safe.fail hpos _

theorem sound_advance {n : Nat} (hpos : OnBoundary text (pos + n)) :
    Sound text opened pos (fun _ pos' => pos' = pos + n) (advance n pos) := by
  rw [advance, Run.get_bind_apply]
  have hset : Sound text opened pos (fun _ pos' => pos' = pos + n) (set (pos + n) pos) :=
    Safe.set hpos (Nat.le_add_right pos n) rfl
  apply hset.bind
  rintro _ _ hpos' hle rfl
  exact Safe.emit hpos' ⟨hle, hpos'.le_size, hpos'⟩ rfl rfl

/-- A value behind bytes that have been looked at. -/
theorem sound_advance_pure {Q : α → Nat → Prop} {n : Nat} {a : α}
    (hpos : OnBoundary text (pos + n)) (ha : Q a (pos + n)) :
    Sound text opened pos Q ((do
      advance n
      return a) pos) := by
  apply (sound_advance hpos).bind
  rintro _ _ hpos' _ rfl
  exact Safe.pure hpos' ha

theorem sound_iteration {Q : α → Nat → Prop} {x : Scan α} (l : Loop)
    (hQ : ∀ a pos', Q a pos' → pos < pos') (hx : Sound text opened pos Q (x pos)) :
    Sound text opened pos Q (iteration l x pos) := by
  apply Safe.noting hx
  · intro a pos' hpos' _ ha
    exact ⟨hQ a pos' ha, hpos'.le_size, hpos'⟩
  · intro pos'
    rfl

/-- A call is sound if its body is with the call open and goes further. -/
theorem sound_call {x : Scan α} {m : Method} (hpos : OnBoundary text pos)
    (hdepth : ∀ depth ∈ m.depth?, depth = containers opened)
    (hlimit : ∀ depth ∈ m.depth?, depth ≤ Parser.depthLimit + 1)
    (hx : Sound text (m :: opened) pos (Further pos) (x pos)) :
    Sound text opened pos (Further pos) (call m x pos) := by
  apply Safe.around hx
  · exact ⟨hpos.le_size, hpos, hlimit⟩
  · exact if_pos hdepth
  · intro pos' ok hpos' hle hok
    refine ⟨hle, hpos'.le_size, hpos', ?_⟩
    intro h
    obtain ⟨a, ha⟩ := hok h
    exact ha
  · intro pos' ok
    exact if_pos ⟨rfl, hdepth⟩

/-- A call of a method without a depth. -/
theorem sound_plainCall {x : Scan α} {m : Method} (hm : m.depth? = none)
    (hpos : OnBoundary text pos)
    (hx : Sound text (m :: opened) pos (Further pos) (x pos)) :
    Sound text opened pos (Further pos) (call m x pos) := by
  apply sound_call hpos ?_ ?_ hx
  · simp [hm]
  · simp [hm]

/-- A call of a method at a depth. -/
theorem sound_callAt {x : Scan α} {m : Method} {depth : Nat} (hm : m.depth? = some depth)
    (hdepth : depth = containers opened) (hlimit : depth ≤ Parser.depthLimit + 1)
    (hpos : OnBoundary text pos) (hx : Sound text (m :: opened) pos (Further pos) (x pos)) :
    Sound text opened pos (Further pos) (call m x pos) := by
  apply sound_call hpos ?_ ?_ hx
  · simpa [hm] using hdepth
  · simpa [hm] using hlimit

/-- A slice of the text is read. -/
theorem sound_sliceText {start stop : Nat} {msg : String} (hle : start ≤ stop)
    (hstop : stop ≤ size text) (hstart : OnBoundary text start) (hpos : OnBoundary text pos) :
    Sound text opened pos (fun token pos' => pos = pos' ∧
        Utf8.decode (((Utf8.encode text).drop start).take (stop - start)) = some token)
      (sliceText (Utf8.encode text) start stop msg pos) := by
  rw [sliceText_apply ⟨hle, hstop⟩]
  have hevent : ∀ e ∈ [Event.text start stop pos], Event.Valid text e := by
    intro e he
    obtain rfl := List.mem_singleton.mp he
    exact ⟨hle, hstop, hstart, hpos⟩
  cases hdecode : Utf8.decode (((Utf8.encode text).drop start).take (stop - start)) with
  | none => exact ⟨trivial, hpos, le_refl pos, hevent, rfl, fun a ha => by cases ha⟩
  | some token =>
      refine ⟨trivial, hpos, le_refl pos, hevent, rfl, ?_⟩
      intro a ha
      cases ha
      exact ⟨rfl, rfl⟩

/-! ## Blanks, digits and words -/

/-- The bytes of a class are ASCII. -/
def Low (f : UInt8 → Bool) : Prop := ∀ x, f x = true → x.toNat < 0x80

theorem low_isBlankByte : Low isBlankByte := by
  intro x hx
  simp only [isBlankByte, List.mem_cons, List.not_mem_nil, or_false, decide_eq_true_eq] at hx
  rcases hx with rfl | rfl | rfl | rfl <;> decide

theorem low_isDigitByte : Low isDigitByte := by
  intro x hx
  simp only [isDigitByte, decide_eq_true_eq] at hx
  have hle := UInt8.le_iff_toNat_le.mp hx.2
  have hnine : (byte '9').toNat = 57 := by decide
  omega

theorem low_eq {c : Char} (hc : (byte c).toNat < 0x80) : Low (· = byte c) := by
  intro x hx
  obtain rfl := of_decide_eq_true hx
  exact hc

theorem low_or {c d : Char} (hc : (byte c).toNat < 0x80) (hd : (byte d).toNat < 0x80) :
    Low (fun x => x = byte c ∨ x = byte d) := by
  intro x hx
  rcases of_decide_eq_true hx with rfl | rfl
  · exact hc
  · exact hd

theorem OnBoundary.of_any {f : UInt8 → Bool} (hpos : OnBoundary text pos) (hf : Low f)
    (hpeek : (Utf8.encode text)[pos]?.any f = true) : OnBoundary text (pos + 1) := by
  obtain ⟨x, hx, hfx⟩ := Option.any_eq_true _ _ |>.mp hpeek
  exact hpos.succ hx (hf x hfx)

/-- A loop whose every pass that goes on goes further comes to an end. -/
theorem sound_loop {τ : Type} {body : τ → Scan (τ ⊕ α)}
    (hbody : ∀ t pos, OnBoundary text pos →
      Sound text opened pos (fun r pos' => r.isLeft = true → pos < pos') (body t pos))
    (hpos : OnBoundary text pos) (t : τ) :
    Sound text opened pos (fun _ _ => True)
      (loop body ((Utf8.encode text).length + 1) t pos) := by
  have hroom : size text - pos < (Utf8.encode text).length + 1 := by
    rw [size]
    omega
  apply Safe.loop (fun _ _ => True) (fun pos => size text - pos) ?_ hpos trivial hroom
  intro t pos hpos _
  apply (hbody t pos hpos).weaken
  intro r pos' hpos' _ hless
  cases r with
  | inl t' =>
      have hle := hpos'.le_size
      have hnext := hless rfl
      exact ⟨by omega, trivial⟩
  | inr a => trivial

/-- A step over a byte of a class. -/
theorem sound_skip {f : UInt8 → Bool} (hf : Low f) (hpos : OnBoundary text pos)
    (hpeek : (Utf8.encode text)[pos]?.any f = true) :
    Sound text opened pos (Further pos) (advance 1 pos) := by
  apply (sound_advance (hpos.of_any hf hpeek)).weaken
  rintro _ _ _ _ rfl
  exact Nat.lt_succ_self pos

theorem sound_skipWhile {l : Loop} {f : UInt8 → Bool} (hf : Low f) (hpos : OnBoundary text pos) :
    Sound text opened pos (fun _ _ => True) (skipWhile (Utf8.encode text) l f pos) := by
  apply sound_loop ?_ hpos
  intro _ pos hpos
  rw [skipByte, peek_bind_apply]
  cases hpeek : (Utf8.encode text)[pos]?.any f with
  | false =>
      apply Safe.pure hpos
      intro hleft
      cases hleft
  | true =>
      apply (sound_iteration l (fun _ _ hless => hless) (sound_skip hf hpos hpeek)).bind
      intro _ pos' hpos' _ hless
      exact Safe.pure hpos' fun _ => hless

theorem sound_ws (hpos : OnBoundary text pos) :
    Sound text opened pos (fun _ _ => True) (ws (Utf8.encode text) pos) :=
  sound_skipWhile low_isBlankByte hpos

theorem sound_skipDigits (hpos : OnBoundary text pos) :
    Sound text opened pos (fun _ _ => True) (skipDigits (Utf8.encode text) pos) :=
  sound_skipWhile low_isDigitByte hpos

/-- A loop whose every pass goes further comes to an end. -/
theorem sound_passes {τ : Type} {body : τ → Scan (τ ⊕ α)}
    (hbody : ∀ t pos, OnBoundary text pos → Sound text opened pos (Further pos) (body t pos))
    (hpos : OnBoundary text pos) (t : τ) :
    Sound text opened pos (fun _ _ => True)
      (loop body ((Utf8.encode text).length + 1) t pos) := by
  apply sound_loop ?_ hpos
  intro t pos hpos
  apply (hbody t pos hpos).weaken
  intro _ _ _ _ hless _
  exact hless

theorem sound_expect {c : Char} (hc : (byte c).toNat < 0x80) (hpos : OnBoundary text pos)
    (what : String) :
    Sound text opened pos (Further pos) (expect (Utf8.encode text) c what pos) := by
  rw [expect, peek_bind_apply]
  split
  case isTrue hpeek =>
    apply (sound_advance (hpos.succ hpeek hc)).weaken
    rintro _ _ _ _ rfl
    exact Nat.lt_succ_self pos
  case isFalse => exact sound_err hpos what

/-- The text goes on with what has been found at the position. -/
theorem OnBoundary.of_range {ds : List Char} (hds : Utf8.encode ds ≠ [])
    (hpos : OnBoundary text pos)
    (hrange : range (Utf8.encode text) pos (pos + (Utf8.encode ds).length) =
      some (Utf8.encode ds)) : OnBoundary text (pos + (Utf8.encode ds).length) := by
  apply hpos.add
  have htake := (range_eq_some hds).mp hrange
  rw [← htake]
  exact List.take_prefix _ _

theorem sound_literal {word : String} (val : JVal) (hword : Utf8.encode word.toList ≠ [])
    (hpos : OnBoundary text pos) :
    Sound text opened pos (Further pos) (literal (Utf8.encode text) word val pos) := by
  apply sound_plainCall rfl hpos
  rw [Run.get_bind_apply]
  split
  case isTrue hrange =>
    have hlength := List.length_pos_iff.mpr hword
    apply sound_advance_pure (hpos.of_range hword hrange)
    change pos < pos + _
    omega
  case isFalse => exact sound_err hpos _

/-! ## Numbers -/

theorem sound_whenPeek {f : UInt8 → Bool} {step : Scan Unit} (hpos : OnBoundary text pos)
    (hstep : (Utf8.encode text)[pos]?.any f = true →
      Sound text opened pos (Further pos) (step pos)) :
    Sound text opened pos (fun _ _ => True) (whenPeek (Utf8.encode text) f step pos) := by
  rw [whenPeek, peek_bind_apply]
  cases hpeek : (Utf8.encode text)[pos]?.any f with
  | false => exact Safe.pure hpos trivial
  | true => exact (hstep hpeek).weaken fun _ _ _ _ _ => trivial

theorem sound_numberEnd (hpos : OnBoundary text pos) :
    Sound text opened pos (fun _ _ => True) (numberEnd (Utf8.encode text) pos) := by
  apply (sound_whenPeek hpos (sound_skip (low_eq (by decide)) hpos)).bind
  intro _ pos hpos _ _
  apply (sound_skipDigits hpos).bind
  intro _ pos hpos _ _
  have hfraction : Sound text opened pos (fun _ _ => True)
      (whenPeek (Utf8.encode text) (· = byte '.') (do
        advance 1
        skipDigits (Utf8.encode text)) pos) := by
    apply sound_whenPeek hpos
    intro hpeek
    apply (sound_skip (low_eq (by decide)) hpos hpeek).bind
    intro _ pos₁ hpos₁ _ hless
    apply (sound_skipDigits hpos₁).weaken
    intro _ pos₂ _ hle _
    exact Nat.lt_of_lt_of_le hless hle
  apply hfraction.bind
  intro _ pos hpos _ _
  apply sound_whenPeek hpos
  intro hpeek
  apply (sound_skip (low_or (by decide) (by decide)) hpos hpeek).bind
  intro _ pos₁ hpos₁ _ hless
  apply (sound_whenPeek hpos₁ (sound_skip (low_or (by decide) (by decide)) hpos₁)).bind
  intro _ pos₂ hpos₂ hle₂ _
  apply (sound_skipDigits hpos₂).weaken
  intro _ pos₃ _ hle₃ _
  exact Nat.lt_of_lt_of_le hless (hle₂.trans hle₃)

theorem sound_number (hpos : OnBoundary text pos) :
    Sound text opened pos (Further pos) (number (Utf8.encode text) pos) := by
  apply sound_plainCall rfl hpos
  rw [Run.get_bind_apply]
  apply (sound_numberEnd hpos).bind
  intro _ stop hstop hle _
  rw [Run.get_bind_apply]
  apply (sound_sliceText hle hstop.le_size hpos hstop).bind
  rintro token _ _ _ ⟨rfl, hdecode⟩
  cases hparse : Binary64.parse token with
  | none => exact Safe.fail hstop _
  | some n =>
      apply Safe.pure hstop
      -- Nothing passed is no number.
      rcases Nat.eq_or_lt_of_le hle with rfl | hless
      · rw [Nat.sub_self, List.take_zero] at hdecode
        cases hdecode
        rw [parse_nil] at hparse
        cases hparse
      · exact hless

/-! ## Strings -/

theorem sound_hex4 (hpos : OnBoundary text pos) :
    Sound text opened pos (Further pos) (hex4 (Utf8.encode text) pos) := by
  apply sound_plainCall rfl hpos
  rw [Run.get_bind_apply]
  split
  case isTrue => exact sound_err hpos _
  case isFalse hroom =>
    rw [Nat.not_lt] at hroom
    apply (sound_sliceText (Nat.le_add_right pos 4) hroom hpos hpos).bind
    rintro s _ _ _ ⟨rfl, hdecode⟩
    rw [Nat.add_sub_cancel_left] at hdecode
    have hbytes := Utf8.encode_of_decode hdecode
    have hnext : OnBoundary text (pos + (Utf8.encode s).length) := by
      apply hpos.add
      rw [hbytes]
      exact List.take_prefix _ _
    have hlength : (Utf8.encode s).length = 4 := by
      rw [hbytes, List.length_take, List.length_drop]
      omega
    rw [hlength] at hnext
    apply (sound_advance hnext).bind
    rintro _ _ hpos' _ rfl
    cases fromStrRadix16 s with
    | none => exact Safe.fail hpos' _
    | some n =>
        apply Safe.pure hpos'
        exact Nat.lt_add_of_pos_right (by decide)

theorem sound_unicodeEscape (hpos : OnBoundary text pos) :
    Sound text opened pos (Further pos) (unicodeEscape (Utf8.encode text) pos) := by
  apply (sound_hex4 hpos).bind
  intro hi pos₁ hpos₁ _ hless
  rw [Run.get_bind_apply]
  split
  case isFalse => exact Safe.pure hpos₁ hless
  case isTrue hpair =>
    have hletters : Utf8.encode ['\\', 'u'] ≠ [] := by decide
    have hpos₂ : OnBoundary text (pos₁ + 2) := hpos₁.of_range hletters hpair.2.2
    apply (sound_advance hpos₂).bind
    rintro _ _ hpos₂ _ rfl
    apply (sound_hex4 hpos₂).bind
    intro lo pos₃ hpos₃ hle _
    have hfurther : pos < pos₃ := by omega
    split
    case isTrue hlow =>
      rw [sub_bind hpair.1, sub_bind hlow.1]
      exact Safe.pure hpos₃ hfurther
    case isFalse => exact Safe.pure hpos₃ hfurther

/-- What a one-letter escape stands for follows an ASCII byte. -/
theorem escaped_low {o : Option UInt8} {d : Char} (hd : escaped o = some d) :
    ∃ x, o = some x ∧ x.toNat < 0x80 := by
  obtain ⟨e, hfind, _⟩ := Option.map_eq_some_iff.mp hd
  have hmem := List.mem_of_find?_eq_some hfind
  have ho : o = some (byte e.1) := by simpa using List.find?_some hfind
  have hlow : ∀ e ∈ escapes, (byte e.1).toNat < 0x80 := by decide
  exact ⟨byte e.1, ho, hlow e hmem⟩

theorem sound_escape (hpos : OnBoundary text pos) :
    Sound text opened pos (Further pos) (escape (Utf8.encode text) pos) := by
  rw [escape, peek_bind_apply]
  split
  case isTrue hpeek =>
    apply (sound_advance (hpos.succ hpeek (by decide))).bind
    rintro _ _ hpos' _ rfl
    apply (sound_unicodeEscape hpos').weaken
    intro c pos' _ _ hless
    change pos < pos'
    omega
  case isFalse =>
    cases hescaped : escaped (Utf8.encode text)[pos]? with
    | none => exact sound_err hpos _
    | some d =>
        obtain ⟨x, hx, hlow⟩ := escaped_low hescaped
        apply sound_advance_pure (hpos.succ hx hlow)
        exact Nat.lt_succ_self pos

theorem sound_rawChar (hpos : OnBoundary text pos) :
    Sound text opened pos (Further pos) (rawChar (Utf8.encode text) pos) := by
  rw [rawChar, Run.get_bind_apply]
  have hend : OnBoundary text (size text) := ⟨text, [], by rw [List.append_nil], rfl⟩
  apply (sound_sliceText hpos.le_size (le_refl _) hpos hpos).bind
  rintro s _ _ _ ⟨rfl, hdecode⟩
  cases s with
  | nil => exact Safe.fail hpos _
  | cons c rest =>
      change Sound text opened pos (Further pos)
        ((if c.toNat < 0x20 then err (Utf8.encode text) "unescaped control character"
          else do
            advance c.utf8Size
            return c) pos)
      split
      case isTrue => exact sound_err hpos _
      case isFalse =>
        have hnext : OnBoundary text (pos + (Utf8.encode [c]).length) := by
          apply hpos.add
          have hprefix : Utf8.encode [c] <+: Utf8.encode (c :: rest) :=
            Utf8.encode_isPrefix.mpr ⟨rest, rfl⟩
          rw [Utf8.encode_of_decode hdecode] at hprefix
          exact hprefix.trans (List.take_prefix _ _)
        rw [Utf8.encode_cons, Utf8.encode_nil, List.append_nil,
          String.length_utf8EncodeChar] at hnext
        apply sound_advance_pure hnext
        exact Nat.lt_add_of_pos_right c.utf8Size_pos

/-- Every pass over the characters of a string goes further. -/
theorem sound_character (hpos : OnBoundary text pos) (out : String) :
    Sound text opened pos (Further pos) (character (Utf8.encode text) out pos) := by
  apply sound_iteration .characters (fun _ _ hless => hless)
  rw [peek_bind_apply]
  split
  case isTrue => exact sound_err hpos _
  case isFalse =>
    split
    case isTrue hquote =>
      apply sound_advance_pure (hpos.succ hquote (by decide))
      exact Nat.lt_succ_self pos
    case isFalse =>
      split
      case isTrue hslash =>
        apply (sound_advance (hpos.succ hslash (by decide))).bind
        rintro _ _ hpos₁ _ rfl
        apply (sound_escape hpos₁).bind
        intro d pos₂ hpos₂ _ hless
        apply Safe.pure hpos₂
        omega
      case isFalse =>
        apply (sound_rawChar hpos).bind
        intro d pos₂ hpos₂ _ hless
        exact Safe.pure hpos₂ hless

theorem sound_string (hpos : OnBoundary text pos) :
    Sound text opened pos (Further pos) (string (Utf8.encode text) pos) := by
  apply sound_plainCall rfl hpos
  apply (sound_expect (by decide) hpos _).bind
  intro _ pos₁ hpos₁ _ hless
  apply (sound_passes (fun out pos hpos => sound_character hpos out) hpos₁ "").weaken
  intro _ pos₂ _ hle _
  exact Nat.lt_of_lt_of_le hless hle

/-! ## Arrays, objects and values -/

theorem sound_afterItem {close : Char} (hclose : (byte close).toNat < 0x80)
    (hpos : OnBoundary text pos) (what : String) (items : List α) :
    Sound text opened pos (Further pos)
      (afterItem (Utf8.encode text) close what items pos) := by
  apply (sound_ws hpos).bind
  intro _ pos₁ hpos₁ hle _
  rw [peek_bind_apply]
  split
  case isTrue hcomma =>
    apply sound_advance_pure (hpos₁.succ hcomma (by decide))
    exact Nat.lt_succ_of_le hle
  case isFalse =>
    split
    case isTrue hend =>
      apply sound_advance_pure (hpos₁.succ hend hclose)
      exact Nat.lt_succ_of_le hle
    case isFalse => exact sound_err hpos₁ what

theorem sound_item {value : Scan JVal}
    (hvalue : ∀ pos, OnBoundary text pos → Sound text opened pos (Further pos) (value pos))
    (hpos : OnBoundary text pos) (items : List JVal) :
    Sound text opened pos (Further pos) (item (Utf8.encode text) value items pos) := by
  apply sound_iteration .items (fun _ _ hless => hless)
  apply (hvalue pos hpos).bind
  intro v pos₁ hpos₁ _ hless
  apply (sound_afterItem (by decide) hpos₁ _ _).weaken
  intro _ pos₂ _ hle _
  exact Nat.lt_of_lt_of_le hless hle

theorem sound_pair {value : Scan JVal}
    (hvalue : ∀ pos, OnBoundary text pos → Sound text opened pos (Further pos) (value pos))
    (hpos : OnBoundary text pos) (pairs : List (String × JVal)) :
    Sound text opened pos (Further pos) (pair (Utf8.encode text) value pairs pos) := by
  apply sound_iteration .pairs (fun _ _ hless => hless)
  apply (sound_ws hpos).bind
  intro _ pos₁ hpos₁ hle₁ _
  rw [peek_bind_apply]
  split
  case isTrue => exact sound_err hpos₁ _
  case isFalse =>
    apply (sound_string hpos₁).bind
    intro key pos₂ hpos₂ _ hless
    apply (sound_ws hpos₂).bind
    intro _ pos₃ hpos₃ hle₃ _
    apply (sound_expect (by decide) hpos₃ _).bind
    intro _ pos₄ hpos₄ hle₄ _
    apply (hvalue pos₄ hpos₄).bind
    intro v pos₅ hpos₅ hle₅ _
    apply (sound_afterItem (by decide) hpos₅ _ _).weaken
    intro _ pos₆ _ hle₆ _
    omega

/-- An empty list, or the passes up to the closing character. -/
theorem sound_list {close : Char} (hclose : (byte close).toNat < 0x80)
    {pass : List α → Scan (List α ⊕ List α)} (make : List α → JVal)
    (hpass : ∀ items pos, OnBoundary text pos →
      Sound text opened pos (Further pos) (pass items pos))
    (hpos : OnBoundary text pos) :
    Sound text opened pos (fun _ _ => True) ((do
      ws (Utf8.encode text)
      let c ← peek (Utf8.encode text)
      if c = some (byte close) then do
        advance 1
        return make []
      else do
        let items ← loop pass ((Utf8.encode text).length + 1) []
        return make items) pos) := by
  apply (sound_ws hpos).bind
  intro _ pos₁ hpos₁ _ _
  rw [peek_bind_apply]
  split
  case isTrue hend => exact sound_advance_pure (hpos₁.succ hend hclose) trivial
  case isFalse =>
    apply (sound_passes hpass hpos₁ []).bind
    intro items pos₂ hpos₂ _ _
    exact Safe.pure hpos₂ trivial

theorem containers_cons {m : Method} (hm : m.isContainer = true) (opened : List Method) :
    containers (m :: opened) = containers opened + 1 := List.countP_cons_of_pos hm

theorem containers_value (depth : Nat) (opened : List Method) :
    containers (.value depth :: opened) = containers opened :=
  List.countP_cons_of_neg Bool.false_ne_true

theorem sound_array {value : Nat → Scan JVal} {depth : Nat} (hdepth : depth = containers opened)
    (hlimit : depth ≤ Parser.depthLimit + 1)
    (hvalue : ∀ pos, OnBoundary text pos →
      Sound text (.array depth :: opened) pos (Further pos) (value (depth + 1) pos))
    (hpos : OnBoundary text pos) :
    Sound text opened pos (Further pos) (array (Utf8.encode text) value depth pos) := by
  apply sound_callAt rfl hdepth hlimit hpos
  apply (sound_expect (by decide) hpos _).bind
  intro _ pos₁ hpos₁ _ hless
  have hitem := fun items pos (hpos : OnBoundary text pos) => sound_item hvalue hpos items
  apply (sound_list (by decide) .arr hitem hpos₁).weaken
  intro _ pos₂ _ hle _
  exact Nat.lt_of_lt_of_le hless hle

theorem sound_object {value : Nat → Scan JVal} {depth : Nat} (hdepth : depth = containers opened)
    (hlimit : depth ≤ Parser.depthLimit + 1)
    (hvalue : ∀ pos, OnBoundary text pos →
      Sound text (.object depth :: opened) pos (Further pos) (value (depth + 1) pos))
    (hpos : OnBoundary text pos) :
    Sound text opened pos (Further pos) (object (Utf8.encode text) value depth pos) := by
  apply sound_callAt rfl hdepth hlimit hpos
  apply (sound_expect (by decide) hpos _).bind
  intro _ pos₁ hpos₁ _ hless
  have hpair := fun pairs pos (hpos : OnBoundary text pos) => sound_pair hvalue hpos pairs
  apply (sound_list (by decide) .obj hpair hpos₁).weaken
  intro _ pos₂ _ hle _
  exact Nat.lt_of_lt_of_le hless hle

/-- With calls left for the depths up to the one that is refused, a value at the depth of the
open arrays and objects is sound. -/
theorem sound_value {calls depth : Nat} (hdepth : depth = containers opened)
    (hlimit : depth ≤ Parser.depthLimit + 1) (hcalls : Parser.depthLimit + 2 ≤ depth + calls)
    (hpos : OnBoundary text pos) :
    Sound text opened pos (Further pos) (value (Utf8.encode text) calls depth pos) := by
  induction calls generalizing depth opened pos with
  | zero => omega
  | succ calls ih =>
      apply sound_callAt rfl hdepth hlimit hpos
      split
      case isTrue => exact sound_err hpos _
      case isFalse hshallow =>
        apply (sound_ws hpos).bind
        intro _ pos₁ hpos₁ hle _
        have hvalue : depth = containers (.value depth :: opened) := by
          rw [containers_value, hdepth]
        -- One level deeper: in an array or an object there is one more open.
        have hinner : ∀ m : Method, m.isContainer = true → ∀ pos, OnBoundary text pos →
            Sound text (m :: .value depth :: opened) pos (Further pos)
              (value (Utf8.encode text) calls (depth + 1) pos) := by
          intro m hm pos hpos
          apply ih ?_ (by omega) (by omega) hpos
          rw [containers_cons hm, ← hvalue]
        refine Safe.weaken (Q := Further pos₁) ?_ fun _ _ _ _ hless => Nat.lt_of_le_of_lt hle hless
        rw [peek_bind_apply]
        split
        case isTrue => exact sound_object hvalue hlimit (hinner _ rfl) hpos₁
        split
        case isTrue => exact sound_array hvalue hlimit (hinner _ rfl) hpos₁
        split
        case isTrue =>
          apply (sound_string hpos₁).bind
          intro s pos₂ hpos₂ _ hless
          exact Safe.pure hpos₂ hless
        split
        case isTrue => exact sound_literal _ (by decide) hpos₁
        split
        case isTrue => exact sound_literal _ (by decide) hpos₁
        split
        case isTrue => exact sound_literal _ (by decide) hpos₁
        split
        case isTrue => exact sound_number hpos₁
        case isFalse => exact sound_err hpos₁ _

theorem sound_parse (text : String) :
    Sound text.toList [] 0 (fun _ _ => True) (parse text 0) := by
  have hvalue : Sound text.toList [] 0 (Further 0) (value (Utf8.bytes text) nesting 0 0) :=
    sound_value rfl (by decide) (by decide) (onBoundary_zero _)
  apply hvalue.bind
  intro v pos hpos _ _
  apply (sound_ws hpos).bind
  intro _ pos hpos _ _
  rw [Run.get_bind_apply]
  split
  case isTrue => exact sound_err hpos _
  case isFalse => exact Safe.pure hpos trivial

end Sound

/-- Every run of the parser returns with the outcome of the parser on values, so that it neither
panics nor loops. At every call, return, pass and slice the cursor is valid, and the calls and
returns nest with the depth that each was made at. -/
theorem cursor_valid (text : String) :
    (parse text 0).outcome = Outcome.ofExcept (Json.parse text) ∧
      (∀ e ∈ (parse text 0).events, e.Valid text.toList) ∧
      (parse text 0).events.foldlM follow [] = some [] := by
  have hsound := sound_parse text
  exact ⟨outcome_eq_parse hsound.returns, hsound.valid, hsound.follows⟩

end PowerForensics.Json.Cursor
