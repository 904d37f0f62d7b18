import PowerForensics.Core.JsonCursor

/-! # What the cursor computes

From every position each method of the cursor computes what the method of the same name computes
for a parser at that position: the same value and the same new position, or the same error.
Panics and stuck loops are left open here.
-/

namespace PowerForensics.Json.Cursor

open Observed Observed.Run

section Mirrors

variable {α : Type} {b : List UInt8}

/-- From every position the program computes what the method of the parser computes. -/
def Mirrors (b : List UInt8) (x : Scan α) (f : Parser → Except String (α × Parser)) : Prop :=
  ∀ pos, Computes (Parser.mk b) (x pos) (f ⟨b, pos⟩)

theorem Mirrors.call {x : Scan α} {f : Parser → Except String (α × Parser)} (m : Method)
    (hx : Mirrors b x f) : Mirrors b (Cursor.call m x) f := hx

theorem Mirrors.iteration {x : Scan α} {f : Parser → Except String (α × Parser)} (l : Loop)
    (hx : Mirrors b x f) : Mirrors b (Cursor.iteration l x) f := hx

theorem Mirrors.err (msg : String) : Mirrors (α := α) b (Cursor.err b msg) (·.err msg) := by
  intro pos
  exact Computes.fail _ pos

theorem mirrors_advance (n : Nat) : Mirrors b (advance n) fun p => .ok ((), p.advance n) := by
  intro pos
  rfl

/-- A value behind bytes that have been looked at. -/
theorem advance_pure (a : α) (n pos : Nat) :
    Computes (Parser.mk b) ((do
      advance n
      return a : Scan α) pos) (.ok (a, ⟨b, pos + n⟩)) := rfl

theorem peek_bind_apply (f : Option UInt8 → Scan α) (pos : Nat) :
    (peek b >>= f) pos = f b[pos]? pos := rfl

/-! ## The loops over a class of bytes -/

theorem remaining_of_peek {pos : Nat} {x : UInt8} (hx : b[pos]? = some x) :
    b.drop pos = x :: b.drop (pos + 1) := by
  obtain ⟨hpos, rfl⟩ := List.getElem?_eq_some_iff.mp hx
  exact List.drop_eq_getElem_cons hpos

theorem skipWhile_step {f : UInt8 → Bool} {pos : Nat} (hpeek : b[pos]?.any f = true) :
    Parser.skipWhile f ⟨b, pos⟩ = Parser.skipWhile f ⟨b, pos + 1⟩ := by
  obtain ⟨x, hx, hf⟩ := Option.any_eq_true _ _ |>.mp hpeek
  simp only [Parser.skipWhile, Parser.remaining, Parser.advance, remaining_of_peek hx,
    List.takeWhile_cons_of_pos hf, List.length_cons, Parser.mk.injEq, true_and]
  omega

theorem skipWhile_stop {f : UInt8 → Bool} {pos : Nat} (hpeek : b[pos]?.any f = false) :
    Parser.skipWhile f ⟨b, pos⟩ = ⟨b, pos⟩ := by
  have hnone : (b.drop pos).takeWhile f = [] := by
    cases hdrop : b.drop pos with
    | nil => rfl
    | cons x rest =>
        have hx : b[pos]? = some x := by rw [← List.head?_drop, hdrop, List.head?_cons]
        rw [hx] at hpeek
        exact List.takeWhile_cons_of_neg (by simpa using hpeek)
  simp [Parser.skipWhile, Parser.remaining, Parser.advance, hnone]

/-- A pass of a loop over a class of bytes, or the end of the loop. -/
def skipPass (f : UInt8 → Bool) (p : Parser) : Except String ((Unit ⊕ Unit) × Parser) :=
  if p.peek.any f then .ok (.inl (), p.advance 1) else .ok (.inr (), p)

theorem skipByte_mirrors (l : Loop) (f : UInt8 → Bool) (t : Unit) :
    Mirrors b (skipByte b l f t) (skipPass f) := by
  intro pos
  rw [skipByte, peek_bind_apply]
  apply Computes.ite
  · intro _
    rfl
  · intro _
    rfl

theorem skipWhile_mirrors (l : Loop) (f : UInt8 → Bool) :
    Mirrors b (skipWhile b l f) fun p => .ok ((), p.skipWhile f) := by
  apply Computes.loop (f := fun _ _ p => .ok ((), p.skipWhile f)) (skipByte_mirrors l f)
  rintro passes t ⟨b, pos⟩
  rw [skipPass, Parser.peek]
  cases hpeek : b[pos]?.any f with
  | true =>
      rw [skipWhile_step hpeek]
      rfl
  | false =>
      rw [skipWhile_stop hpeek]
      rfl

theorem ws_mirrors : Mirrors b (ws b) fun p => .ok ((), p.ws) := skipWhile_mirrors _ _

theorem skipDigits_mirrors : Mirrors b (skipDigits b) fun p => .ok ((), p.skipWhile isDigitByte) :=
  skipWhile_mirrors _ _

/-! ## Single bytes and words -/

theorem expect_mirrors (c : Char) (what : String) :
    Mirrors b (expect b c what) (·.expect c what) := by
  intro pos
  rw [expect, peek_bind_apply]
  apply Computes.ite
  · intro _
    rfl
  · intro _
    exact Mirrors.err what pos

theorem range_eq_some {pos : Nat} {bytes : List UInt8} (hbytes : bytes ≠ []) :
    range b pos (pos + bytes.length) = some bytes ↔ (b.drop pos).take bytes.length = bytes := by
  have hpos : 0 < bytes.length := List.length_pos_iff.mpr hbytes
  rw [range]
  split
  · rw [Option.some_inj, Nat.add_sub_cancel_left]
  · constructor
    · intro hnone
      cases hnone
    · intro htake
      have hlength := congrArg List.length htake
      rw [List.length_take, List.length_drop] at hlength
      omega

theorem literal_mirrors (val : JVal) {word : String} (hword : Utf8.encode word.toList ≠ []) :
    Mirrors b (literal b word val) (Parser.literal word val) := by
  apply Mirrors.call .literal
  intro pos
  rw [Parser.literal, Run.get_bind_apply]
  simp only [range_eq_some hword]
  apply Computes.ite
  · intro _
    rfl
  · intro _
    exact Mirrors.err "bad literal" pos

/-! ## Slices -/

theorem sliceText_apply {start stop : Nat} (hrange : start ≤ stop ∧ stop ≤ b.length) (msg : String)
    (pos : Nat) :
    sliceText b start stop msg pos =
      ⟨(Utf8.decode ((b.drop start).take (stop - start))).elim (.fail msg) .ok, pos,
        [.text start stop pos]⟩ := by
  simp only [sliceText, slice, range, if_pos hrange]
  rw [Run.pure_bind_apply]
  cases Utf8.decode ((b.drop start).take (stop - start)) with
  | none => rfl
  | some token => rfl

theorem sliceText_outside {start stop : Nat} (hrange : ¬(start ≤ stop ∧ stop ≤ b.length))
    (msg : String) (pos : Nat) : sliceText b start stop msg pos = ⟨.panic, pos, []⟩ := by
  simp only [sliceText, slice, range, if_neg hrange]
  rfl

/-- What is read out of a slice goes on as it would without the bounds being checked. -/
theorem sliceText_bind {f : List Char → Scan α} {start stop pos : Nat} {msg : String}
    {e : Except String (α × Parser)}
    (hnone : Utf8.decode ((b.drop start).take (stop - start)) = none → e = .error msg)
    (hsome : ∀ token, Utf8.decode ((b.drop start).take (stop - start)) = some token →
      Computes (Parser.mk b) (f token pos) e) :
    Computes (Parser.mk b) ((sliceText b start stop msg >>= f) pos) e := by
  change Computes (Parser.mk b) (Run.bind (sliceText b start stop msg) f pos) e
  rw [Run.bind]
  by_cases hrange : start ≤ stop ∧ stop ≤ b.length
  · rw [sliceText_apply hrange]
    cases hdecode : Utf8.decode ((b.drop start).take (stop - start)) with
    | none => exact hnone hdecode
    | some token => exact hsome token hdecode
  · rw [sliceText_outside hrange]
    trivial

/-! ## Numbers -/

theorem whenPeek_mirrors {f : UInt8 → Bool} {step : Scan Unit} {g : Parser → Parser}
    (hstep : Mirrors b step fun p => .ok ((), g p)) :
    Mirrors b (whenPeek b f step) fun p => .ok ((), if p.peek.any f then g p else p) := by
  intro pos
  rw [whenPeek, peek_bind_apply]
  cases hpeek : b[pos]?.any f with
  | true =>
      simp only [Parser.peek, hpeek, if_true]
      exact hstep pos
  | false =>
      simp only [Parser.peek, hpeek]
      rfl

/-- A program goes on where a motion has ended. -/
theorem Mirrors.then {x : Scan Unit} {g : Parser → Parser} {y : Scan α}
    {f : Parser → Except String (α × Parser)} (hx : Mirrors b x fun p => .ok ((), g p))
    (hy : Mirrors b y f) : Mirrors b (do
      x
      y) fun p => f (g p) := by
  intro pos
  apply (hx pos).bind (g := fun r => f r.2)
  intro _ pos'
  exact hy pos'

theorem any_eq_iff (o : Option UInt8) (x : UInt8) :
    o.any (fun c => decide (c = x)) = true ↔ o = some x := by
  cases o <;> simp

theorem any_eq_or_iff (o : Option UInt8) (x y : UInt8) :
    o.any (fun c => decide (c = x ∨ c = y)) = true ↔ o = some x ∨ o = some y := by
  cases o <;> simp

theorem sign_mirrors : Mirrors b (whenPeek b (· = byte '-') (advance 1))
    fun p => .ok ((), if p.peek = some (byte '-') then p.advance 1 else p) := by
  have hsign := whenPeek_mirrors (f := (· = byte '-')) (mirrors_advance (b := b) 1)
  simp only [any_eq_iff] at hsign
  exact hsign

theorem fraction_mirrors : Mirrors b (whenPeek b (· = byte '.') do
      advance 1
      skipDigits b) fun p => .ok ((), p.skipFraction) := by
  have hfraction := whenPeek_mirrors (f := (· = byte '.'))
    ((mirrors_advance (b := b) 1).then skipDigits_mirrors)
  simp only [any_eq_iff] at hfraction
  exact hfraction

theorem exponent_mirrors : Mirrors b (whenPeek b (fun c => c = byte 'e' ∨ c = byte 'E') do
      advance 1
      whenPeek b (fun c => c = byte '+' ∨ c = byte '-') (advance 1)
      skipDigits b) fun p => .ok ((), p.skipExponent) := by
  have hsign := whenPeek_mirrors (f := fun c => c = byte '+' ∨ c = byte '-')
    (mirrors_advance (b := b) 1)
  have hexponent := whenPeek_mirrors (f := fun c => c = byte 'e' ∨ c = byte 'E')
    ((mirrors_advance (b := b) 1).then (hsign.then skipDigits_mirrors))
  simp only [any_eq_or_iff] at hexponent
  exact hexponent

theorem numberEnd_mirrors : Mirrors b (numberEnd b) fun p => .ok ((), p.numberEnd) :=
  sign_mirrors.then (skipDigits_mirrors.then (fraction_mirrors.then exponent_mirrors))

/-- What a parser makes of the bytes that it has passed since a position. -/
def numberFrom (b : List UInt8) (start : Nat) (p : Parser) : Except String (JVal × Parser) :=
  match Utf8.decode ((b.drop start).take (p.pos - start)) with
  | none => .error "bad number encoding"
  | some token =>
      match Binary64.parse token with
      | none => .error ("bad number: " ++ String.ofList token)
      | some n => .ok (.num n, p)

theorem number_eq (p : Parser) : p.number = numberFrom p.b p.pos p.numberEnd := rfl

theorem number_mirrors : Mirrors b (number b) Parser.number := by
  apply Mirrors.call .number
  intro start
  rw [Run.get_bind_apply, number_eq]
  apply (numberEnd_mirrors start).bind (g := fun r => numberFrom b start r.2)
  intro _ pos
  rw [Run.get_bind_apply, numberFrom]
  apply sliceText_bind
  · intro hdecode
    simp only [hdecode]
  · intro token hdecode
    simp only [hdecode]
    cases Binary64.parse token with
    | none => exact Computes.fail _ pos
    | some n => exact Computes.pure _ pos

/-! ## Strings -/

/-- What a parser makes of the four characters that it has passed. -/
def quadFrom (s : List Char) (p : Parser) : Except String (Nat × Parser) :=
  match fromStrRadix16 s with
  | none => .error "bad \\u escape"
  | some n => .ok (n, p)

theorem hex4_mirrors : Mirrors b (hex4 b) Parser.hex4 := by
  apply Mirrors.call .hex4
  intro pos
  rw [Run.get_bind_apply, Parser.hex4]
  apply Computes.ite
  · intro _
    exact Mirrors.err _ pos
  intro _
  apply sliceText_bind
  · intro hdecode
    rw [Nat.add_sub_cancel_left] at hdecode
    simp only [Parser.remaining, hdecode]
  · intro s hdecode
    rw [Nat.add_sub_cancel_left] at hdecode
    simp only [Parser.remaining, hdecode]
    apply (mirrors_advance 4 pos).bind (g := fun r => quadFrom s r.2)
    intro _ pos'
    rw [quadFrom]
    cases fromStrRadix16 s with
    | none => exact Computes.fail _ pos'
    | some n => exact Computes.pure n pos'

theorem sub_bind {m n : Nat} (hle : n ≤ m) (f : Nat → Scan α) (pos : Nat) :
    (sub m n >>= f) pos = f (m - n) pos := by
  rw [sub, if_pos hle, Run.pure_bind_apply]

theorem unicodeEscape_mirrors : Mirrors b (unicodeEscape b) Parser.unicodeEscape := by
  intro pos
  apply (hex4_mirrors pos).bind
  intro hi pos'
  rw [Run.get_bind_apply]
  have hbytes : [byte '\\', byte 'u'] ≠ [] := List.cons_ne_nil _ _
  have hpair : range b pos' (pos' + 2) = some [byte '\\', byte 'u'] ↔
      (b.drop pos').take 2 = [byte '\\', byte 'u'] := range_eq_some hbytes
  simp only [hpair]
  apply Computes.ite
  · intro hhigh
    apply (hex4_mirrors (pos' + 2)).bind
    intro lo pos''
    apply Computes.ite
    · intro hlow
      rw [sub_bind hhigh.1, sub_bind hlow.1]
      exact Computes.pure _ pos''
    · intro _
      exact Computes.pure _ pos''
  · intro _
    exact Computes.pure _ pos'

/-- What the parser makes of an escape whose backslash has been read. -/
def escapeItem (p : Parser) : Except String (Char × Parser) :=
  if p.peek = some (byte 'u') then (p.advance 1).unicodeEscape
  else
    match escaped p.peek with
    | some c => .ok (c, p.advance 1)
    | none => p.err "bad escape"

theorem escape_mirrors : Mirrors b (escape b) escapeItem := by
  intro pos
  rw [escape, peek_bind_apply]
  apply Computes.ite
  · intro _
    exact unicodeEscape_mirrors (pos + 1)
  · intro _
    rw [Parser.peek]
    cases escaped b[pos]? with
    | some d => exact advance_pure d 1 pos
    | none => exact Mirrors.err _ pos

/-- What the parser makes of a character that is no escape. -/
def rawItem (p : Parser) : Except String (Char × Parser) :=
  match Utf8.decode p.remaining with
  | none => .error "bad utf8"
  | some [] => .error "unterminated string"
  | some (c :: _) =>
      if c.toNat < 0x20 then p.err "unescaped control character"
      else .ok (c, p.advance c.utf8Size)

theorem rawChar_mirrors : Mirrors b (rawChar b) rawItem := by
  intro pos
  rw [rawChar, Run.get_bind_apply, rawItem]
  have hall : (b.drop pos).take (b.length - pos) = b.drop pos := by
    rw [← List.length_drop, List.take_length]
  apply sliceText_bind
  · intro hdecode
    rw [hall] at hdecode
    simp only [Parser.remaining, hdecode]
  · intro s hdecode
    rw [hall] at hdecode
    simp only [Parser.remaining, hdecode]
    cases s with
    | nil => exact Computes.fail _ pos
    | cons c rest =>
        apply Computes.ite
        · intro _
          exact Mirrors.err _ pos
        · intro _
          exact advance_pure c c.utf8Size pos

theorem stringItem_eq (p : Parser) :
    p.stringItem = if p.peek = some (byte '\\') then escapeItem (p.advance 1) else rawItem p := rfl

/-- One pass of the parser's loop over the characters of a string. -/
def stringPass (out : String) (p : Parser) : Except String ((String ⊕ String) × Parser) :=
  if p.peek = none then p.err "unterminated string"
  else if p.peek = some (byte '"') then .ok (.inr out, p.advance 1)
  else if p.peek = some (byte '\\') then do
    let (c, p) ← escapeItem (p.advance 1)
    return (.inl (out.push c), p)
  else do
    let (c, p) ← rawItem p
    return (.inl (out.push c), p)

theorem character_mirrors (out : String) : Mirrors b (character b out) (stringPass out) := by
  apply Mirrors.iteration .characters
  intro pos
  rw [peek_bind_apply]
  apply Computes.ite
  · intro _
    exact Mirrors.err _ pos
  intro _
  apply Computes.ite
  · intro _
    exact advance_pure _ 1 pos
  intro _
  apply Computes.ite
  · intro _
    apply (escape_mirrors (pos + 1)).bind
    intro d pos'
    exact Computes.pure _ pos'
  · intro _
    apply (rawChar_mirrors pos).bind
    intro d pos'
    exact Computes.pure _ pos'

theorem stringLoop_step (passes : Nat) (out : String) (p : Parser) :
    Parser.stringLoop (passes + 1) out p = stringPass out p >>= fun r =>
      Sum.elim (fun out => Parser.stringLoop passes out r.2) (fun out => .ok (out, r.2)) r.1 := by
  rw [Parser.stringLoop, stringPass, stringItem_eq]
  split
  · rfl
  split
  · rfl
  split
  · cases escapeItem (p.advance 1) with
    | ok r => rfl
    | error msg => rfl
  · cases rawItem p with
    | ok r => rfl
    | error msg => rfl

theorem string_mirrors : Mirrors b (string b) Parser.string := by
  apply Mirrors.call .string
  intro pos
  apply (expect_mirrors '"' "expected string" pos).bind
  intro _ pos'
  exact Computes.loop character_mirrors stringLoop_step (b.length + 1) "" pos'

/-! ## Arrays and objects -/

/-- What the parser does behind an element and its blanks. -/
def itemsPass (close : Char) (what : String) (items : List α) (p : Parser) :
    Except String ((List α ⊕ List α) × Parser) :=
  if p.peek = some (byte ',') then .ok (.inl items, p.advance 1)
  else if p.peek = some (byte close) then .ok (.inr items, p.advance 1)
  else p.err what

theorem afterItem_mirrors (close : Char) (what : String) (items : List α) :
    Mirrors b (afterItem b close what items) fun p => itemsPass close what items p.ws := by
  apply ws_mirrors.then (f := itemsPass close what items)
  intro pos
  rw [peek_bind_apply]
  apply Computes.ite
  · intro _
    exact advance_pure _ 1 pos
  intro _
  apply Computes.ite
  · intro _
    exact advance_pure _ 1 pos
  · intro _
    exact Mirrors.err what pos

theorem itemsLoop_step (element : Parser → Except String (α × Parser)) (close : Char)
    (what : String) (passes : Nat) (items : List α) (p : Parser) :
    Parser.itemsLoop element close what (passes + 1) items p =
      (element p >>= fun r => itemsPass close what (items ++ [r.1]) r.2.ws) >>= fun r =>
        Sum.elim (fun items => Parser.itemsLoop element close what passes items r.2)
          (fun items => .ok (items, r.2)) r.1 := by
  rw [Parser.itemsLoop]
  cases element p with
  | error msg => rfl
  | ok r =>
      change (if r.2.ws.peek = some (byte ',') then _ else _) =
        itemsPass close what (items ++ [r.1]) r.2.ws >>= _
      rw [itemsPass]
      split
      · rfl
      split
      · rfl
      · rfl

/-- An empty list, or the elements up to the closing character. -/
def listRest (element : Parser → Except String (α × Parser)) (close : Char) (what : String)
    (make : List α → JVal) (p : Parser) : Except String (JVal × Parser) :=
  if p.peek = some (byte close) then .ok (make [], p.advance 1)
  else do
    let (items, p) ← Parser.itemsLoop element close what (p.b.length + 1) [] p
    return (make items, p)

/-- A loop whose passes read an element and what is behind it. -/
theorem list_mirrors {pass : List α → Scan (List α ⊕ List α)}
    {element : Parser → Except String (α × Parser)} {close : Char} {what : String}
    (make : List α → JVal)
    (hpass : ∀ items, Mirrors b (pass items) fun p =>
      element p >>= fun r => itemsPass close what (items ++ [r.1]) r.2.ws) :
    Mirrors b (do
      ws b
      let c ← peek b
      if c = some (byte close) then do
        advance 1
        return make []
      else do
        let items ← loop pass (b.length + 1) []
        return make items) fun p => listRest element close what make p.ws := by
  apply ws_mirrors.then (f := listRest element close what make)
  intro pos
  rw [peek_bind_apply]
  apply Computes.ite
  · intro _
    exact advance_pure _ 1 pos
  · intro _
    have hloop := Computes.loop hpass (itemsLoop_step element close what) (b.length + 1) [] pos
    apply hloop.bind
    intro items pos'
    exact Computes.pure _ pos'

theorem item_mirrors {value : Scan JVal} {read : Parser → Except String (JVal × Parser)}
    (hvalue : Mirrors b value read) (items : List JVal) :
    Mirrors b (item b value items) fun p =>
      read p >>= fun r => itemsPass ']' "expected , or ]" (items ++ [r.1]) r.2.ws := by
  apply Mirrors.iteration .items
  intro pos
  apply (hvalue pos).bind
  intro v pos'
  exact afterItem_mirrors ']' _ (items ++ [v]) pos'

theorem array_mirrors {value : Nat → Scan JVal} {read : Parser → Except String (JVal × Parser)}
    {depth : Nat} (hvalue : Mirrors b (value (depth + 1)) read) :
    Mirrors b (array b value depth) (Parser.array read) := by
  apply Mirrors.call (.array depth)
  intro pos
  apply (expect_mirrors '[' "expected [" pos).bind
  intro _ pos'
  exact list_mirrors .arr (item_mirrors hvalue) pos'

/-- What the parser makes of the value of a key, and of what is behind it. -/
def memberPass (read : Parser → Except String (JVal × Parser)) (pairs : List (String × JVal))
    (key : String) (p : Parser) :
    Except String ((List (String × JVal) ⊕ List (String × JVal)) × Parser) := do
  let ((), p) ← p.expect ':' "expected :"
  let (val, p) ← read p
  itemsPass '}' "expected , or \x7d" (pairs ++ [(key, val)]) p.ws

/-- What the parser makes of a key, its value and what is behind them. -/
def pairPass (read : Parser → Except String (JVal × Parser)) (pairs : List (String × JVal))
    (p : Parser) : Except String ((List (String × JVal) ⊕ List (String × JVal)) × Parser) :=
  if p.peek ≠ some (byte '"') then p.err "expected string key"
  else do
    let (key, p) ← p.string
    memberPass read pairs key p.ws

theorem pair_eq (read : Parser → Except String (JVal × Parser)) (pairs : List (String × JVal))
    (p : Parser) :
    (Parser.pair read p >>= fun r => itemsPass '}' "expected , or \x7d" (pairs ++ [r.1]) r.2.ws) =
      pairPass read pairs p.ws := by
  rw [Parser.pair, pairPass]
  split
  · rfl
  cases p.ws.string with
  | error msg => rfl
  | ok key =>
      change (key.2.ws.expect ':' "expected :" >>= _) >>= _ =
        key.2.ws.expect ':' "expected :" >>= _
      cases key.2.ws.expect ':' "expected :" with
      | error msg => rfl
      | ok colon =>
          change (read colon.2 >>= _) >>= _ = read colon.2 >>= _
          cases read colon.2 with
          | error msg => rfl
          | ok val => rfl

theorem pair_mirrors {value : Scan JVal} {read : Parser → Except String (JVal × Parser)}
    (hvalue : Mirrors b value read) (pairs : List (String × JVal)) :
    Mirrors b (pair b value pairs) fun p =>
      Parser.pair read p >>= fun r =>
        itemsPass '}' "expected , or \x7d" (pairs ++ [r.1]) r.2.ws := by
  simp only [pair_eq]
  apply Mirrors.iteration .pairs
  apply ws_mirrors.then (f := pairPass read pairs)
  intro pos
  rw [peek_bind_apply]
  apply Computes.ite
  · intro _
    exact Mirrors.err _ pos
  intro _
  apply (string_mirrors pos).bind
  intro key pos'
  apply ws_mirrors.then (f := memberPass read pairs key)
  intro pos
  apply (expect_mirrors ':' "expected :" pos).bind
  intro _ pos
  apply (hvalue pos).bind
  intro val pos
  exact afterItem_mirrors '}' _ (pairs ++ [(key, val)]) pos

theorem object_mirrors {value : Nat → Scan JVal} {read : Parser → Except String (JVal × Parser)}
    {depth : Nat} (hvalue : Mirrors b (value (depth + 1)) read) :
    Mirrors b (object b value depth) (Parser.object read) := by
  apply Mirrors.call (.object depth)
  intro pos
  apply (expect_mirrors '{' "expected \x7b" pos).bind
  intro _ pos'
  exact list_mirrors .obj (pair_mirrors hvalue) pos'

/-! ## Values -/

/-- What the parser makes of a value at a depth, behind the blanks. -/
def valueHere (depth : Nat) (p : Parser) : Except String (JVal × Parser) :=
  if p.peek = some (byte '{') then p.object (Parser.value (depth + 1))
  else if p.peek = some (byte '[') then p.array (Parser.value (depth + 1))
  else if p.peek = some (byte '"') then do
    let (s, p) ← p.string
    return (.str s, p)
  else if p.peek = some (byte 't') then p.literal "true" (.bool true)
  else if p.peek = some (byte 'f') then p.literal "false" (.bool false)
  else if p.peek = some (byte 'n') then p.literal "null" .null
  else if p.peek = some (byte '-') ∨ p.peek.any isDigitByte then p.number
  else p.err "expected value"

theorem value_eq_here (depth : Nat) (p : Parser) :
    p.value depth =
      if depth > Parser.depthLimit then p.err "nesting too deep" else valueHere depth p.ws :=
  value_eq depth p

theorem value_mirrors (calls depth : Nat) :
    Mirrors b (value b calls depth) (Parser.value depth) := by
  induction calls generalizing depth with
  | zero =>
      intro pos
      trivial
  | succ calls ih =>
      apply Mirrors.call (.value depth)
      intro pos
      rw [value_eq_here]
      apply Computes.ite
      · intro _
        exact Mirrors.err _ pos
      intro _
      apply ws_mirrors.then (f := valueHere depth)
      intro pos
      rw [peek_bind_apply]
      apply Computes.ite
      · intro _
        exact object_mirrors (ih (depth + 1)) pos
      intro _
      apply Computes.ite
      · intro _
        exact array_mirrors (ih (depth + 1)) pos
      intro _
      apply Computes.ite
      · intro _
        apply (string_mirrors pos).bind
        intro s pos
        exact Computes.pure _ pos
      intro _
      apply Computes.ite
      · intro _
        exact literal_mirrors _ (by decide) pos
      intro _
      apply Computes.ite
      · intro _
        exact literal_mirrors _ (by decide) pos
      intro _
      apply Computes.ite
      · intro _
        exact literal_mirrors _ (by decide) pos
      intro _
      apply Computes.ite
      · intro _
        exact number_mirrors pos
      · intro _
        exact Mirrors.err _ pos

end Mirrors

/-- What the parser makes of the bytes behind the value. -/
def trailing (v : JVal) (p : Parser) : Except String (JVal × Parser) :=
  if p.pos ≠ p.b.length then p.err "trailing data" else .ok (v, p)

theorem parse_eq (text : String) :
    Json.parse text =
      ((Parser.new text).value 0 >>= fun r => trailing r.1 r.2.ws).map Prod.fst := by
  rw [Json.parse]
  cases (Parser.new text).value 0 with
  | error msg => rfl
  | ok r =>
      change (if r.2.ws.pos ≠ r.2.ws.b.length then _ else _) = (trailing r.1 r.2.ws).map Prod.fst
      rw [trailing]
      split
      · rfl
      · rfl

/-- A run over a text that returns has the outcome of the parser. -/
theorem outcome_eq_parse {text : String} (hreturns : (parse text 0).outcome.Returns) :
    (parse text 0).outcome = Outcome.ofExcept (Json.parse text) := by
  have hcomputes : Computes (Parser.mk (Utf8.bytes text)) (parse text 0)
      ((Parser.new text).value 0 >>= fun r => trailing r.1 r.2.ws) := by
    apply (value_mirrors nesting 0 0).bind
    intro v pos
    apply ws_mirrors.then (f := trailing v)
    intro pos
    rw [Run.get_bind_apply]
    apply Computes.ite
    · intro _
      exact Mirrors.err _ pos
    · intro _
      exact Computes.pure v pos
  rw [parse_eq]
  exact hcomputes.eq_of_returns hreturns

end PowerForensics.Json.Cursor
