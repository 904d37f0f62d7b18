import PowerForensics.Core.JsonReader

/-! # The parser refines the reader

A parser stands in front of a text if its remaining bytes are the encoding of that
text. Each method of the parser, run in front of a text, agrees with the reader of
the same name on the text: both fail, or both give the same value and the parser then
stands in front of what the reader left.
-/

namespace PowerForensics.Json

open Utf8

/-- The parser stands in front of a text. -/
structure Parser.At (p : Parser) (cs : List Char) : Prop where
  remaining : p.remaining = encode cs
  inside : p.pos ≤ p.b.length

/-- A result of the parser agrees with a result of the reader. -/
def Agrees {α : Type} (p : Parser) (r : Except String (α × Parser)) :
    Option (α × List Char) → Prop
  | none => ∃ e, r = .error e
  | some (a, rest) => ∃ q, r = .ok (a, q) ∧ q.b = p.b ∧ q.At rest

/-- A method of the parser agrees with a reader in front of every text. -/
def Refines {α : Type} (method : Parser → Except String (α × Parser))
    (reader : List Char → Option (α × List Char)) : Prop :=
  ∀ p cs, p.At cs → Agrees p (method p) (reader cs)

section Agrees

variable {α β : Type} {p : Parser}

theorem Agrees.ok {a : α} {q : Parser} {rest : List Char} (hq : q.At rest) (hb : q.b = p.b) :
    Agrees p (.ok (a, q)) (some (a, rest)) := ⟨q, rfl, hb, hq⟩

theorem Agrees.error (e : String) : Agrees (α := α) p (.error e) none := ⟨e, rfl⟩

theorem Agrees.err (q : Parser) (msg : String) : Agrees (α := α) p (q.err msg) none := ⟨_, rfl⟩

theorem Agrees.of_b {q : Parser} {r : Except String (α × Parser)} {o : Option (α × List Char)}
    (hagrees : Agrees q r o) (hb : q.b = p.b) : Agrees p r o := by
  cases o with
  | none => exact hagrees
  | some x =>
      obtain ⟨q', hr, hb', hq'⟩ := hagrees
      exact ⟨q', hr, hb'.trans hb, hq'⟩

@[simp] theorem ok_bind (x : α) (f : α → Except String β) : (Except.ok x >>= f) = f x := rfl

theorem Agrees.bind {r : Except String (α × Parser)} {o : Option (α × List Char)}
    {f : α × Parser → Except String (β × Parser)} {g : α × List Char → Option (β × List Char)}
    (hagrees : Agrees p r o)
    (hnext : ∀ a q rest, q.b = p.b → q.At rest → Agrees p (f (a, q)) (g (a, rest))) :
    Agrees p (r >>= f) (o.bind g) := by
  cases o with
  | none =>
      obtain ⟨e, rfl⟩ := hagrees
      exact ⟨e, rfl⟩
  | some x =>
      obtain ⟨q, rfl, hb, hq⟩ := hagrees
      exact hnext x.1 q x.2 hb hq

theorem Agrees.map {r : Except String (α × Parser)} {o : Option (α × List Char)} (f : α → β)
    (hagrees : Agrees p r o) :
    Agrees p (r >>= fun x => .ok (f x.1, x.2)) (o.map fun x => (f x.1, x.2)) := by
  rw [Option.map_eq_bind]
  exact hagrees.bind fun a q rest hb hq => Agrees.ok hq hb

end Agrees

/-! ## Looking ahead -/

namespace Parser

theorem at_new (s : String) : (new s).At s.toList := ⟨rfl, Nat.zero_le _⟩

section At

variable {p : Parser} {cs : List Char}

theorem peek_eq_head (p : Parser) : p.peek = p.remaining.head? := by
  rw [peek, remaining, List.head?_drop]

theorem At.peek_iff (hp : p.At cs) {a : Char} (ha : IsAscii a) :
    p.peek = some (byte a) ↔ cs.head? = some a := by
  rw [peek_eq_head, hp.remaining, head_encode ha]

theorem At.peek_none (hp : p.At cs) : p.peek = none ↔ cs = [] := by
  rw [peek_eq_head, hp.remaining, List.head?_eq_none_iff]
  constructor
  · intro hnil
    exact encode_injective hnil
  · rintro rfl
    rfl

theorem At.peek_class (hp : p.At cs) {f : UInt8 → Bool} {g : Char → Bool}
    (hclass : ByteClass f g) : p.peek.any f = cs.head?.any g := by
  rw [peek_eq_head, hp.remaining, hclass.head]

theorem At.advance {ds : List Char} (hp : p.At (ds ++ cs)) :
    (p.advance (encode ds).length).At cs := by
  have hlen := congrArg List.length hp.remaining
  rw [Parser.remaining, List.length_drop, encode_append, List.length_append] at hlen
  have hinside := hp.inside
  constructor
  · have hdrop : (p.advance (encode ds).length).remaining =
        p.remaining.drop (encode ds).length := by
      simp [Parser.remaining, Parser.advance, List.drop_drop]
    rw [hdrop, hp.remaining, encode_append, List.drop_left]
  · simp only [Parser.advance]
    omega

theorem At.advance_char {c : Char} (hp : p.At (c :: cs)) : (p.advance c.utf8Size).At cs := by
  have hsplit : p.At ([c] ++ cs) := hp
  have hnext := hsplit.advance
  rwa [encode_cons, encode_nil, List.append_nil, String.length_utf8EncodeChar] at hnext

theorem At.advance_ascii {c : Char} (hc : IsAscii c) (hp : p.At (c :: cs)) :
    (p.advance 1).At cs := by
  have hsplit : p.At ([c] ++ cs) := hp
  have hnext := hsplit.advance
  rwa [encode_cons_ascii hc] at hnext

theorem At.skipWhile (hp : p.At cs) {f : UInt8 → Bool} {g : Char → Bool}
    (hclass : ByteClass f g) : (p.skipWhile f).At (cs.dropWhile g) := by
  rw [Parser.skipWhile, hp.remaining, hclass.takeWhile]
  apply At.advance
  rw [List.takeWhile_append_dropWhile]
  exact hp

@[simp] theorem advance_b (p : Parser) (n : Nat) : (p.advance n).b = p.b := rfl
@[simp] theorem skipWhile_b (f : UInt8 → Bool) (p : Parser) : (p.skipWhile f).b = p.b := rfl
@[simp] theorem ws_b (p : Parser) : p.ws.b = p.b := rfl

theorem blankClass : ByteClass isBlankByte isBlank where
  ascii {c} hc := by
    simp only [isBlank, List.mem_cons, List.not_mem_nil, or_false, decide_eq_true_eq] at hc
    rcases hc with rfl | rfl | rfl | rfl <;> decide
  byte {c} hc := by
    simp [isBlankByte, isBlank, byte, toUInt8_inj hc (show IsAscii ' ' by decide),
      toUInt8_inj hc (show IsAscii '\t' by decide), toUInt8_inj hc (show IsAscii '\n' by decide),
      toUInt8_inj hc (show IsAscii '\r' by decide)]
  low {b} hb := by
    simp only [isBlankByte, List.mem_cons, List.not_mem_nil, or_false, decide_eq_true_eq] at hb
    rcases hb with rfl | rfl | rfl | rfl <;> decide

theorem digitClass : ByteClass isDigitByte Char.isDigit where
  ascii {c} hc := by
    obtain ⟨-, hle⟩ := Char.isDigit_iff_toNat.mp hc
    have hnine : '9'.toNat = 57 := by decide
    have hlt : c.toNat < 0x80 := by omega
    exact hlt
  byte {c} hc := by
    have hnat := toNat_toUInt8 hc
    have hzero : (byte '0').toNat = '0'.toNat := by decide
    have hnine : (byte '9').toNat = '9'.toNat := by decide
    rw [Bool.eq_iff_iff, Char.isDigit_iff_toNat, isDigitByte, decide_eq_true_eq,
      UInt8.le_iff_toNat_le, UInt8.le_iff_toNat_le, hnat, hzero, hnine]
  low {b} hb := by
    simp only [isDigitByte, decide_eq_true_eq, UInt8.le_iff_toNat_le] at hb
    have : (byte '9').toNat = 57 := by decide
    omega

theorem At.ws (hp : p.At cs) : p.ws.At (skipBlanks cs) := hp.skipWhile blankClass

end At

/-! ## Scanners -/

section Scanners

variable {p : Parser} {cs : List Char}

theorem At.expect {c : Char} (hc : IsAscii c) {rest : List Char} (hp : p.At (c :: rest))
    (what : String) : p.expect c what = .ok ((), p.advance 1) := by
  rw [Parser.expect, if_pos ((hp.peek_iff hc).mpr rfl)]

theorem At.literal (hp : p.At cs) {word : String} (hword : ∀ c ∈ word.toList, IsAscii c)
    (val : JVal) :
    Agrees p (p.literal word val) (readWord word val cs) := by
  unfold readWord
  by_cases hbegins : word.toList <+: cs
  · obtain ⟨rest, rfl⟩ := hbegins
    have htake : p.remaining.take (encode word.toList).length = encode word.toList := by
      rw [hp.remaining, encode_append, List.take_left]
    rw [if_pos (List.prefix_append _ _), List.drop_left, Parser.literal, if_pos htake]
    exact Agrees.ok hp.advance rfl
  · have htake : ¬ p.remaining.take (encode word.toList).length = encode word.toList := by
      intro htake
      rw [hp.remaining] at htake
      have hsplit : encode cs = encode word.toList ++
          (encode cs).drop (encode word.toList).length := by
        conv_lhs => rw [← List.take_append_drop (encode word.toList).length (encode cs)]
        rw [htake]
      obtain ⟨rest, rfl⟩ := eq_append_of_encode_ascii hword hsplit
      exact hbegins (List.prefix_append _ _)
    rw [if_neg hbegins, Parser.literal, if_neg htake]
    exact Agrees.err _ _

/-- A step taken only in front of certain ASCII characters. -/
theorem At.skipIf (hp : p.At cs) {C : Prop} [Decidable C] {k : Char → Bool}
    (hcond : C ↔ cs.head?.any k = true) (hascii : ∀ {c}, k c = true → IsAscii c)
    {f : Parser → Parser} {g : List Char → List Char}
    (hstep : ∀ {q : Parser} {ds : List Char}, q.At ds → (f q).At (g ds)) :
    (if C then f (p.advance 1) else p).At (if cs.head?.any k then g cs.tail else cs) := by
  cases cs with
  | nil =>
      rw [if_neg (by simp [hcond]), if_neg (by simp)]
      exact hp
  | cons c rest =>
      by_cases hc : k c = true
      · rw [if_pos (by simpa [hcond] using hc), if_pos (by simpa using hc)]
        exact hstep (hp.advance_ascii (hascii hc))
      · rw [if_neg (by simpa [hcond] using hc), if_neg (by simpa using hc)]
        exact hp

theorem At.peek_any (hp : p.At cs) {a : Char} (ha : IsAscii a) :
    p.peek = some (byte a) ↔ cs.head?.any (· = a) = true := by
  rw [hp.peek_iff ha]
  cases cs <;> simp

theorem At.peek_any₂ (hp : p.At cs) {a b : Char} (ha : IsAscii a) (hb : IsAscii b) :
    (p.peek = some (byte a) ∨ p.peek = some (byte b)) ↔
      cs.head?.any (· ∈ [a, b]) = true := by
  rw [hp.peek_iff ha, hp.peek_iff hb]
  cases cs <;> simp

theorem ascii_of_mem₂ {a b c : Char} (ha : IsAscii a) (hb : IsAscii b)
    (hc : decide (c ∈ [a, b]) = true) : IsAscii c := by
  rcases (by simpa using hc : c = a ∨ c = b) with rfl | rfl
  · exact ha
  · exact hb

theorem ascii_of_eq {a c : Char} (ha : IsAscii a) (hc : decide (c = a) = true) : IsAscii c := by
  obtain rfl := of_decide_eq_true hc
  exact ha

theorem At.skipFraction (hp : p.At cs) : p.skipFraction.At (Json.skipFraction cs) := by
  have hpoint : IsAscii '.' := by decide
  exact hp.skipIf (hp.peek_any hpoint) (ascii_of_eq hpoint)
    (f := Parser.skipWhile isDigitByte) (g := skipDigits) fun hq => hq.skipWhile digitClass

theorem At.skipExponent (hp : p.At cs) : p.skipExponent.At (Json.skipExponent cs) := by
  have hlower : IsAscii 'e' := by decide
  have hupper : IsAscii 'E' := by decide
  have hplus : IsAscii '+' := by decide
  have hminus : IsAscii '-' := by decide
  refine hp.skipIf (hp.peek_any₂ hlower hupper) (ascii_of_mem₂ hlower hupper)
    (f := fun p => Parser.skipWhile isDigitByte
      (if p.peek = some (byte '+') ∨ p.peek = some (byte '-') then p.advance 1 else p))
    (g := fun ds => skipDigits (skipChar (· ∈ ['+', '-']) ds)) fun hq => ?_
  have hsign := hq.skipIf (hq.peek_any₂ hplus hminus) (ascii_of_mem₂ hplus hminus)
    (f := fun q => q) (g := fun ds => ds) id
  exact hsign.skipWhile digitClass

theorem At.numberEnd (hp : p.At cs) : p.numberEnd.At (skipNumber cs) := by
  have hminus : IsAscii '-' := by decide
  have hsign := hp.skipIf (hp.peek_any hminus) (ascii_of_eq hminus)
    (f := fun q => q) (g := fun ds => ds) id
  exact (hsign.skipWhile digitClass).skipFraction.skipExponent

theorem skipFraction_b (p : Parser) : p.skipFraction.b = p.b := by
  unfold skipFraction
  split <;> rfl

theorem skipExponent_b (p : Parser) : p.skipExponent.b = p.b := by
  unfold skipExponent
  split
  · dsimp only
    split <;> rfl
  · rfl

theorem numberEnd_b (p : Parser) : p.numberEnd.b = p.b := by
  rw [numberEnd, skipExponent_b, skipFraction_b, skipWhile_b]
  split <;> rfl

/-- The bytes between two positions are the encoding of the text between them. -/
theorem At.take_between {q : Parser} {token rest : List Char} (hp : p.At (token ++ rest))
    (hq : q.At rest) (hb : q.b = p.b) : p.remaining.take (q.pos - p.pos) = encode token := by
  have hplen := congrArg List.length hp.remaining
  have hqlen := congrArg List.length hq.remaining
  have hpin := hp.inside
  have hqin := hq.inside
  rw [Parser.remaining, List.length_drop, encode_append, List.length_append] at hplen
  rw [Parser.remaining, List.length_drop] at hqlen
  rw [hb] at hqlen hqin
  have hpos : q.pos - p.pos = (encode token).length := by omega
  rw [hp.remaining, hpos, encode_append, List.take_left]

theorem number_refines : Refines number readNumber := by
  intro p cs hp
  have hend := hp.numberEnd
  rw [← numberToken_append cs] at hp
  unfold number readNumber
  dsimp only
  rw [hp.take_between hend (numberEnd_b p), decode_encode]
  dsimp only
  cases hparse : Binary64.parse (numberToken cs) with
  | none => exact Agrees.error _
  | some n => exact Agrees.ok hend (numberEnd_b p)

/-! ## Strings -/

theorem fromStrRadix16_ascii {cs : List Char} {n : Nat} (hcs : fromStrRadix16 cs = some n) :
    ∀ c ∈ cs, IsAscii c := by
  have hdigit : ∀ c d, hexDigit c = some d → IsAscii c := by
    intro c d hd
    have hlt : c.toNat < 0x80 := by
      have hnine : '9'.toNat = 57 := by decide
      have hf : 'f'.toNat = 102 := by decide
      have hF : 'F'.toNat = 70 := by decide
      unfold hexDigit at hd
      split at hd
      next hc => have : c.toNat ≤ '9'.toNat := hc.2; omega
      split at hd
      next hc => have : c.toNat ≤ 'f'.toNat := hc.2; omega
      split at hd
      next hc => have : c.toNat ≤ 'F'.toNat := hc.2; omega
      cases hd
    exact hlt
  have hdigits : ∀ ds : List Char, ∀ ns, ds.mapM hexDigit = some ns → ∀ c ∈ ds, IsAscii c := by
    intro ds
    induction ds with
    | nil => simp
    | cons d ds ih =>
        intro ns hns
        simp only [List.mapM_cons, Option.bind_eq_bind, Option.bind_eq_some_iff] at hns
        obtain ⟨m, hm, ms, hms, -⟩ := hns
        exact List.forall_mem_cons.mpr ⟨hdigit d m hm, ih ms hms⟩
  intro c hc
  have hne : (if cs.head? = some '+' then cs.tail else cs) ≠ [] := by
    intro hnil
    simp [fromStrRadix16, hexValue, hnil] at hcs
  rw [fromStrRadix16, hexValue, if_neg hne] at hcs
  obtain ⟨ns, hns, -⟩ := Option.map_eq_some_iff.mp hcs
  have hall := hdigits _ ns hns
  split at hall
  next hplus =>
    cases cs with
    | nil => cases hc
    | cons a as =>
        obtain rfl : a = '+' := by simpa using hplus
        rcases List.mem_cons.mp hc with rfl | htail
        · decide
        · exact hall c htail
  · exact hall c hc

theorem hex4_refines : Refines hex4 readQuad := by
  intro p cs hp
  have hlen := congrArg List.length hp.remaining
  have hinside := hp.inside
  have hle := length_le_encode cs
  rw [Parser.remaining, List.length_drop] at hlen
  unfold hex4 readQuad
  -- four characters that are digits are four bytes; the other way round is the last case
  by_cases hquad : 4 ≤ cs.length ∧ ∃ n, fromStrRadix16 (cs.take 4) = some n
  · obtain ⟨hfour, n, hn⟩ := hquad
    have hascii := length_encode_ascii (fromStrRadix16_ascii hn)
    rw [List.length_take, min_eq_left hfour] at hascii
    rw [← List.take_append_drop 4 cs] at hp
    have htake : p.remaining.take 4 = encode (cs.take 4) := by
      rw [hp.remaining, encode_append, List.take_left' hascii]
    rw [if_neg (by omega), htake, decode_encode, if_neg (by omega)]
    simp only [hn, Option.map_some]
    have hnext := hp.advance
    rw [hascii] at hnext
    exact Agrees.ok hnext rfl
  · have hnone : (if cs.length < 4 then none
        else (fromStrRadix16 (cs.take 4)).map fun n => (n, cs.drop 4)) = none := by
      split
      · rfl
      next hfour =>
        rw [Option.map_eq_none_iff, Option.eq_none_iff_forall_ne_some]
        exact fun n hn => hquad ⟨by omega, n, hn⟩
    rw [hnone]
    split
    · exact Agrees.err _ _
    next hroom =>
      split
      · exact Agrees.error _
      next ds hds =>
        split
        · exact Agrees.error _
        next n hn =>
          -- the four bytes are digits, so they are the first four characters
          exfalso
          apply hquad
          have hascii := fromStrRadix16_ascii hn
          rw [hp.remaining] at hds
          have hsplit := encode_of_decode hds
          have hdslen : ds.length = 4 := by
            rw [← length_encode_ascii hascii, hsplit, List.length_take]
            omega
          obtain ⟨rest, heq⟩ := decode_take_encode hds
          obtain ⟨tail, rfl⟩ := eq_append_of_encode_ascii hascii heq
          have htake : (ds ++ tail).take 4 = ds := by rw [← hdslen, List.take_left]
          refine ⟨by simp only [List.length_append]; omega, n, ?_⟩
          rw [htake, hn]

theorem At.take_two (hp : p.At cs) :
    p.remaining.take 2 = [byte '\\', byte 'u'] ↔ cs.take 2 = ['\\', 'u'] := by
  have hascii : ∀ c ∈ ['\\', 'u'], IsAscii c := by simp [IsAscii]
  have henc : encode ['\\', 'u'] = [byte '\\', byte 'u'] := by decide
  rw [hp.remaining, ← henc]
  constructor
  · intro htake
    have hsplit : encode cs = encode ['\\', 'u'] ++ (encode cs).drop 2 := by
      rw [← htake, List.take_append_drop]
    obtain ⟨rest, rfl⟩ := eq_append_of_encode_ascii hascii hsplit
    rfl
  · intro htake
    rw [← List.take_append_drop 2 cs, htake, encode_append]
    rfl

theorem unicodeEscape_refines : Refines unicodeEscape readUnicode := by
  intro p cs hp
  refine (hex4_refines p cs hp).bind fun hi q rest hb hq => ?_
  dsimp only
  simp only [hq.take_two]
  split
  next hpair =>
    have hsplit : ['\\', 'u'] ++ rest.drop 2 = rest := by
      rw [← hpair.2.2, List.take_append_drop]
    have hpre : q.At (['\\', 'u'] ++ rest.drop 2) := hsplit ▸ hq
    have hadvance : (q.advance 2).At (rest.drop 2) := At.advance hpre
    have hlo := (hex4_refines _ _ hadvance).of_b (p := p) hb
    rw [Option.map_eq_bind]
    refine hlo.bind fun lo q' rest' hb' hq' => ?_
    dsimp only [Function.comp]
    split <;> exact Agrees.ok hq' hb'
  · exact Agrees.ok hq hb

theorem At.escaped (hp : p.At cs) : escaped p.peek = cs.head?.bind escapedChar := by
  have hall : ∀ e ∈ escapes, IsAscii e.1 := by decide
  have hfind : ∀ es : List (Char × Char), (∀ e ∈ es, IsAscii e.1) →
      es.find? (fun e => p.peek = some (byte e.1)) = es.find? (fun e => cs.head? = some e.1) := by
    intro es hes
    induction es with
    | nil => rfl
    | cons e es ih =>
        have he := hp.peek_iff (hes e List.mem_cons_self)
        simp only [List.find?_cons, he, ih fun x hx => hes x (List.mem_cons_of_mem e hx)]
  rw [Json.escaped, hfind escapes hall]
  cases cs with
  | nil => rfl
  | cons c rest => simp [escapedChar]

theorem stringItem_refines : Refines stringItem readItem := by
  intro p cs hp
  have hslash : IsAscii '\\' := by decide
  have hu : IsAscii 'u' := by decide
  unfold stringItem
  cases cs with
  | nil =>
      rw [if_neg (by simp [hp.peek_iff hslash]), hp.remaining, encode_nil]
      exact Agrees.error _
  | cons c rest =>
      by_cases hc : c = '\\'
      · subst hc
        have hnext := hp.advance_ascii hslash
        rw [if_pos ((hp.peek_iff hslash).mpr rfl)]
        cases rest with
        | nil =>
            have hescaped := hnext.escaped
            dsimp only
            rw [if_neg (by simp [hnext.peek_iff hu]), hescaped]
            exact Agrees.err _ _
        | cons d tail =>
            by_cases hd : d = 'u'
            · subst hd
              dsimp only
              rw [if_pos ((hnext.peek_iff hu).mpr rfl)]
              exact (unicodeEscape_refines _ _ (hnext.advance_ascii hu)).of_b rfl
            · have hescaped := hnext.escaped
              dsimp only
              rw [if_neg (by simpa [hnext.peek_iff hu] using hd), hescaped]
              simp only [readItem, hd, if_false, List.head?_cons, Option.bind_some]
              cases hesc : escapedChar d with
              | none => exact Agrees.err _ _
              | some e =>
                  have hascii : IsAscii d := by
                    obtain ⟨entry, hentry, -⟩ := Option.map_eq_some_iff.mp hesc
                    have hmem := List.mem_of_find?_eq_some hentry
                    have heq := List.find?_some hentry
                    rw [of_decide_eq_true heq]
                    exact (show ∀ e ∈ escapes, IsAscii e.1 by decide) entry hmem
                  exact Agrees.ok (hnext.advance_ascii hascii) rfl
      · rw [if_neg (by simpa [hp.peek_iff hslash] using hc), hp.remaining, decode_encode]
        dsimp only
        rw [readItem_raw hc]
        split
        · exact Agrees.err _ _
        · exact Agrees.ok hp.advance_char rfl

theorem stringLoop_agrees {passes : Nat} (out : String) (hp : p.At cs)
    (hpasses : cs.length < passes) :
    Agrees p (stringLoop passes out p)
      ((readBody cs).map fun x => (out ++ String.ofList x.1, x.2)) := by
  have hquote : IsAscii '"' := by decide
  induction passes generalizing p cs out with
  | zero => omega
  | succ passes ih =>
      unfold stringLoop
      cases cs with
      | nil =>
          rw [if_pos (hp.peek_none.mpr rfl), readBody_nil]
          exact Agrees.err _ _
      | cons c rest =>
          rw [if_neg (by simp [hp.peek_none])]
          by_cases hc : c = '"'
          · subst hc
            rw [if_pos ((hp.peek_iff hquote).mpr rfl), readBody_quote]
            simpa using Agrees.ok (p := p) (hp.advance_ascii hquote) rfl
          · rw [if_neg (by simpa [hp.peek_iff hquote] using hc), readBody_item hc]
            simp only [Option.map_eq_bind, Option.bind_assoc]
            cases hitem : readItem (c :: rest) with
            | none =>
                obtain ⟨e, he⟩ := hitem ▸ stringItem_refines p _ hp
                rw [he]
                exact Agrees.error e
            | some x =>
                obtain ⟨q, hok, hb, hq⟩ := hitem ▸ stringItem_refines p _ hp
                have hshort := readItem_shrinks hitem
                have hloop := ih (out.push x.1) hq (by omega)
                have hout : ∀ ds : List Char, out.push x.1 ++ String.ofList ds =
                    out ++ String.ofList (x.1 :: ds) := by
                  intro ds
                  rw [← String.toList_inj]
                  simp
                rw [hok]
                simp only [hout] at hloop
                simpa [Option.map_eq_bind, Function.comp_def] using hloop.of_b hb

theorem At.length_lt (hp : p.At cs) : cs.length < p.b.length + 1 := by
  have hlen := congrArg List.length hp.remaining
  have hle := length_le_encode cs
  rw [Parser.remaining, List.length_drop] at hlen
  omega

theorem string_refines : Refines string readString := by
  intro p cs hp
  have hquote : IsAscii '"' := by decide
  unfold string
  by_cases hhead : cs.head? = some '"'
  · obtain ⟨rest, rfl⟩ : ∃ rest, cs = '"' :: rest := by
      cases cs with
      | nil => cases hhead
      | cons c rest => exact ⟨rest, by simpa using hhead⟩
    have hnext := hp.advance_ascii hquote
    have hloop := stringLoop_agrees "" hnext hnext.length_lt
    rw [hp.expect hquote]
    simpa [readString] using hloop.of_b (p := p) rfl
  · have hnone : readString cs = none := by
      unfold readString
      split
      · simp at hhead
      · rfl
    rw [Parser.expect, if_neg (by rwa [hp.peek_iff hquote]), hnone]
    exact Agrees.err _ _

/-! ## Containers and values -/

/-- The loop over elements, whose passes are bounded by the text that is left. -/
theorem itemsLoop_agrees {α : Type} {element : Parser → Except String (α × Parser)}
    {reader : Reader α} (hrefines : Refines element reader.run) {close : Char}
    (hclose : IsAscii close) (what : String) {passes : Nat} (items : List α) (hp : p.At cs)
    (hpasses : cs.length < passes) :
    Agrees p (itemsLoop element close what passes items p)
      ((readItems reader close cs).map fun x => (items ++ x.1, x.2)) := by
  have hcomma : IsAscii ',' := by decide
  induction passes generalizing p cs items with
  | zero => omega
  | succ passes ih =>
      unfold itemsLoop
      rw [readItems_eq]
      cases hitem : reader.run cs with
      | none =>
          obtain ⟨e, he⟩ := hitem ▸ hrefines p _ hp
          rw [he]
          exact Agrees.error e
      | some x =>
          -- an element takes some of the text, so the passes suffice for the rest
          obtain ⟨q, hok, hb, hq⟩ := hitem ▸ hrefines p _ hp
          have hshort := reader.shrinks hitem
          have hws := hq.ws
          have hle := (skipBlanks_suffix x.2).length_le
          rw [hok]
          simp only [Option.bind_some]
          cases hskip : skipBlanks x.2 with
          | nil =>
              rw [hskip] at hws
              have hnone := hws.peek_none.mpr rfl
              simpa [hnone] using Agrees.err (p := p) q.ws what
          | cons c tail =>
              rw [hskip] at hws hle
              rw [List.length_cons] at hle
              have hpeek : ∀ {a : Char}, IsAscii a → (q.ws.peek = some (byte a) ↔ c = a) := by
                intro a ha
                rw [hws.peek_iff ha]
                simp
              simp only [ok_bind, hpeek hcomma, hpeek hclose]
              by_cases hc : c = ','
              · subst hc
                have hloop := ih (items ++ [x.1]) (hws.advance_ascii hcomma) (by omega)
                simpa [Function.comp_def] using hloop.of_b (p := p) hb
              · by_cases hd : c = close
                · subst hd
                  simpa [hc] using Agrees.ok (p := p) (hws.advance_ascii hclose) hb
                · simpa [hc, hd] using Agrees.err (p := p) q.ws what

theorem At.head (hp : p.At cs) {a : Char} (ha : IsAscii a) (hpeek : p.peek = some (byte a)) :
    ∃ rest, cs = a :: rest := by
  have hhead := (hp.peek_iff ha).mp hpeek
  cases cs with
  | nil => cases hhead
  | cons c rest => exact ⟨rest, by simpa using hhead⟩

theorem pair_refines {value : Parser → Except String (JVal × Parser)} {reader : Reader JVal}
    (hrefines : Refines value reader.run) : Refines (pair value) (readPair reader) := by
  intro p cs hp
  have hquote : IsAscii '"' := by decide
  have hcolon : IsAscii ':' := by decide
  have hws := hp.ws
  unfold pair
  dsimp only
  split
  next hpeek =>
    have hnone : readString (skipBlanks cs) = none := by
      rw [ne_eq, hws.peek_iff hquote] at hpeek
      unfold readString
      split
      next heq => simp [heq] at hpeek
      · rfl
    rw [readPair, hnone]
    exact Agrees.err _ _
  next =>
    have hkey := (string_refines _ _ hws).of_b (p := p) rfl
    refine hkey.bind fun key q rest hb hq => ?_
    have hnext := hq.ws
    dsimp only
    by_cases hpeek : q.ws.peek = some (byte ':')
    · obtain ⟨tail, htail⟩ := hnext.head hcolon hpeek
      rw [htail] at hnext ⊢
      have hval := (hrefines _ _ (hnext.advance_ascii hcolon)).of_b (p := p) hb
      rw [hnext.expect hcolon, List.head?_cons, if_pos rfl]
      exact hval.map fun v => (key, v)
    · rw [if_neg (by rwa [hnext.peek_iff hcolon] at hpeek), Parser.expect, if_neg hpeek]
      exact Agrees.err _ _

/-- The part of `array` and `object` after the opening bracket. -/
theorem list_agrees {α : Type} {element : Parser → Except String (α × Parser)}
    {reader : Reader α} (hrefines : Refines element reader.run) {close : Char}
    (hclose : IsAscii close) (what : String) (hp : p.At cs) :
    Agrees p
      (if p.ws.peek = some (byte close) then .ok ([], p.ws.advance 1)
        else itemsLoop element close what (p.ws.b.length + 1) [] p.ws)
      (readList reader close cs) := by
  have hws := hp.ws
  unfold readList
  by_cases hpeek : p.ws.peek = some (byte close)
  · obtain ⟨tail, htail⟩ := hws.head hclose hpeek
    rw [if_pos hpeek, htail]
    rw [htail] at hws
    simpa using Agrees.ok (p := p) (hws.advance_ascii hclose) rfl
  · rw [if_neg hpeek, if_neg (by rwa [hws.peek_iff hclose] at hpeek)]
    simpa using (itemsLoop_agrees hrefines hclose what [] hws hws.length_lt).of_b (p := p) rfl

theorem array_refines {value : Parser → Except String (JVal × Parser)} {reader : Reader JVal}
    (hrefines : Refines value reader.run) (hp : p.At ('[' :: cs)) :
    Agrees p (p.array value) ((readList reader ']' cs).map fun x => (.arr x.1, x.2)) := by
  have hopen : IsAscii '[' := by decide
  have hlist := (list_agrees hrefines (show IsAscii ']' by decide) "expected , or ]"
    (hp.advance_ascii hopen)).of_b (p := p) rfl
  have hmap := hlist.map JVal.arr
  unfold array
  rw [hp.expect hopen]
  simp only [ok_bind]
  split
  next hclosed =>
    rw [if_pos hclosed] at hmap
    exact hmap
  next hclosed =>
    rw [if_neg hclosed] at hmap
    exact hmap

theorem object_refines {value : Parser → Except String (JVal × Parser)} {reader : Reader JVal}
    (hrefines : Refines value reader.run) (hp : p.At ('{' :: cs)) :
    Agrees p (p.object value)
      ((readList (pairReader reader) '}' cs).map fun x => (.obj x.1, x.2)) := by
  have hopen : IsAscii '{' := by decide
  have hpair : Refines (pair value) (pairReader reader).run := pair_refines hrefines
  have hlist := (list_agrees hpair (show IsAscii '}' by decide) "expected , or \x7d"
    (hp.advance_ascii hopen)).of_b (p := p) rfl
  have hmap := hlist.map JVal.obj
  unfold object
  rw [hp.expect hopen]
  simp only [ok_bind]
  split
  next hclosed =>
    rw [if_pos hclosed] at hmap
    exact hmap
  next hclosed =>
    rw [if_neg hclosed] at hmap
    exact hmap

theorem valueAt_refines (levels : Nat) : Refines (valueAt levels) (valueReader levels).run := by
  induction levels with
  | zero => exact fun p cs _ => Agrees.err _ _
  | succ levels ih =>
      intro p cs hp
      have hws := hp.ws
      change Agrees p _ (readHere (valueReader levels) (skipBlanks cs))
      apply Agrees.of_b (q := p.ws) _ rfl
      unfold valueAt
      dsimp only
      generalize skipBlanks cs = ds at hws
      generalize p.ws = q at hws
      cases ds with
      | nil =>
          have hnone := hws.peek_none.mpr rfl
          simpa [hnone, readHere] using Agrees.err (α := JVal) q "expected value"
      | cons c rest =>
          have hpeek : ∀ {a : Char}, IsAscii a → (q.peek = some (byte a) ↔ c = a) := by
            intro a ha
            rw [hws.peek_iff ha]
            simp
          have hdigit : q.peek.any isDigitByte = c.isDigit := hws.peek_class digitClass
          simp only [readHere, hdigit, hpeek (show IsAscii '{' by decide),
            hpeek (show IsAscii '[' by decide), hpeek (show IsAscii '"' by decide),
            hpeek (show IsAscii 't' by decide), hpeek (show IsAscii 'f' by decide),
            hpeek (show IsAscii 'n' by decide), hpeek (show IsAscii '-' by decide)]
          split
          next hc => exact object_refines ih (hc ▸ hws)
          split
          next hc => exact array_refines ih (hc ▸ hws)
          split
          next hc =>
            subst hc
            have hstring := (string_refines q _ hws).map JVal.str
            rw [readString, Option.map_map] at hstring
            exact hstring
          split
          · exact hws.literal (by simp [IsAscii]) _
          split
          · exact hws.literal (by simp [IsAscii]) _
          split
          · exact hws.literal (by simp [IsAscii]) _
          split
          · exact number_refines q _ hws
          · exact Agrees.err _ _

end Scanners


end Parser

/-- The parser accepts a text exactly if the reader does, with the same value. -/
theorem parse_eq_ok_iff (text : String) (v : JVal) :
    parse text = .ok v ↔ readText text.toList = some v := by
  have hrun := Parser.valueAt_refines (Parser.depthLimit + 1) _ _ (Parser.at_new text)
  change Agrees _ ((Parser.new text).value 0) _ at hrun
  unfold parse readText
  cases hread : (valueReader (Parser.depthLimit + 1)).run text.toList with
  | none =>
      obtain ⟨e, he⟩ := hread ▸ hrun
      simp [he, bind, Except.bind]
  | some x =>
      obtain ⟨q, hok, hb, hq⟩ := hread ▸ hrun
      have hws := hq.ws
      have hlen := congrArg List.length hws.remaining
      have hinside := hws.inside
      rw [Parser.remaining, List.length_drop] at hlen
      have hend : q.ws.pos = q.ws.b.length ↔ skipBlanks x.2 = [] := by
        constructor
        · intro heq
          rw [heq, Nat.sub_self] at hlen
          have := length_le_encode (skipBlanks x.2)
          exact List.length_eq_zero_iff.mp (by omega)
        · intro hnil
          rw [hnil, encode_nil, List.length_nil] at hlen
          omega
      rw [hok]
      simp only [ok_bind, Option.bind_some, ne_eq, hend]
      by_cases hnil : skipBlanks x.2 = []
      · simp [hnil, pure, Except.pure]
      · simp [hnil, Parser.err]

/-- The parser of a text of characters is the reader of these. -/
theorem toOption_parse (cs : List Char) : (parse (String.ofList cs)).toOption = readText cs := by
  apply Option.ext
  intro v
  have hparse := parse_eq_ok_iff (String.ofList cs) v
  rw [String.toList_ofList] at hparse
  rw [← hparse]
  cases parse (String.ofList cs) <;> simp [Except.toOption]

theorem parse_isOk_iff (text : String) :
    (∃ v, parse text = .ok v) ↔ (readText text.toList).isSome := by
  simp only [parse_eq_ok_iff, Option.isSome_iff_exists]

end PowerForensics.Json
