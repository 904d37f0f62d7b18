import Mathlib.Data.List.Basic

/-! # UTF-8

Texts are lists of characters and their encodings lists of bytes. Decoding works
from the front, one character at a time, and is exactly the inverse of encoding. The
bytes below `0x80` are the ASCII characters themselves and occur nowhere else in an
encoding, so a scanner may look for them byte by byte.
-/

namespace Utf8

/-- The encoding of a text. -/
def encode (cs : List Char) : List UInt8 := cs.flatMap String.utf8EncodeChar

/-- The character that the bytes start with, if they start with a whole one. -/
def decodeChar (bs : List UInt8) : Option Char := bs.toByteArray.utf8DecodeChar? 0

/-- Decode at most a given number of characters. -/
def decodeUpTo : Nat → List UInt8 → Option (List Char)
  | _, [] => some []
  | 0, _ :: _ => none
  | n + 1, b :: bs => do
      let c ← decodeChar (b :: bs)
      let cs ← decodeUpTo n ((b :: bs).drop c.utf8Size)
      return c :: cs

/-- Decode a whole sequence of bytes. -/
def decode (bs : List UInt8) : Option (List Char) := decodeUpTo bs.length bs

/-- A byte that goes on with a sequence. -/
def isContinuation (b : UInt8) : Bool := 0x80 ≤ b ∧ b ≤ 0xBF

/-- Whether a sequence that starts with the first byte may go on with the second. -/
def mayFollow (first second : UInt8) : Bool :=
  (first = 0xE0 ∧ 0xA0 ≤ second ∧ second ≤ 0xBF) ∨
    (0xE1 ≤ first ∧ first ≤ 0xEF ∧ first ≠ 0xED ∧ isContinuation second) ∨
    (first = 0xED ∧ 0x80 ≤ second ∧ second ≤ 0x9F) ∨
    (first = 0xF0 ∧ 0x90 ≤ second ∧ second ≤ 0xBF) ∨
    (0xF1 ≤ first ∧ first ≤ 0xF3 ∧ isContinuation second) ∨
    (first = 0xF4 ∧ 0x80 ≤ second ∧ second ≤ 0x8F)

/-- The length of the longest beginning of a sequence that the bytes start with, when
they start with no whole one. -/
def brokenLength : List UInt8 → Nat
  | first :: second :: rest =>
      if mayFollow first second then
        if 0xF0 ≤ first ∧ rest.head?.any isContinuation then 3 else 2
      else 1
  | _ => 1

/-- Decode at most a given number of characters, with a replacement character for every
broken sequence. -/
def decodeLossyUpTo : Nat → List UInt8 → List Char
  | _, [] => []
  | 0, _ :: _ => []
  | n + 1, b :: bs =>
      match decodeChar (b :: bs) with
      | some c => c :: decodeLossyUpTo n ((b :: bs).drop c.utf8Size)
      | none => '\uFFFD' :: decodeLossyUpTo n ((b :: bs).drop (brokenLength (b :: bs)))

/-- Decode any sequence of bytes. -/
def decodeLossy (bs : List UInt8) : List Char := decodeLossyUpTo bs.length bs

/-- The length of the sequence that a byte beyond ASCII starts. -/
def leadLength (b : UInt8) : Nat :=
  if b < 0xC2 then 0 else if b < 0xE0 then 2 else if b < 0xF0 then 3
  else if b < 0xF5 then 4 else 0

/-- What the string library says about bytes that are no text, from an index on: where
the first broken sequence is, and how long it is unless the end cuts it off. -/
def faultUpTo : Nat → Nat → List UInt8 → String
  | n + 1, index, b :: bs =>
      match decodeChar (b :: bs) with
      | some c => faultUpTo n (index + c.utf8Size) ((b :: bs).drop c.utf8Size)
      | none =>
          let broken := brokenLength (b :: bs)
          if broken = (b :: bs).length ∧ broken < leadLength b then
            s!"incomplete utf-8 byte sequence from index {index}"
          else s!"invalid utf-8 sequence of {broken} bytes from index {index}"
  | _, _, _ => ""

/-- The conversion of bytes into a text. -/
def fromUtf8 (bs : List UInt8) : Except String String :=
  match decode bs with
  | some cs => .ok (String.ofList cs)
  | none => .error (faultUpTo bs.length 0 bs)

/-- The bytes of a text. -/
def bytes (s : String) : List UInt8 := encode s.toList

/-- A character below `0x80`. -/
abbrev IsAscii (c : Char) : Prop := c.toNat < 0x80

/-! ## Encoding -/

@[simp] theorem encode_nil : encode [] = [] := rfl

theorem encode_cons (c : Char) (cs : List Char) :
    encode (c :: cs) = String.utf8EncodeChar c ++ encode cs := rfl

theorem encode_append (cs ds : List Char) : encode (cs ++ ds) = encode cs ++ encode ds := by
  simp [encode]

theorem encodeChar_ascii {c : Char} (hc : IsAscii c) :
    String.utf8EncodeChar c = [c.toUInt8] := by
  have hsize : c.val.toNat ≤ 0x7f := by
    have : c.toNat < 0x80 := hc
    change c.toNat ≤ 0x7f
    omega
  simp only [String.utf8EncodeChar, hsize, if_true]
  simp [Char.toUInt8, UInt32.toUInt8]

theorem encode_cons_ascii {c : Char} (hc : IsAscii c) (cs : List Char) :
    encode (c :: cs) = c.toUInt8 :: encode cs := by
  rw [encode_cons, encodeChar_ascii hc, List.singleton_append]

theorem length_encodeChar_pos (c : Char) : 0 < (String.utf8EncodeChar c).length := by
  rw [String.length_utf8EncodeChar]
  exact c.utf8Size_pos

theorem length_le_encode (cs : List Char) : cs.length ≤ (encode cs).length := by
  induction cs with
  | nil => simp
  | cons c cs ih =>
      have hpos := length_encodeChar_pos c
      rw [encode_cons, List.length_append, List.length_cons]
      omega

/-! ## Decoding -/

theorem decodeChar_append (c : Char) (bs : List UInt8) :
    decodeChar (String.utf8EncodeChar c ++ bs) = some c := by
  rw [decodeChar, List.toByteArray_append]
  exact ByteArray.utf8DecodeChar?_utf8EncodeChar_append

theorem decodeChar_encode (c : Char) (cs : List Char) : decodeChar (encode (c :: cs)) = some c :=
  decodeChar_append c (encode cs)

theorem eq_append_of_decodeChar {bs : List UInt8} {c : Char} (hc : decodeChar bs = some c) :
    bs = String.utf8EncodeChar c ++ bs.drop c.utf8Size := by
  have htake := String.toByteArray_utf8EncodeChar_of_utf8DecodeChar?_eq_some hc
  have hlist : String.utf8EncodeChar c = bs.take c.utf8Size := by
    rw [← List.toByteArray_inj, htake]
    apply ByteArray.ext
    simp
  rw [hlist, List.take_append_drop]

theorem decodeUpTo_encode (cs : List Char) {n : Nat} (hn : cs.length ≤ n) :
    decodeUpTo n (encode cs) = some cs := by
  induction cs generalizing n with
  | nil => simp [decodeUpTo]
  | cons c cs ih =>
      obtain ⟨n, rfl⟩ : ∃ k, n = k + 1 := ⟨n - 1, by simp only [List.length_cons] at hn; omega⟩
      have hne : encode (c :: cs) ≠ [] := by
        have := length_le_encode (c :: cs)
        intro hnil
        simp [hnil] at this
      obtain ⟨b, bs, hbs⟩ := List.exists_cons_of_ne_nil hne
      have hhead : decodeChar (b :: bs) = some c := by rw [← hbs, decodeChar_encode]
      have hdrop : (b :: bs).drop c.utf8Size = encode cs := by
        rw [← hbs, encode_cons, List.drop_append_of_le_length (by simp), List.drop_of_length_le]
        · simp
        · simp
      rw [hbs, decodeUpTo, hhead]
      simp only [Option.bind_eq_bind, Option.bind_some, hdrop]
      rw [ih (by simpa using hn)]
      rfl

theorem decodeLossyUpTo_eq {n : Nat} {bs : List UInt8} {cs : List Char}
    (hcs : decodeUpTo n bs = some cs) : decodeLossyUpTo n bs = cs := by
  induction n generalizing bs cs with
  | zero =>
      cases bs with
      | nil => simpa [decodeUpTo, decodeLossyUpTo] using hcs
      | cons b bs => cases hcs
  | succ n ih =>
      cases bs with
      | nil => simpa [decodeUpTo, decodeLossyUpTo] using hcs
      | cons b bs =>
          simp only [decodeUpTo, Option.bind_eq_bind, Option.bind_eq_some_iff,
            Option.pure_def, Option.some.injEq] at hcs
          obtain ⟨c, hc, ds, hds, rfl⟩ := hcs
          simp only [decodeLossyUpTo, hc, ih hds]

/-- Decoding an encoding gives the text back. -/
@[simp] theorem decode_encode (cs : List Char) : decode (encode cs) = some cs :=
  decodeUpTo_encode cs (length_le_encode cs)

theorem fromUtf8_bytes (s : String) : fromUtf8 (bytes s) = .ok s := by
  simp [fromUtf8, bytes]

/-- An encoding has nothing to replace. -/
theorem decodeLossy_encode (cs : List Char) : decodeLossy (encode cs) = cs :=
  decodeLossyUpTo_eq (decodeUpTo_encode cs (length_le_encode cs))

theorem encode_of_decodeUpTo {n : Nat} {bs : List UInt8} {cs : List Char}
    (hcs : decodeUpTo n bs = some cs) : encode cs = bs := by
  induction n generalizing bs cs with
  | zero =>
      cases bs with
      | nil => simp_all [decodeUpTo]
      | cons b bs => simp [decodeUpTo] at hcs
  | succ n ih =>
      cases bs with
      | nil => simp_all [decodeUpTo]
      | cons b bs =>
          simp only [decodeUpTo, Option.bind_eq_bind, Option.bind_eq_some_iff,
            Option.pure_def, Option.some.injEq] at hcs
          obtain ⟨c, hc, ds, hds, rfl⟩ := hcs
          rw [encode_cons, ih hds, ← eq_append_of_decodeChar hc]

/-- Only the encoding of a text decodes to it. -/
theorem encode_of_decode {bs : List UInt8} {cs : List Char} (hcs : decode bs = some cs) :
    encode cs = bs := encode_of_decodeUpTo hcs

theorem bytes_of_fromUtf8 {bs : List UInt8} {s : String} (hs : fromUtf8 bs = .ok s) :
    bytes s = bs := by
  unfold fromUtf8 at hs
  cases hdec : decode bs with
  | none => simp [hdec] at hs
  | some cs =>
      simp only [hdec, Except.ok.injEq] at hs
      rw [← hs, bytes, String.toList_ofList]
      exact encode_of_decode hdec

theorem encode_injective : Function.Injective encode := by
  intro cs ds heq
  have hdec := congrArg decode heq
  simpa using hdec

/-- The encodings of two texts are one a prefix of the other as the texts are. -/
theorem encode_isPrefix {cs ds : List Char} : encode cs <+: encode ds ↔ cs <+: ds := by
  constructor
  · intro hbegins
    induction cs generalizing ds with
    | nil => exact List.nil_prefix
    | cons c cs ih =>
        obtain ⟨rest, hrest⟩ := hbegins
        rw [encode_cons, List.append_assoc] at hrest
        cases ds with
        | nil =>
            have hpos := length_encodeChar_pos c
            have hlen := congrArg List.length hrest
            rw [encode_nil, List.length_append, List.length_nil] at hlen
            omega
        | cons d ds =>
            have hchar := decodeChar_append c (encode cs ++ rest)
            rw [hrest, decodeChar_encode] at hchar
            obtain rfl := Option.some.inj hchar
            rw [encode_cons] at hrest
            exact (List.prefix_cons_inj d).mpr (ih ⟨rest, List.append_cancel_left hrest⟩)
  · rintro ⟨rest, rfl⟩
    exact ⟨encode rest, (encode_append cs rest).symm⟩

/-! ## ASCII bytes -/

theorem toUInt8_inj {c a : Char} (hc : IsAscii c) (ha : IsAscii a) :
    c.toUInt8 = a.toUInt8 ↔ c = a := by
  constructor
  · intro heq
    have henc : encode [c] = encode [a] := by
      rw [encode_cons_ascii hc, encode_cons_ascii ha, heq]
    simpa using encode_injective henc
  · rintro rfl
    rfl

/-- The first byte of an encoding is an ASCII character exactly if the text starts
with that character. -/
theorem head_encode {a : Char} (ha : IsAscii a) (cs : List Char) :
    (encode cs).head? = some a.toUInt8 ↔ cs.head? = some a := by
  cases cs with
  | nil => simp
  | cons c cs =>
      constructor
      · intro hhead
        have hcons : encode (c :: cs) = a.toUInt8 :: (encode (c :: cs)).tail := by
          cases henc : encode (c :: cs) with
          | nil => simp [henc] at hhead
          | cons b bs => simpa [henc] using hhead
        have hdec : decodeChar (encode (c :: cs)) = some a := by
          rw [hcons, ← List.singleton_append, ← encodeChar_ascii ha, decodeChar_append]
        simpa [decodeChar_encode] using hdec
      · intro hhead
        obtain rfl : c = a := by simpa using hhead
        rw [encode_cons_ascii ha]
        rfl

theorem toNat_toUInt8 {c : Char} (hc : IsAscii c) : c.toUInt8.toNat = c.toNat := by
  have hlt : c.toNat < 0x80 := hc
  change c.val.toNat % 256 = c.val.toNat
  have : c.val.toNat < 0x80 := hlt
  omega

theorem toNat_ofNat {n : Nat} (hn : n.isValidChar) : (Char.ofNat n).toNat = n := by
  rw [Char.ofNat, dif_pos hn]
  rfl

/-- A first byte below `0x80` is the first character. -/
theorem head_of_head_encode {b : UInt8} (hb : b.toNat < 0x80) {cs : List Char}
    (hhead : (encode cs).head? = some b) : cs.head? = some (Char.ofNat b.toNat) := by
  have hvalid : b.toNat.isValidChar := Or.inl (by omega)
  have hnat : (Char.ofNat b.toNat).toNat = b.toNat := toNat_ofNat hvalid
  have hascii : IsAscii (Char.ofNat b.toNat) := by
    rw [IsAscii, hnat]
    exact hb
  have hbyte : (Char.ofNat b.toNat).toUInt8 = b := by
    rw [← UInt8.toNat_inj, toNat_toUInt8 hascii, hnat]
  rw [← hbyte] at hhead
  exact (head_encode hascii cs).mp hhead

/-- A class of bytes that stands for a class of ASCII characters. -/
structure ByteClass (f : UInt8 → Bool) (g : Char → Bool) : Prop where
  ascii : ∀ {c}, g c = true → IsAscii c
  byte : ∀ {c}, IsAscii c → f c.toUInt8 = g c
  low : ∀ {b}, f b = true → b.toNat < 0x80

theorem ByteClass.head {f : UInt8 → Bool} {g : Char → Bool} (hclass : ByteClass f g)
    (cs : List Char) : (encode cs).head?.any f = cs.head?.any g := by
  cases cs with
  | nil => rfl
  | cons c cs =>
      by_cases hc : IsAscii c
      · rw [encode_cons_ascii hc]
        simpa using hclass.byte hc
      · have hg : g c = false := by
          by_contra hg
          exact hc (hclass.ascii (by simpa using hg))
        cases hhead : (encode (c :: cs)).head? with
        | none => simp [hg]
        | some b =>
            have hf : f b = false := by
              by_contra hf
              have hlow := hclass.low (by simpa using hf)
              have hchar := head_of_head_encode hlow hhead
              have hascii : IsAscii (Char.ofNat b.toNat) := by
                rw [IsAscii, toNat_ofNat (Or.inl (by omega))]
                exact hlow
              exact hc (by simpa using (Option.some.inj hchar) ▸ hascii)
            simp [hf, hg]

/-- A run of ASCII characters is as long in bytes as in characters. -/
theorem ByteClass.takeWhile {f : UInt8 → Bool} {g : Char → Bool} (hclass : ByteClass f g)
    (cs : List Char) : (encode cs).takeWhile f = encode (cs.takeWhile g) := by
  induction cs with
  | nil => rfl
  | cons c cs ih =>
      by_cases hg : g c = true
      · have hc := hclass.ascii hg
        have hf : f c.toUInt8 = true := by rw [hclass.byte hc, hg]
        rw [List.takeWhile_cons_of_pos hg, encode_cons_ascii hc, encode_cons_ascii hc,
          List.takeWhile_cons_of_pos hf, ih]
      · have hhead := hclass.head (c :: cs)
        rw [List.takeWhile_cons_of_neg hg]
        cases henc : encode (c :: cs) with
        | nil => rfl
        | cons b bs =>
            have hf : ¬ f b = true := by
              simpa [henc, hg] using hhead
            rw [List.takeWhile_cons_of_neg hf]
            rfl

theorem decode_take_encode {cs ds : List Char} {n : Nat}
    (hdec : decode ((encode cs).take n) = some ds) : ∃ rest, (encode cs) = encode ds ++ rest :=
  ⟨(encode cs).drop n, by rw [encode_of_decode hdec, List.take_append_drop]⟩

/-- A text whose encoding starts with that of an ASCII text starts with that text. -/
theorem eq_append_of_encode_ascii {ds : List Char} (hds : ∀ d ∈ ds, IsAscii d) {cs : List Char}
    {bs : List UInt8} (heq : encode cs = encode ds ++ bs) : ∃ rest, cs = ds ++ rest := by
  induction ds generalizing cs with
  | nil => exact ⟨cs, rfl⟩
  | cons d ds ih =>
      have hd : IsAscii d := hds d List.mem_cons_self
      have hhead : cs.head? = some d := by
        rw [← head_encode hd, heq, encode_cons_ascii hd]
        rfl
      obtain ⟨tail, rfl⟩ : ∃ tail, cs = d :: tail := by
        cases cs with
        | nil => cases hhead
        | cons c tail => exact ⟨tail, by simpa using hhead⟩
      rw [encode_cons_ascii hd, encode_cons_ascii hd, List.cons_append, List.cons.injEq] at heq
      obtain ⟨rest, rfl⟩ := ih (fun x hx => hds x (List.mem_cons_of_mem d hx)) heq.2
      exact ⟨rest, rfl⟩

theorem length_encode_ascii {cs : List Char} (hcs : ∀ c ∈ cs, IsAscii c) :
    (encode cs).length = cs.length := by
  induction cs with
  | nil => rfl
  | cons c cs ih =>
      rw [encode_cons_ascii (hcs c List.mem_cons_self), List.length_cons, List.length_cons,
        ih fun x hx => hcs x (List.mem_cons_of_mem c hx)]

end Utf8
