import PowerForensics.Core.Telemetry
import PowerForensics.Text.LittleEndian
import PowerForensics.Text.Utf8

/-! # Records of an archive

A sample is a record of 32 bytes followed by the reason of an absent value. The reason
is cut at 1024 bytes when it is written, wherever that falls, and is decoded with
replacement characters when it is read. A stream of records is read from the front.
-/

namespace PowerForensics.Archive

structure Rec where
  mono : UInt64
  wall : UInt64
  metric : UInt16
  prov : UInt8
  kind : UInt8
  quality : UInt8
  val : Option Binary64
  reason : String
  deriving DecidableEq

def headerLen : Nat := 32

/-- The bytes of a reason that are stored. -/
def reasonBytes (reason : String) : List UInt8 := (Utf8.bytes reason).take 1024

/-- The flag of a value and its bits. -/
def valueBytes : Option Binary64 → List UInt8
  | some x => 1 :: LittleEndian.encode 8 x.bits.toNat
  | none => 0 :: LittleEndian.encode 8 0

/-- The fixed part: clocks, metric, provenance, kind, quality, value, length of the reason. -/
def header (r : Rec) : List UInt8 :=
  LittleEndian.encode 8 r.mono.toNat ++ (LittleEndian.encode 8 r.wall.toNat ++
    (LittleEndian.encode 2 r.metric.toNat ++ (r.prov :: r.kind :: r.quality ::
      (valueBytes r.val ++ LittleEndian.encode 2 (reasonBytes r.reason).length))))

def putRec (r : Rec) : List UInt8 := header r ++ reasonBytes r.reason

/-- The unsigned integer in some of the bytes. -/
def field (bytes : List UInt8) (offset size : Nat) : Nat :=
  LittleEndian.decode ((bytes.drop offset).take size)

def byteAt (bytes : List UInt8) (offset : Nat) : UInt8 := bytes.getD offset 0

/-- The record that the bytes start with, and the bytes behind it. -/
def getRec (bytes : List UInt8) : Option (Rec × List UInt8) :=
  if bytes.length < headerLen then none
  else
    let reasonLen := field bytes 30 2
    if bytes.length < headerLen + reasonLen then none
    else some
      ({ mono := .ofNat (field bytes 0 8)
         wall := .ofNat (field bytes 8 8)
         metric := .ofNat (field bytes 16 2)
         prov := byteAt bytes 18
         kind := byteAt bytes 19
         quality := byteAt bytes 20
         val := if byteAt bytes 21 &&& 1 ≠ 0 then some ⟨.ofNat 64 (field bytes 22 8)⟩ else none
         reason := .ofList (Utf8.decodeLossy ((bytes.drop headerLen).take reasonLen)) },
        bytes.drop (headerLen + reasonLen))

/-- The reason that is read back. -/
def keptReason (reason : String) : String := .ofList (Utf8.decodeLossy (reasonBytes reason))

/-- The record that is read back. -/
def Rec.kept (r : Rec) : Rec := { r with reason := keptReason r.reason }

theorem keptReason_of_short {reason : String} (hshort : (Utf8.bytes reason).length ≤ 1024) :
    keptReason reason = reason := by
  rw [keptReason, reasonBytes, List.take_of_length_le hshort, Utf8.bytes, Utf8.decodeLossy_encode,
    String.ofList_toList]

/-! ## Reading back -/

section Fields

variable (bytes : List UInt8)

theorem field_here (size n : Nat) :
    field (LittleEndian.encode size n ++ bytes) 0 size = n % 256 ^ size := by
  rw [field, List.drop_zero, List.take_left' (LittleEndian.length_encode size n),
    LittleEndian.decode_encode]

theorem field_append {size offset : Nat} (n width : Nat) (hle : size ≤ offset) :
    field (LittleEndian.encode size n ++ bytes) offset width =
    field bytes (offset - size) width := by
  rw [field, List.drop_append, LittleEndian.length_encode,
    List.drop_eq_nil_of_le (by rwa [LittleEndian.length_encode]), List.nil_append, field]

theorem field_cons {offset : Nat} (b : UInt8) (width : Nat) (hpos : 0 < offset) :
    field (b :: bytes) offset width = field bytes (offset - 1) width := by
  obtain ⟨offset, rfl⟩ := Nat.exists_eq_add_of_le' hpos
  rfl

theorem byteAt_append {size offset : Nat} (n : Nat) (hle : size ≤ offset) :
    byteAt (LittleEndian.encode size n ++ bytes) offset = byteAt bytes (offset - size) := by
  simp only [byteAt, List.getD_eq_getElem?_getD]
  rw [List.getElem?_append_right (by rwa [LittleEndian.length_encode]), LittleEndian.length_encode]

theorem byteAt_cons {offset : Nat} (b : UInt8) (hpos : 0 < offset) :
    byteAt (b :: bytes) offset = byteAt bytes (offset - 1) := by
  obtain ⟨offset, rfl⟩ := Nat.exists_eq_add_of_le' hpos
  rfl

theorem byteAt_zero (b : UInt8) : byteAt (b :: bytes) 0 = b := rfl

end Fields

theorem valueBytes_eq (val : Option Binary64) :
    valueBytes val = (if val.isSome then 1 else 0) ::
      LittleEndian.encode 8 ((val.map fun x => x.bits.toNat).getD 0) := by
  cases val <;> rfl

theorem length_valueBytes (val : Option Binary64) : (valueBytes val).length = 9 := by
  simp [valueBytes_eq]

theorem length_header (r : Rec) : (header r).length = headerLen := by
  simp only [header, List.length_append, List.length_cons, LittleEndian.length_encode,
    length_valueBytes, headerLen]

/-- A record is read back as it was written, up to a reason that was cut. -/
theorem getRec_putRec (r : Rec) (rest : List UInt8) :
    getRec (putRec r ++ rest) = some (r.kept, rest) := by
  have hlen : (reasonBytes r.reason).length ≤ 1024 := List.length_take_le _ _
  have hreasonLen : field (putRec r ++ rest) 30 2 = (reasonBytes r.reason).length := by
    simp (disch := decide) only [putRec, header, valueBytes_eq, List.append_assoc,
      List.cons_append, field_append, field_cons, field_here, Nat.reduceSub]
    exact Nat.mod_eq_of_lt (by omega)
  have hsplit : putRec r ++ rest = header r ++ (reasonBytes r.reason ++ rest) := by
    rw [putRec, List.append_assoc]
  have hlength : (putRec r ++ rest).length =
      headerLen + ((reasonBytes r.reason).length + rest.length) := by
    rw [hsplit, List.length_append, List.length_append, length_header]
  have hreason : (putRec r ++ rest).drop headerLen = reasonBytes r.reason ++ rest := by
    rw [hsplit, List.drop_left' (length_header r)]
  have hbehind : (putRec r ++ rest).drop (headerLen + (reasonBytes r.reason).length) = rest := by
    rw [← List.drop_drop, hreason, List.drop_left]
  have hclocks : ∀ n : UInt64, UInt64.ofNat (n.toNat % 256 ^ 8) = n := by
    intro n
    have hlt : n.toNat < 256 ^ 8 := n.toNat_lt
    rw [Nat.mod_eq_of_lt hlt, UInt64.ofNat_toNat]
  have hmetric : UInt16.ofNat (r.metric.toNat % 256 ^ 2) = r.metric := by
    have hlt : r.metric.toNat < 256 ^ 2 := r.metric.toNat_lt
    rw [Nat.mod_eq_of_lt hlt, UInt16.ofNat_toNat]
  have hval : (if (if r.val.isSome then 1 else 0 : UInt8) &&& 1 ≠ 0 then
      some (⟨.ofNat 64 (((r.val.map fun x => x.bits.toNat).getD 0) % 256 ^ 8)⟩ : Binary64)
      else none) = r.val := by
    cases r.val with
    | none => rfl
    | some x =>
        have hbits : x.bits.toNat % 256 ^ 8 = x.bits.toNat := Nat.mod_eq_of_lt x.bits.isLt
        simp only [Option.isSome_some, Option.map_some, Option.getD_some, hbits,
          BitVec.ofNat_toNat, BitVec.setWidth_eq]
        rfl
  rw [getRec, if_neg (by omega), hreasonLen, if_neg (by omega), hreason, List.take_left, hbehind]
  simp (disch := decide) only [putRec, header, valueBytes_eq, List.append_assoc,
    List.cons_append, field_append, field_cons, field_here, byteAt_append, byteAt_cons,
    byteAt_zero, Nat.reduceSub, hclocks, hmetric, hval]
  rfl

end PowerForensics.Archive
