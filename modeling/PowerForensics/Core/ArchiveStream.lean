import PowerForensics.Core.ArchiveStore

/-! # The stream of records

Records are written one behind the other and read from the front. A stream that ends inside a
record is reported as truncated, behind the records that are whole. A reason longer than the cut
comes back as a front of it exactly if the cut does not fall into a character; otherwise a
replacement character stands for the one that was split.
-/

namespace PowerForensics.Archive

open Session (truncate)

/-! ## The loop over the records -/

def truncatedRecord : String := "truncated v2 record"

/-- The records that come out of the loop one after another, and the error it ends with. -/
def readRecords : Nat → List UInt8 → List Rec × Option String
  | 0, _ => ([], none)
  | fuel + 1, bytes =>
      if bytes = [] then ([], none)
      else
        match getRec bytes with
        | none => ([], some truncatedRecord)
        | some (r, rest) =>
            let (rs, e) := readRecords fuel rest
            (r :: rs, e)

def readStream (bytes : List UInt8) : List Rec × Option String := readRecords bytes.length bytes

def stream (records : List Rec) : List UInt8 := records.flatMap putRec

theorem length_of_getRec {bytes rest : List UInt8} {r : Rec}
    (hread : getRec bytes = some (r, rest)) : rest.length + headerLen ≤ bytes.length := by
  unfold getRec at hread
  split at hread
  · cases hread
  next hheader =>
    dsimp only at hread
    split at hread
    · cases hread
    · obtain ⟨-, rfl⟩ := Prod.mk.inj (Option.some.inj hread)
      rw [List.length_drop]
      omega

/-- As many rounds as there are bytes are enough. -/
theorem readRecords_enough {fuel : Nat} {bytes : List UInt8} (hfuel : bytes.length ≤ fuel) :
    readRecords fuel bytes = readStream bytes := by
  unfold readStream
  induction fuel using Nat.strong_induction_on generalizing bytes with
  | _ fuel ih =>
      cases bytes with
      | nil => cases fuel <;> rfl
      | cons b bytes =>
          obtain ⟨fuel, rfl⟩ := Nat.exists_eq_add_of_le' (Nat.one_le_of_lt hfuel)
          rw [List.length_cons] at hfuel ⊢
          rw [readRecords, readRecords]
          cases hread : getRec (b :: bytes) with
          | none => rfl
          | some found =>
              obtain ⟨r, rest⟩ := found
              have hrest := length_of_getRec hread
              rw [List.length_cons, headerLen] at hrest
              have hleft := @ih fuel (Nat.lt_succ_self fuel) rest (by omega)
              have hright := @ih bytes.length (by omega) rest (by omega)
              simp only [hleft, hright]

/-- Loading an archive is the same loop, with each record added to the store as it comes out. -/
theorem loadRecords_eq (table : List (UInt16 × Key)) (fuel : Nat) (bytes : List UInt8)
    (store : Store) : loadRecords table fuel bytes store =
      (readRecords fuel bytes).1.foldlM (Store.add table) store >>= fun store =>
        (readRecords fuel bytes).2.elim (.ok store) fun e => .error (.err e) := by
  induction fuel generalizing bytes store with
  | zero => rfl
  | succ fuel ih =>
      rw [loadRecords, readRecords]
      split
      · rfl
      · cases hread : getRec bytes with
        | none => rfl
        | some found =>
            obtain ⟨r, rest⟩ := found
            dsimp only
            rw [List.foldlM_cons, bind_assoc]
            apply bind_congr
            intro store
            exact ih rest store

/-! ## Where a stream ends -/

/-- A stream of whole records is read to its last byte. -/
theorem readStream_stream (records : List Rec) :
    readStream (stream records) = (records.map Rec.kept, none) := by
  unfold readStream
  have hloop : ∀ (records : List Rec) (fuel : Nat), records.length ≤ fuel →
      readRecords fuel (stream records) = (records.map Rec.kept, none) := by
    intro records
    induction records with
    | nil =>
        intro fuel _
        cases fuel <;> rfl
    | cons r records ih =>
        intro fuel hfuel
        obtain ⟨fuel, rfl⟩ := Nat.exists_eq_add_of_le' (Nat.one_le_of_lt hfuel)
        rw [stream, List.flatMap_cons, ← stream, readRecords, if_neg (putRec_ne_nil r _),
          getRec_putRec]
        dsimp only
        rw [ih fuel (by simpa using hfuel)]
        rfl
  exact hloop records _ (length_le_flatMap_putRec records)

/-- The front of a record is none. -/
theorem getRec_take {r : Rec} {n : Nat} (hn : n < (putRec r).length) (rest : List UInt8) :
    getRec ((putRec r ++ rest).take n) = none := by
  have hlen : ((putRec r ++ rest).take n).length = n := by
    rw [List.length_take, List.length_append]
    omega
  rw [getRec, hlen]
  split
  · rfl
  next hheader =>
    -- the length of the reason is there, but not all of the reason
    have hreason : field ((putRec r ++ rest).take n) 30 2 = (reasonBytes r.reason).length := by
      have hle : (reasonBytes r.reason).length ≤ 1024 := List.length_take_le _ _
      have hfront : (((putRec r ++ rest).take n).drop 30).take 2 =
          ((putRec r ++ rest).drop 30).take 2 := by
        rw [List.drop_take, List.take_take, min_eq_left (by rw [headerLen] at hheader; omega)]
      rw [field, hfront, ← field]
      simp (disch := decide) only [putRec, header, valueBytes_eq, List.append_assoc,
        List.cons_append, field_append, field_cons, field_here, Nat.reduceSub]
      exact Nat.mod_eq_of_lt (by omega)
    have hlength : (putRec r).length = headerLen + (reasonBytes r.reason).length := by
      rw [putRec, List.length_append, length_header]
    dsimp only
    rw [hreason, if_pos (by omega)]

/-- A number of bytes after which a record ends or the first one begins. -/
def Boundary (records : List Rec) (n : Nat) : Prop :=
  ∃ front, front <+: records ∧ (stream front).length = n

/-- A stream that ends inside a record is truncated, behind the whole records in front of it. -/
theorem readStream_take (records : List Rec) {n : Nat} (hn : n < (stream records).length)
    (hinside : ¬ Boundary records n) : ∃ front, front <+: records ∧
      readStream ((stream records).take n) = (front.map Rec.kept, some truncatedRecord) := by
  induction records generalizing n with
  | nil => exact absurd hn (Nat.not_lt_zero n)
  | cons r records ih =>
      have hsplit : stream (r :: records) = putRec r ++ stream records := List.flatMap_cons
      have hpos : n ≠ 0 := by
        rintro rfl
        exact hinside ⟨[], List.nil_prefix, rfl⟩
      rw [hsplit] at hn ⊢
      rcases Nat.lt_or_ge n (putRec r).length with hfirst | hbehind
      · -- the stream ends inside the first record
        refine ⟨[], List.nil_prefix, ?_⟩
        have hne : (putRec r ++ stream records).take n ≠ [] := by
          rw [ne_eq, List.take_eq_nil_iff, not_or]
          exact ⟨hpos, putRec_ne_nil r _⟩
        have hlen : ((putRec r ++ stream records).take n).length = n - 1 + 1 := by
          rw [List.length_take]
          omega
        rw [readStream, hlen, readRecords, if_neg hne, getRec_take hfirst]
        rfl
      · -- the first record is read, and the rest ends as far behind it
        obtain ⟨m, rfl⟩ := Nat.exists_eq_add_of_le hbehind
        have hshort : m < (stream records).length := by
          rw [List.length_append] at hn
          omega
        have hrest : ¬ Boundary records m := by
          rintro ⟨front, hfront, rfl⟩
          apply hinside
          refine ⟨r :: front, List.cons_prefix_cons.mpr ⟨rfl, hfront⟩, ?_⟩
          rw [stream, List.flatMap_cons, List.length_append, ← stream]
        obtain ⟨front, hfront, hread⟩ := ih hshort hrest
        refine ⟨r :: front, List.cons_prefix_cons.mpr ⟨rfl, hfront⟩, ?_⟩
        have htake : (putRec r ++ stream records).take ((putRec r).length + m) =
            putRec r ++ (stream records).take m := List.take_length_add_append m
        have hpositive : (putRec r ++ (stream records).take m).length ≠ 0 := by
          rw [ne_eq, List.length_eq_zero_iff]
          exact putRec_ne_nil r _
        obtain ⟨fuel, hfuel⟩ := Nat.exists_eq_succ_of_ne_zero hpositive
        have henough : ((stream records).take m).length ≤ fuel := by
          rw [List.length_append, putRec, List.length_append, length_header, headerLen] at hfuel
          omega
        rw [htake, readStream, hfuel, readRecords, if_neg (putRec_ne_nil r _), getRec_putRec]
        dsimp only
        rw [readRecords_enough henough, hread]
        rfl

/-! ## Reasons at the cut -/

/-- The longest front of a text that has no more than some number of bytes. -/
def fitting : Nat → List Char → List Char
  | _, [] => []
  | n, c :: cs => if c.utf8Size ≤ n then c :: fitting (n - c.utf8Size) cs else []

/-- A reason cut at the end of a character. -/
def cutReason (reason : String) : String := .ofList (fitting 1024 reason.toList)

def Rec.cut (r : Rec) : Rec := { r with reason := cutReason r.reason }

theorem take_encode_cons {c : Char} {n : Nat} (hfits : c.utf8Size ≤ n) (cs : List Char) :
    (Utf8.encode (c :: cs)).take n =
      String.utf8EncodeChar c ++ (Utf8.encode cs).take (n - c.utf8Size) := by
  rw [Utf8.encode_cons, List.take_append, String.length_utf8EncodeChar,
    List.take_of_length_le (by rwa [String.length_utf8EncodeChar])]

/-- The bytes of a text up to a number of them are those of its longest front that fits, and more
exactly if the number falls into a character. -/
theorem take_encode (n : Nat) (cs : List Char) : ∃ rest,
    (Utf8.encode cs).take n = Utf8.encode (fitting n cs) ++ rest ∧
      (rest = [] ↔ (truncate n cs).isSome = true) := by
  induction cs generalizing n with
  | nil => exact ⟨[], List.take_nil, by cases n <;> simp [truncate]⟩
  | cons c cs ih =>
      cases n with
      | zero =>
          have hlarge : ¬ c.utf8Size ≤ 0 := Nat.not_le.mpr c.utf8Size_pos
          refine ⟨[], ?_, by simp [truncate]⟩
          rw [fitting, if_neg hlarge]
          rfl
      | succ n =>
          rw [fitting, truncate]
          split
          next hfits =>
            obtain ⟨rest, htake, hrest⟩ := ih (n + 1 - c.utf8Size)
            refine ⟨rest, ?_, by rw [hrest, Option.isSome_map]⟩
            rw [take_encode_cons hfits, htake, Utf8.encode_cons, List.append_assoc]
          next hlarge =>
            refine ⟨_, (List.nil_append _).symm, ?_⟩
            have hne : (Utf8.encode (c :: cs)).take (n + 1) ≠ [] := by
              rw [ne_eq, List.take_eq_nil_iff, not_or]
              refine ⟨Nat.succ_ne_zero n, fun hnil => ?_⟩
              have hlen := Utf8.length_le_encode (c :: cs)
              rw [hnil] at hlen
              exact absurd hlen (Nat.not_succ_le_zero _)
            exact iff_of_false hne (by simp)

/-- Bytes behind a text decode to something. -/
theorem decodeLossy_append_ne {rest : List UInt8} (hrest : rest ≠ []) (cs : List Char) :
    Utf8.decodeLossy (Utf8.encode cs ++ rest) ≠ cs := by
  have hloop : ∀ (cs : List Char) (n : Nat), cs.length < n →
      Utf8.decodeLossyUpTo n (Utf8.encode cs ++ rest) ≠ cs := by
    intro cs
    induction cs with
    | nil =>
        intro n hn
        obtain ⟨n, rfl⟩ := Nat.exists_eq_add_of_le' (Nat.one_le_of_lt hn)
        obtain ⟨b, bs, rfl⟩ := List.exists_cons_of_ne_nil hrest
        rw [Utf8.encode_nil, List.nil_append, Utf8.decodeLossyUpTo]
        split
        · exact List.cons_ne_nil _ _
        · exact List.cons_ne_nil _ _
    | cons c cs ih =>
        intro n hn
        obtain ⟨n, rfl⟩ := Nat.exists_eq_add_of_le' (Nat.one_le_of_lt hn)
        have hne : Utf8.encode (c :: cs) ++ rest ≠ [] := List.append_ne_nil_of_right_ne_nil _ hrest
        obtain ⟨b, bs, hbytes⟩ := List.exists_cons_of_ne_nil hne
        have hchar : Utf8.decodeChar (b :: bs) = some c := by
          rw [← hbytes, Utf8.encode_cons, List.append_assoc]
          exact Utf8.decodeChar_append c _
        have hdrop : (b :: bs).drop c.utf8Size = Utf8.encode cs ++ rest := by
          rw [← hbytes, Utf8.encode_cons, List.append_assoc,
            List.drop_left' (String.length_utf8EncodeChar c)]
        rw [hbytes, Utf8.decodeLossyUpTo, hchar]
        dsimp only
        rw [hdrop]
        intro heq
        exact ih n (by simpa using hn) (List.cons.inj heq).2
  apply hloop
  have hlen := Utf8.length_le_encode cs
  have hpos := List.length_pos_iff.mpr hrest
  rw [List.length_append]
  omega

/-- A reason comes back cut at the end of a character exactly if no character lies across the
byte where it is cut. -/
theorem keptReason_eq_cutReason_iff (reason : String) :
    keptReason reason = cutReason reason ↔ (truncate 1024 reason.toList).isSome = true := by
  obtain ⟨rest, htake, hrest⟩ := take_encode 1024 reason.toList
  rw [keptReason, cutReason, reasonBytes, Utf8.bytes, htake, ← hrest]
  constructor
  · intro heq
    by_contra hmore
    exact decodeLossy_append_ne hmore _ (String.ofList_injective heq)
  · rintro rfl
    rw [List.append_nil, Utf8.decodeLossy_encode]

theorem kept_eq_cut_iff (r : Rec) :
    r.kept = r.cut ↔ (truncate 1024 r.reason.toList).isSome = true := by
  rw [← keptReason_eq_cutReason_iff]
  constructor
  · exact fun heq => congrArg Rec.reason heq
  · intro heq
    rw [Rec.kept, Rec.cut, heq]

/-! ## Decoding exactly -/

/-- A stream is read as the records it was written from, and a front of it that ends inside a
record as the whole records in front of that one, before the error. -/
structure DecodesExactly (records : List Rec) : Prop where
  whole : readStream (stream records) = (records.map Rec.cut, none)
  torn : ∀ n : Nat, n < (stream records).length → ¬ Boundary records n →
    ∃ front, front <+: records ∧
      readStream ((stream records).take n) = (front.map Rec.cut, some truncatedRecord)

theorem map_kept_eq_iff (records : List Rec) : records.map Rec.kept = records.map Rec.cut ↔
    ∀ r ∈ records, (truncate 1024 r.reason.toList).isSome = true := by
  rw [List.map_inj_left]
  exact forall₂_congr fun r _ => kept_eq_cut_iff r

/-- Records decode exactly if and only if none of their reasons has a character across the byte
where it is cut. -/
theorem decodesExactly_iff (records : List Rec) : DecodesExactly records ↔
    ∀ r ∈ records, (truncate 1024 r.reason.toList).isSome = true := by
  constructor
  · intro h
    have hwhole := h.whole
    rw [readStream_stream] at hwhole
    exact (map_kept_eq_iff records).mp (Prod.mk.inj hwhole).1
  · intro hclean
    constructor
    · rw [readStream_stream, (map_kept_eq_iff records).mpr hclean]
    · intro n hn hinside
      obtain ⟨front, hfront, hread⟩ := readStream_take records hn hinside
      refine ⟨front, hfront, ?_⟩
      rw [hread, (map_kept_eq_iff front).mpr fun r hr => hclean r (hfront.subset hr)]

/-- One byte less than the cut, and a character of two bytes. -/
def splitReason (n : Nat) : String := .ofList (List.replicate n 'a' ++ ['é'])

theorem truncate_splitReason (n : Nat) :
    truncate (n + 1) (List.replicate n 'a' ++ ['é']) = none := by
  induction n with
  | zero => decide
  | succ n ih =>
      have hone : ('a').utf8Size = 1 := by decide
      rw [List.replicate_succ, List.cons_append, truncate, hone, if_pos (by omega),
        Nat.add_sub_cancel, ih]
      rfl

/-- An absent value with such a reason. -/
def splitRecord : Rec := ⟨1000, 2000, 0, 3, 3, 0, none, splitReason 1023⟩

/-- The split character comes back as a replacement. -/
theorem splitRecord_altered : ¬ DecodesExactly [splitRecord] := by
  intro h
  have hwhole := h.whole
  rw [readStream_stream] at hwhole
  have hkept := (map_kept_eq_iff [splitRecord]).mp (Prod.mk.inj hwhole).1 splitRecord
    List.mem_cons_self
  rw [splitRecord, splitReason, String.toList_ofList, truncate_splitReason] at hkept
  cases hkept

end PowerForensics.Archive
