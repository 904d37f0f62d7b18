import PowerForensics.Binary64.Finite
import PowerForensics.Core.JsonDoc

/-! # Pieces of formatted JSON

A piece is the text of a value with finite numbers if a condition on what was formatted
holds, and is refused if not. Objects and arrays of pieces are pieces. The value of a
piece is read again from its canonical text. The bytes of a text are counted from what
it was put together from.
-/

namespace PowerForensics.Json

/-- The text is taken as a value if the condition holds and refused if not. It starts with
neither a blank nor a closing bracket. -/
structure Piece (levels : Nat) (cs : List Char) (P : Prop) : Prop where
  takes : P → ∃ v : JVal, v.Finite ∧ Takes (valueReader levels) cs v
  refuses : ¬ P → Refuses (valueReader levels) cs
  opens : ∃ c tail, cs = c :: tail ∧ isBlank c = false ∧ c ≠ ']'

section Pieces

variable {levels : Nat}

theorem Piece.congr {cs : List Char} {P Q : Prop} (hpiece : Piece levels cs P) (hPQ : P ↔ Q) :
    Piece levels cs Q :=
  ⟨fun h => hpiece.takes (hPQ.mpr h), fun h => hpiece.refuses (mt hPQ.mp h), hpiece.opens⟩

theorem Piece.reads {cs : List Char} {P : Prop} (hpiece : Piece levels cs P) :
    Reads (valueReader levels) cs P where
  takes h := by
    obtain ⟨v, -, hv⟩ := hpiece.takes h
    exact ⟨v, hv⟩
  refuses := hpiece.refuses

theorem Piece.of_takes {c : Char} {tail : List Char} {v : JVal} (hfinite : v.Finite)
    (hblank : isBlank c = false) (hclose : c ≠ ']')
    (htakes : Takes (valueReader levels) (c :: tail) v) : Piece levels (c :: tail) True :=
  ⟨fun _ => ⟨v, hfinite, htakes⟩, fun h => absurd trivial h, c, tail, rfl, hblank, hclose⟩

theorem piece_null : Piece (levels + 1) "null".toList True :=
  .of_takes (v := .null) trivial (by decide) (by decide) takes_null

theorem piece_bool (b : Bool) : Piece (levels + 1) (if b then "true" else "false").toList True := by
  cases b with
  | true => exact .of_takes (v := .bool true) trivial (by decide) (by decide) takes_true
  | false => exact .of_takes (v := .bool false) trivial (by decide) (by decide) takes_false

theorem piece_quoted (s : String) : Piece (levels + 1) (quoted s) True :=
  .of_takes (v := .str s) trivial (by decide) (by decide) (takes_quoted s)

/-- The text of a number starts with a minus sign or a digit. -/
theorem opens_denotes {cs : List Char} {x : Binary64} (hcs : Binary64.Denotes cs x) :
    ∃ c tail, cs = c :: tail ∧ isBlank c = false ∧ c ≠ ']' := by
  obtain ⟨n, hint, rfl, -⟩ := hcs
  obtain ⟨d, ds, hds⟩ := List.exists_cons_of_ne_nil hint
  cases hneg : n.negative with
  | true =>
      exact ⟨'-', n.int ++ (n.fracText ++ n.exponentText), by
        simp [Binary64.Numeral.text, Binary64.Numeral.signText, hneg], by decide, by decide⟩
  | false =>
      have hdigit : d.isDigit := n.int_isDigit d (by simp [hds])
      have hne : ∀ a : Char, a.isDigit = false → d ≠ a := by
        rintro a ha rfl
        rw [hdigit] at ha
        cases ha
      refine ⟨d, ds ++ (n.fracText ++ n.exponentText), ?_, ?_, hne ']' (by decide)⟩
      · simp [Binary64.Numeral.text, Binary64.Numeral.signText, hneg, hds]
      · simp [isBlank, hne ' ' (by decide), hne '\t' (by decide), hne '\n' (by decide),
          hne '\r' (by decide)]

/-- A count of 64 bits. -/
theorem piece_digits {n : Nat} (hn : n < 2 ^ 64) : Piece (levels + 1) (Nat.toDigits 10 n) True :=
  ⟨fun _ => ⟨.num (.ofNat n), Binary64.isFinite_ofNat hn, takes_digits n⟩,
    fun h => absurd trivial h, opens_denotes (Binary64.denotes_toDigits n)⟩

/-- A number with a fixed number of places. -/
theorem piece_fixed (p : Nat) (x : Binary64) :
    Piece (levels + 1) (x.fixed p) (x.isFinite = true) where
  takes hx :=
    ⟨.num (x.toPlaces p), Binary64.isFinite_toPlaces p hx,
      takes_number (Binary64.denotes_fixed p hx)⟩
  refuses := (reads_fixed p x).refuses
  opens := by
    by_cases hx : x.isFinite = true
    · exact opens_denotes (Binary64.denotes_fixed p hx)
    · rcases Binary64.fixed_of_not_finite p (Bool.eq_false_iff.mpr hx) with htext | htext
      · exact ⟨'N', ['a', 'N'], htext, by decide, by decide⟩
      · rw [htext, Binary64.signText]
        split
        · exact ⟨'-', ['i', 'n', 'f'], rfl, by decide, by decide⟩
        · exact ⟨'i', ['n', 'f'], rfl, by decide, by decide⟩

/-- Members that are all read have values with finite numbers. -/
theorem exists_pairs {members : List (String × List Char)} {conditions : List Prop}
    (hmembers : List.Forall₂ (fun m P => Piece levels m.2 P) members conditions)
    (hall : ∀ P ∈ conditions, P) :
    ∃ pairs, PairsFinite pairs ∧ List.Forall₂ (Takes (pairReader (valueReader levels)))
      (members.map fun m => memberText m.1 m.2) pairs := by
  induction hmembers with
  | nil => exact ⟨[], trivial, .nil⟩
  | @cons m P members conditions hm _ ih =>
      obtain ⟨hP, hall⟩ := List.forall_mem_cons.mp hall
      obtain ⟨v, hfinite, hv⟩ := hm.takes hP
      obtain ⟨pairs, hpairs, htakes⟩ := ih hall
      exact ⟨(m.1, v) :: pairs, ⟨hfinite, hpairs⟩, .cons (takes_pair hv m.1) htakes⟩

theorem Piece.object (members : List (String × List Char)) (conditions : List Prop)
    (hmembers : List.Forall₂ (fun m P => Piece levels m.2 P) members conditions) :
    Piece (levels + 1) (objectText members) (∀ P ∈ conditions, P) where
  takes hall := by
    obtain ⟨pairs, hfinite, htakes⟩ := exists_pairs hmembers hall
    exact ⟨.obj pairs, hfinite, takes_obj htakes⟩
  refuses := (Reads.object members conditions (hmembers.imp fun _ _ h => h.reads)).refuses
  opens := ⟨'{', _, rfl, by decide, by decide⟩

/-- Elements that are all read have values with finite numbers. -/
theorem exists_items {texts : List (List Char)} {conditions : List Prop}
    (htexts : List.Forall₂ (Piece levels) texts conditions) (hall : ∀ P ∈ conditions, P) :
    ∃ items, ItemsFinite items ∧ List.Forall₂ (Takes (valueReader levels)) texts items := by
  induction htexts with
  | nil => exact ⟨[], trivial, .nil⟩
  | @cons cs P texts conditions hcs _ ih =>
      obtain ⟨hP, hall⟩ := List.forall_mem_cons.mp hall
      obtain ⟨v, hfinite, hv⟩ := hcs.takes hP
      obtain ⟨items, hitems, htakes⟩ := ih hall
      exact ⟨v :: items, ⟨hfinite, hitems⟩, .cons hv htakes⟩

/-- Each element is taken or refused, and one is refused if not all are read. -/
theorem refused_item {texts : List (List Char)} {conditions : List Prop}
    (htexts : List.Forall₂ (Piece levels) texts conditions) :
    (∀ cs ∈ texts, Refuses (valueReader levels) cs ∨ ∃ v, Takes (valueReader levels) cs v) ∧
      ((¬ ∀ P ∈ conditions, P) → ∃ cs ∈ texts, Refuses (valueReader levels) cs) := by
  induction htexts with
  | nil => exact ⟨by simp, fun hnone => absurd (by simp) hnone⟩
  | @cons cs P texts conditions hcs _ ih =>
      obtain ⟨hcases, hrefused⟩ := ih
      by_cases hP : P
      · refine ⟨List.forall_mem_cons.mpr ⟨Or.inr (hcs.reads.takes hP), hcases⟩, fun hnone => ?_⟩
        obtain ⟨ds, hds, hrefuses⟩ :=
          hrefused fun hall => hnone (List.forall_mem_cons.mpr ⟨hP, hall⟩)
        exact ⟨ds, List.mem_cons_of_mem cs hds, hrefuses⟩
      · exact ⟨List.forall_mem_cons.mpr ⟨Or.inl (hcs.refuses hP), hcases⟩,
          fun _ => ⟨cs, List.mem_cons_self, hcs.refuses hP⟩⟩

/-- An array between brackets. -/
theorem Piece.array {texts : List (List Char)} {conditions : List Prop}
    (htexts : List.Forall₂ (Piece levels) texts conditions) :
    Piece (levels + 1) ('[' :: (commaJoin texts ++ [']'])) (∀ P ∈ conditions, P) where
  takes hall := by
    obtain ⟨items, hfinite, htakes⟩ := exists_items htexts hall
    exact ⟨.arr items, hfinite, takes_arr htakes⟩
  refuses hnone := by
    intro rest
    obtain ⟨hcases, hrefused⟩ := refused_item htexts
    have hitems : readItems (valueReader levels) ']' (commaJoin texts ++ ']' :: rest) = none :=
      Refuses.items hcases (hrefused hnone) _
    obtain ⟨c, after, hopen, hblank, hclose⟩ : ∃ c after,
        commaJoin texts ++ ']' :: rest = c :: after ∧ isBlank c = false ∧ c ≠ ']' := by
      cases htexts with
      | nil => exact absurd (by simp) hnone
      | cons hcs _ =>
          obtain ⟨c, tail, rfl, hblank, hclose⟩ := hcs.opens
          rw [Doc.commaJoin_cons]
          exact ⟨c, _, rfl, hblank, hclose⟩
    rw [hopen] at hitems
    rw [List.cons_append, List.append_assoc, List.singleton_append, hopen, valueReader_run,
      skipBlanks_cons (by decide)]
    simp [readHere, readList, skipBlanks_cons hblank, hclose, hitems]
  opens := ⟨'[', _, rfl, by decide, by decide⟩

end Pieces

/-- What is read of a piece is read again from its canonical text. -/
theorem parse_toJson_of_takes {cs : List Char} {v : JVal} (hfinite : v.Finite)
    (htakes : Takes (valueReader Parser.depthLimit) cs v) :
    parse (String.ofList cs) = .ok v ∧ parse (toJson v) = .ok v := by
  have hrun := htakes [] endsNumber_nil
  rw [List.append_nil] at hrun
  constructor
  · rw [parse_eq_ok_iff, String.toList_ofList, readText, Doc.run_deeper hrun]
    rfl
  · have hprinted := takes_toJson v ((Doc.depth_of_run hrun).trans (Nat.lt_succ_self _))
    rw [v.printed_of_finite hfinite] at hprinted
    exact parse_of_takes hprinted

/-! ## Bytes -/

/-- The bytes of a text. -/
def byteSize (cs : List Char) : Nat := (Utf8.encode cs).length

@[simp] theorem byteSize_nil : byteSize [] = 0 := rfl

@[simp] theorem byteSize_append (cs ds : List Char) :
    byteSize (cs ++ ds) = byteSize cs + byteSize ds := by
  rw [byteSize, Utf8.encode_append, List.length_append]
  rfl

theorem byteSize_cons (c : Char) (cs : List Char) :
    byteSize (c :: cs) = c.utf8Size + byteSize cs := by
  rw [byteSize, Utf8.encode_cons, List.length_append, String.length_utf8EncodeChar]
  rfl

/-- The bytes of a character behind the escapes. -/
def escapedCharSize (c : Char) : Nat :=
  if c ∈ ['"', '\\', '\n', '\r', '\t'] then 2
  else if c.toNat < 0x20 then 6
  else c.utf8Size

/-- The bytes of a string behind the escapes. -/
def escapedSize (s : String) : Nat := s.toList.foldr (fun c n => escapedCharSize c + n) 0

theorem byteSize_escapeChar (c : Char) : byteSize (escapeChar c) = escapedCharSize c := by
  unfold escapeChar escapedCharSize
  split
  next hc => subst hc; decide
  split
  next hc => subst hc; decide
  split
  next hc => subst hc; decide
  split
  next hc => subst hc; decide
  split
  next hc => subst hc; decide
  next hquote hslash hfeed hreturn htab =>
    have hplain : c ∉ ['"', '\\', '\n', '\r', '\t'] := by
      simp [hquote, hslash, hfeed, hreturn, htab]
    rw [if_neg hplain]
    split
    next hcontrol =>
      have hdigit : ∀ n < 16, (hexChar n).utf8Size = 1 := by decide
      have hhex := fun n => hdigit (n % 16) (Nat.mod_lt n (by decide))
      simp only [hex04, byteSize_cons, byteSize_nil, List.cons_append, List.nil_append, hhex]
      decide
    next => rw [byteSize_cons, byteSize_nil, Nat.add_zero]

theorem byteSize_escapeJson (s : String) : byteSize (escapeJson s) = escapedSize s := by
  unfold escapeJson escapedSize
  induction s.toList with
  | nil => rfl
  | cons c cs ih =>
      rw [List.flatMap_cons, byteSize_append, byteSize_escapeChar, ih, List.foldr_cons]

@[simp] theorem byteSize_quoted (s : String) : byteSize (quoted s) = escapedSize s + 2 := by
  have hquote : '"'.utf8Size = 1 := by decide
  rw [quoted, byteSize_cons, byteSize_append, byteSize_escapeJson, byteSize_cons, byteSize_nil,
    hquote]
  omega

/-- The bytes of texts between commas. -/
def joinedSize : List Nat → Nat
  | [] => 0
  | [n] => n
  | n :: m :: rest => n + 1 + joinedSize (m :: rest)

theorem byteSize_commaJoin (texts : List (List Char)) :
    byteSize (commaJoin texts) = joinedSize (texts.map byteSize) := by
  induction texts with
  | nil => rfl
  | cons cs texts ih =>
      cases texts with
      | nil => rfl
      | cons ds texts =>
          have hcomma : ','.utf8Size = 1 := by decide
          rw [commaJoin, byteSize_append, byteSize_cons, ih, hcomma, ← Nat.add_assoc]
          rfl

/-- The bytes of an object with values of these bytes. -/
def objectSize (members : List (String × Nat)) : Nat :=
  joinedSize (members.map fun m => escapedSize m.1 + 3 + m.2) + 2

theorem byteSize_objectText (members : List (String × List Char)) :
    byteSize (objectText members) = objectSize (members.map fun m => (m.1, byteSize m.2)) := by
  have hmember : ∀ m : String × List Char,
      byteSize (memberText m.1 m.2) = escapedSize m.1 + 3 + byteSize m.2 := by
    intro m
    have hcolon : ':'.utf8Size = 1 := by decide
    rw [memberText, ← quoted_eq, byteSize_append, byteSize_quoted, byteSize_cons, hcolon]
    omega
  have hopen : '{'.utf8Size = 1 := by decide
  have hclose : '}'.utf8Size = 1 := by decide
  rw [objectText, byteSize_cons, byteSize_append, byteSize_commaJoin, byteSize_cons, byteSize_nil,
    List.map_map, objectSize, List.map_map, hopen, hclose]
  simp only [Function.comp_def, hmember]
  omega

/-- The bytes of an array with elements of these bytes. -/
def arraySize (items : List Nat) : Nat := joinedSize items + 2

theorem byteSize_array (texts : List (List Char)) :
    byteSize ('[' :: (commaJoin texts ++ [']'])) = arraySize (texts.map byteSize) := by
  have hopen : '['.utf8Size = 1 := by decide
  have hclose : ']'.utf8Size = 1 := by decide
  rw [byteSize_cons, byteSize_append, byteSize_commaJoin, byteSize_cons, byteSize_nil, hopen,
    hclose, arraySize]
  omega

/-- A count of 64 bits has at most twenty digits. -/
theorem byteSize_digits {n : Nat} (hn : n < 2 ^ 64) : byteSize (Nat.toDigits 10 n) ≤ 20 := by
  have hascii : ∀ c ∈ Nat.toDigits 10 n, Utf8.IsAscii c := by
    intro c hc
    have hdigit : c.isDigit = true := Nat.isDigit_of_mem_toDigits (by decide) (by decide) hc
    have hle : c.val ≤ '9'.val := of_decide_eq_true (Bool.and_eq_true_iff.mp hdigit).2
    have hnat : c.val.toNat ≤ 57 := UInt32.le_iff_toNat_le.mp hle
    have hvalue : c.toNat = c.val.toNat := rfl
    change c.toNat < 0x80
    omega
  rw [byteSize, Utf8.length_encode_ascii hascii]
  exact (Nat.length_toDigits_le_iff (by decide) (by decide)).mpr (hn.trans (by decide))

end PowerForensics.Json
