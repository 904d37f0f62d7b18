import PowerForensics.Text.Lines
import PowerForensics.Text.Utf8

/-! # Cutting a text file

A reader that starts at an arbitrary byte of a text may start inside a character. It sees
replacement characters for the rest of that character and the text behind it unchanged. What
stands behind the first line break it sees is a row of whole lines of the text.
-/

namespace Utf8

/-! ## Starting at a byte -/

theorem isContinuation_iff (b : UInt8) :
    isContinuation b = true ↔ 0x80 ≤ b.toNat ∧ b.toNat ≤ 0xBF := by
  simp [isContinuation, UInt8.le_iff_toNat_le]

/-- Six low bits of a character make a continuation byte. -/
theorem isContinuation_lowBits (n : Nat) :
    isContinuation (UInt8.ofNat (n % 0x40 + 0x80)) = true := by
  rw [isContinuation_iff, UInt8.toNat_ofNat']
  omega

/-- The first byte of a character is no continuation byte, all others are. -/
theorem encodeChar_shape (c : Char) : ∃ first rest, String.utf8EncodeChar c = first :: rest ∧
    isContinuation first = false ∧ ∀ b ∈ rest, isContinuation b = true := by
  have hfirst : ∀ n, (n < 0x80 ∨ 0xC0 ≤ n) → n < 256 → isContinuation (UInt8.ofNat n) = false := by
    intro n hn hlt
    rw [Bool.eq_false_iff, Ne, isContinuation_iff, UInt8.toNat_ofNat']
    omega
  unfold String.utf8EncodeChar
  dsimp only
  split
  next hsize =>
    refine ⟨_, _, rfl, hfirst _ (Or.inl (by omega)) (by omega), ?_⟩
    simp
  split
  · refine ⟨_, _, rfl, hfirst _ (Or.inr (by omega)) (by omega), ?_⟩
    simp only [List.forall_mem_cons, isContinuation_lowBits, List.not_mem_nil, true_and,
      false_imp_iff, implies_true]
  split
  · refine ⟨_, _, rfl, hfirst _ (Or.inr (by omega)) (by omega), ?_⟩
    simp only [List.forall_mem_cons, isContinuation_lowBits, List.not_mem_nil, true_and,
      false_imp_iff, implies_true]
  · refine ⟨_, _, rfl, hfirst _ (Or.inr (by omega)) (by omega), ?_⟩
    simp only [List.forall_mem_cons, isContinuation_lowBits, List.not_mem_nil, true_and,
      false_imp_iff, implies_true]

/-- No character starts with a continuation byte. -/
theorem decodeChar_continuation {b : UInt8} (hb : isContinuation b = true) (bs : List UInt8) :
    decodeChar (b :: bs) = none := by
  cases hdecode : decodeChar (b :: bs) with
  | none => rfl
  | some c =>
      have happend := eq_append_of_decodeChar hdecode
      obtain ⟨first, rest, hshape, hfirst, -⟩ := encodeChar_shape c
      rw [hshape, List.cons_append, List.cons.injEq] at happend
      rw [happend.1, hfirst] at hb
      cases hb

theorem brokenLength_continuation {b : UInt8} (hb : isContinuation b = true) (bs : List UInt8) :
    brokenLength (b :: bs) = 1 := by
  rw [isContinuation_iff] at hb
  cases bs with
  | nil => rfl
  | cons second rest =>
      have hfollow : mayFollow b second = false := by
        have hne : ∀ k : UInt8, 0xC0 ≤ k.toNat → b ≠ k := by
          rintro k hk rfl
          omega
        have hlarge : ∀ k : UInt8, 0xC0 ≤ k.toNat → ¬ k ≤ b := by
          intro k hk hle
          have := UInt8.le_iff_toNat_le.mp hle
          omega
        simp [mayFollow, hne 0xE0 (by decide), hlarge 0xE1 (by decide), hne 0xED (by decide),
          hne 0xF0 (by decide), hlarge 0xF1 (by decide), hne 0xF4 (by decide)]
      simp [brokenLength, hfollow]

theorem decodeLossyUpTo_continuation {bs : List UInt8}
    (hbs : ∀ b ∈ bs, isContinuation b = true) (cs : List Char) {n : Nat}
    (hn : bs.length + cs.length ≤ n) :
    decodeLossyUpTo n (bs ++ encode cs) = List.replicate bs.length '\uFFFD' ++ cs := by
  induction bs generalizing n with
  | nil => exact decodeLossyUpTo_eq (decodeUpTo_encode cs (by simpa using hn))
  | cons b bs ih =>
      obtain ⟨n, rfl⟩ : ∃ k, n = k + 1 := ⟨n - 1, by simp only [List.length_cons] at hn; omega⟩
      have hb := hbs b List.mem_cons_self
      rw [List.cons_append, decodeLossyUpTo, decodeChar_continuation hb,
        brokenLength_continuation hb, List.length_cons, List.replicate_succ, List.cons_append]
      dsimp only
      rw [List.drop_one, List.tail_cons, ih (fun x hx => hbs x (List.mem_cons_of_mem b hx))]
      simp only [List.length_cons] at hn
      omega

/-- From any byte of a text on, a lossy reader sees replacements for the rest of a character
and then the text. -/
theorem decodeLossy_drop (cs : List Char) (n : Nat) : ∃ lead rest broken,
    cs = lead ++ rest ∧ decodeLossy ((encode cs).drop n) = List.replicate broken '\uFFFD' ++ rest := by
  induction cs generalizing n with
  | nil => exact ⟨[], [], 0, rfl, by simp [decodeLossy, decodeLossyUpTo]⟩
  | cons c cs ih =>
      cases Nat.lt_or_ge n (String.utf8EncodeChar c).length with
      | inr hbehind =>
          obtain ⟨lead, rest, broken, rfl, hdecode⟩ := ih (n - (String.utf8EncodeChar c).length)
          refine ⟨c :: lead, rest, broken, rfl, ?_⟩
          rw [encode_cons, List.drop_append, List.drop_of_length_le hbehind, List.nil_append,
            hdecode]
      | inl hinside =>
          cases n with
          | zero => exact ⟨[], c :: cs, 0, rfl, decodeLossy_encode _⟩
          | succ n =>
              -- the cut lies inside the character, so only continuation bytes of it are left
              obtain ⟨first, rest, hshape, -, hrest⟩ := encodeChar_shape c
              have hbytes : (encode (c :: cs)).drop (n + 1) = rest.drop n ++ encode cs := by
                rw [encode_cons, List.drop_append_of_le_length (by omega), hshape,
                  List.drop_succ_cons]
              refine ⟨[c], cs, (rest.drop n).length, rfl, ?_⟩
              rw [hbytes]
              apply decodeLossyUpTo_continuation
              · exact fun b hb => hrest b (List.mem_of_mem_drop hb)
              · rw [List.length_append]
                have := length_le_encode cs
                omega

/-! ## Line feeds -/

theorem newline_mem_of_decodeLossyUpTo {n : Nat} {bs : List UInt8}
    (hmem : '\n' ∈ decodeLossyUpTo n bs) : 0x0A ∈ bs := by
  induction n generalizing bs with
  | zero => cases bs <;> cases hmem
  | succ n ih =>
      cases bs with
      | nil => cases hmem
      | cons b bs =>
          rw [decodeLossyUpTo] at hmem
          split at hmem
          next c hc =>
            rcases List.mem_cons.mp hmem with rfl | hrest
            · rw [eq_append_of_decodeChar hc]
              exact List.mem_append_left _ (by decide)
            · exact List.mem_of_mem_drop (ih hrest)
          next hnone =>
            rcases List.mem_cons.mp hmem with heq | hrest
            · cases heq
            · exact List.mem_of_mem_drop (ih hrest)

/-- Bytes without a line feed have none in their text. -/
theorem newline_not_mem_decodeLossy {bs : List UInt8} (hbs : 0x0A ∉ bs) : '\n' ∉ decodeLossy bs :=
  fun hmem => hbs (newline_mem_of_decodeLossyUpTo hmem)

theorem newline_not_mem_encodeChar {c : Char} (hc : c ≠ '\n') : 0x0A ∉ String.utf8EncodeChar c := by
  obtain ⟨first, rest, hshape, -, hrest⟩ := encodeChar_shape c
  have hfirst : first ≠ 0x0A := by
    rintro rfl
    have hhead : (encode [c]).head? = some '\n'.toUInt8 := by
      rw [encode_cons, hshape]
      rfl
    exact hc (Option.some.inj ((head_encode (by decide) [c]).mp hhead))
  rw [hshape, List.mem_cons, not_or]
  exact ⟨hfirst.symm, fun hmem => absurd (hrest _ hmem) (by decide)⟩

theorem brokenLength_bounds (b : UInt8) (bs : List UInt8) :
    0 < brokenLength (b :: bs) ∧ brokenLength (b :: bs) ≤ (b :: bs).length := by
  cases bs with
  | nil => simp [brokenLength]
  | cons second rest =>
      rw [brokenLength]
      split
      · split
        next hthird =>
          cases rest with
          | nil => simp at hthird
          | cons third rest =>
              simp only [List.length_cons]
              omega
        next hthird =>
          simp only [List.length_cons]
          omega
      · simp

/-- No broken sequence goes on with a line feed. -/
theorem brokenLength_newline (b : UInt8) (bs : List UInt8) :
    brokenLength (b :: bs ++ [0x0A]) = brokenLength (b :: bs) := by
  have hcontinue : isContinuation 0x0A = false := by decide
  cases bs with
  | nil =>
      have hfollow : mayFollow b 0x0A = false := by
        simp [mayFollow, hcontinue]
      simp [brokenLength, hfollow]
  | cons second rest =>
      cases rest with
      | nil => simp [brokenLength, hcontinue]
      | cons third rest => rfl

theorem decodeChar_newline (b : UInt8) {bs : List UInt8} (hbs : 0x0A ∉ b :: bs) :
    decodeChar (b :: bs ++ [0x0A]) = decodeChar (b :: bs) := by
  cases hdecode : decodeChar (b :: bs ++ [0x0A]) with
  | some c =>
      have happend := eq_append_of_decodeChar hdecode
      have hne : c ≠ '\n' := by
        rintro rfl
        have hbyte : String.utf8EncodeChar '\n' = [0x0A] := by decide
        rw [hbyte] at happend
        obtain ⟨rfl, -⟩ := List.cons_eq_cons.mp happend
        exact hbs List.mem_cons_self
      -- the character ends before the line feed
      rcases List.eq_nil_or_concat ((b :: bs ++ [0x0A]).drop c.utf8Size) with hnil | ⟨rest, last, hlast⟩
      · rw [hnil, List.append_nil] at happend
        exact absurd (happend ▸ List.mem_append_right _ List.mem_cons_self)
          (newline_not_mem_encodeChar hne)
      · rw [hlast, List.concat_eq_append, ← List.append_assoc] at happend
        obtain ⟨hfront, -⟩ := List.append_inj' happend rfl
        rw [hfront, decodeChar_append]
  | none =>
      cases hshort : decodeChar (b :: bs) with
      | none => rfl
      | some c =>
          rw [eq_append_of_decodeChar hshort, List.append_assoc, decodeChar_append] at hdecode
          cases hdecode

/-- A line feed at the end is decoded by itself, whatever stands before it. -/
theorem decodeLossyUpTo_newline {n m : Nat} {bs : List UInt8} (hbs : 0x0A ∉ bs)
    (hn : bs.length < n) (hm : bs.length ≤ m) :
    decodeLossyUpTo n (bs ++ [0x0A]) = decodeLossyUpTo m bs ++ ['\n'] := by
  induction n generalizing bs m with
  | zero => omega
  | succ n ih =>
      cases bs with
      | nil =>
          have hchar : decodeChar [0x0A] = some '\n' := decodeChar_encode '\n' []
          have hsize : '\n'.utf8Size = 1 := by decide
          simp [decodeLossyUpTo, hchar, hsize]
      | cons b bs =>
          obtain ⟨m, rfl⟩ : ∃ k, m = k + 1 := ⟨m - 1, by simp only [List.length_cons] at hm; omega⟩
          have hdrop : ∀ k, 0 < k → k ≤ (b :: bs).length →
              decodeLossyUpTo n ((b :: bs ++ [0x0A]).drop k) =
                decodeLossyUpTo m ((b :: bs).drop k) ++ ['\n'] := by
            intro k hpos hk
            rw [List.drop_append_of_le_length hk]
            simp only [List.length_cons] at hn hm hk
            apply ih (fun hmem => hbs (List.mem_of_mem_drop hmem))
            · rw [List.length_drop, List.length_cons]
              omega
            · rw [List.length_drop, List.length_cons]
              omega
          rw [List.cons_append, decodeLossyUpTo, decodeLossyUpTo, ← List.cons_append,
            decodeChar_newline b hbs, brokenLength_newline]
          cases hdecode : decodeChar (b :: bs) with
          | some c =>
              have hsize : c.utf8Size ≤ (b :: bs).length := by
                have hlength := congrArg List.length (eq_append_of_decodeChar hdecode)
                rw [List.length_append, String.length_utf8EncodeChar] at hlength
                omega
              dsimp only
              rw [hdrop _ c.utf8Size_pos hsize, List.cons_append]
          | none =>
              obtain ⟨hpos, hle⟩ := brokenLength_bounds b bs
              dsimp only
              rw [hdrop _ hpos hle, List.cons_append]

theorem decodeLossy_newline {bs : List UInt8} (hbs : 0x0A ∉ bs) :
    decodeLossy (bs ++ [0x0A]) = decodeLossy bs ++ ['\n'] :=
  decodeLossyUpTo_newline hbs (by simp) le_rfl

end Utf8

namespace Lines

/-! ## Whole lines -/

/-- What stands behind the first line break. -/
def afterFirst (cs : List Char) : List Char := (cs.dropWhile (· ≠ '\n')).tail

/-- The text up to its last line break. -/
def whole (cs : List Char) : List Char := cs.rdropWhile (· ≠ '\n')

/-- What stands behind the last line break. -/
def unfinished (cs : List Char) : List Char := cs.rtakeWhile (· ≠ '\n')

theorem whole_append_unfinished (cs : List Char) : whole cs ++ unfinished cs = cs :=
  List.rdropWhile_append_rtakeWhile

/-- The whole lines of a text are none, or their last character is a line break. -/
theorem whole_ends (cs : List Char) : whole cs = [] ∨ ∃ init, whole cs = init ++ ['\n'] := by
  rcases List.eq_nil_or_concat (whole cs) with hnil | ⟨init, c, hconcat⟩
  · exact Or.inl hnil
  · rw [List.concat_eq_append] at hconcat
    have hne : whole cs ≠ [] := by simp [hconcat]
    have hlast := List.rdropWhile_last_not (· ≠ '\n') cs hne
    have hlast' : (whole cs).getLast hne = '\n' := by simpa [whole] using hlast
    have hc : c = '\n' := by simpa [hconcat] using hlast'
    exact Or.inr ⟨init, by rw [hconcat, hc]⟩

theorem unfinished_break (xs ys : List Char) : unfinished (xs ++ '\n' :: ys) = unfinished ys := by
  have hreverse : (xs ++ '\n' :: ys).reverse = ys.reverse ++ '\n' :: xs.reverse := by simp
  unfold unfinished List.rtakeWhile
  rw [hreverse, List.takeWhile_append]
  split
  next hall =>
    rw [(List.takeWhile_prefix _).eq_of_length hall]
    simp
  · rfl

/-- Lines that are each ended leave nothing unfinished. -/
theorem unfinished_terminated (ls : List (List Char)) : unfinished (terminated ls) = [] := by
  rcases List.eq_nil_or_concat ls with rfl | ⟨init, last, rfl⟩
  · rfl
  · have hends : terminated (init ++ [last]) = (terminated init ++ last) ++ '\n' :: [] := by
      simp [terminated]
    rw [List.concat_eq_append, hends, unfinished_break]
    rfl

theorem whole_terminated (ls : List (List Char)) : whole (terminated ls) = terminated ls := by
  have happend := whole_append_unfinished (terminated ls)
  rwa [unfinished_terminated, List.append_nil] at happend

theorem lines_whole_append (cs ds : List Char) :
    lines (whole cs ++ ds) = lines (whole cs) ++ lines ds := by
  rcases whole_ends cs with hnil | ⟨init, hinit⟩
  · simp [hnil]
  · rw [hinit, List.append_assoc, List.singleton_append, lines_break]

theorem afterFirst_break {line : List Char} (hline : '\n' ∉ line) (behind : List Char) :
    afterFirst (line ++ '\n' :: behind) = behind := by
  have hdrop : ∀ c ∈ line, decide (c ≠ '\n') = true := by
    intro c hc
    have hne : c ≠ '\n' := fun heq => hline (heq ▸ hc)
    simp [hne]
  unfold afterFirst
  rw [List.dropWhile_append_of_pos hdrop]
  rfl

theorem afterFirst_unbroken {cs : List Char} (hcs : '\n' ∉ cs) : afterFirst cs = [] := by
  have hdrop : cs.dropWhile (· ≠ '\n') = [] := by
    rw [List.dropWhile_eq_nil_iff]
    intro c hc
    have hne : c ≠ '\n' := fun heq => hcs (heq ▸ hc)
    simp [hne]
  rw [afterFirst, hdrop]
  rfl

/-- What a reader finds behind the first line break it sees are lines of the text, up to the
line that is not finished. -/
theorem lines_whole_afterFirst (lead rest : List Char) (broken : Nat) :
    ∃ before, lines (lead ++ rest) =
      before ++ lines (whole (afterFirst (List.replicate broken '\uFFFD' ++ rest))) ++
        lines (unfinished (lead ++ rest)) := by
  have hreplaced : '\n' ∉ List.replicate broken '\uFFFD' := by
    simp [List.mem_replicate]
  by_cases hmem : '\n' ∈ rest
  · obtain ⟨line, behind, rfl, hline⟩ := List.eq_append_cons_of_mem hmem
    have hskip : afterFirst (List.replicate broken '\uFFFD' ++ (line ++ '\n' :: behind)) =
      behind := by
      rw [← List.append_assoc, afterFirst_break]
      exact List.not_mem_append hreplaced hline
    refine ⟨lines (lead ++ line ++ ['\n']), ?_⟩
    rw [hskip, ← List.append_assoc, unfinished_break, lines_break, List.append_assoc _ _ (lines _),
      ← lines_whole_append, whole_append_unfinished]
  · have hskip := afterFirst_unbroken (List.not_mem_append hreplaced hmem)
    refine ⟨lines (whole (lead ++ rest)), ?_⟩
    have hwhole : whole [] = [] := rfl
    rw [hskip, hwhole, lines_nil, List.append_nil, ← lines_whole_append, whole_append_unfinished]

/-! ## Trimmed lines -/

theorem mem_of_mem_trim {c : Char} {cs : List Char} (hc : c ∈ trim cs) : c ∈ cs :=
  (List.dropWhile_suffix _).subset ((List.rdropWhile_prefix _ _).subset hc)

theorem head?_trim {cs : List Char} {c : Char} (hc : (trim cs).head? = some c) :
    isWhitespace c = false := by
  obtain ⟨rest, hrest⟩ := List.rdropWhile_prefix isWhitespace (cs.dropWhile isWhitespace)
  have hhead : (cs.dropWhile isWhitespace).head? = some c := by
    rw [← hrest, List.head?_append]
    change (trim cs).head?.or _ = _
    rw [hc, Option.some_or]
  have hnot := List.head?_dropWhile_not isWhitespace cs
  rwa [hhead] at hnot

theorem trim_trim (cs : List Char) : trim (trim cs) = trim cs :=
  trim_eq_self (fun _ => head?_trim) fun _ => getLast?_trim

/-- Trimming takes only white space away. -/
theorem filter_trim (cs : List Char) :
    (trim cs).filter (!isWhitespace ·) = cs.filter (!isWhitespace ·) := by
  have hfront : (cs.takeWhile isWhitespace).filter (!isWhitespace ·) = [] :=
    List.filter_eq_nil_iff.mpr fun c hc => by simp [List.mem_takeWhile_imp hc]
  have hback : ((cs.dropWhile isWhitespace).rtakeWhile isWhitespace).filter (!isWhitespace ·) =
      [] :=
    List.filter_eq_nil_iff.mpr fun c hc => by simp [List.mem_rtakeWhile_imp hc]
  calc (trim cs).filter (!isWhitespace ·)
      = (trim cs ++ (cs.dropWhile isWhitespace).rtakeWhile isWhitespace).filter
          (!isWhitespace ·) := by rw [List.filter_append, hback, List.append_nil]
    _ = (cs.dropWhile isWhitespace).filter (!isWhitespace ·) := by
          rw [trim, List.rdropWhile_append_rtakeWhile]
    _ = (cs.takeWhile isWhitespace ++ cs.dropWhile isWhitespace).filter (!isWhitespace ·) := by
          rw [List.filter_append, hfront, List.nil_append]
    _ = cs.filter (!isWhitespace ·) := by rw [List.takeWhile_append_dropWhile]

theorem mem_trim {c : Char} {cs : List Char} (hc : c ∈ cs) (hblack : isWhitespace c = false) :
    c ∈ trim cs := by
  have hmem : c ∈ (trim cs).filter (!isWhitespace ·) := by
    rw [filter_trim]
    exact List.mem_filter.mpr ⟨hc, by rw [hblack]; rfl⟩
  exact (List.mem_filter.mp hmem).1

/-- What stands before a text is trimmed away with it exactly when it is white space. -/
theorem trim_append_eq_iff (cs ds : List Char) :
    trim (cs ++ ds) = trim ds ↔ ∀ c ∈ cs, isWhitespace c := by
  constructor
  · intro htrim
    have hfilter : cs.filter (!isWhitespace ·) ++ ds.filter (!isWhitespace ·) =
        ds.filter (!isWhitespace ·) := by
      rw [← List.filter_append, ← filter_trim, htrim, filter_trim]
    have hnone := List.filter_eq_nil_iff.mp (List.append_left_eq_self.mp hfilter)
    intro c hc
    simpa using hnone c hc
  · intro hcs
    rw [trim, trim, List.dropWhile_append_of_pos hcs]

end Lines
