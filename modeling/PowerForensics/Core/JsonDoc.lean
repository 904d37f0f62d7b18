import Mathlib.Data.List.DropRight
import PowerForensics.Core.JsonExtension
import PowerForensics.Core.JsonText

/-! # Documents put together by formatting

A document records how a JSON text is formatted: which values are printed whole, which
strings are put between quotes after escaping, and which numbers are written by a
format. It has a text, and the value that the text is meant to be. The text is read as
that value exactly if no formatted string ends with a quote, every formatted number is
finite and the nesting is within the limit.

A string that ends with a quote loses the wrong characters when its escaped text is
trimmed: the quote that should close it is escaped, and the string runs on into the next
key, behind which no value goes on.
-/

namespace PowerForensics.Json

open Binary64 (Denotes)

/-- The escaped text of a string, taken from its printed form. -/
def esc (s : String) : List Char := ((stringToJson s).toList.drop 1).rdropWhile (· = '"')

/-- How a JSON text is formatted. -/
inductive Doc where
  | null
  | bool (b : Bool)
  /-- An unsigned integer. -/
  | digits (n : Nat)
  /-- A number in its shortest form. -/
  | shown (x : Binary64)
  /-- A number with a fixed number of places. -/
  | fixed (places : Nat) (x : Binary64)
  /-- An escaped string between quotes. -/
  | quoted (s : String)
  /-- A value printed whole. -/
  | printed (v : JVal)
  | arr (items : List Doc)
  | obj (members : List (String × Doc))

namespace Doc

/-! ## Three readings of a document -/

mutual

def text : Doc → List Char
  | null => "null".toList
  | bool b => (if b then "true" else "false").toList
  | digits n => Nat.toDigits 10 n
  | shown x => x.display
  | fixed places x => x.fixed places
  | quoted s => '"' :: (esc s ++ ['"'])
  | printed v => (toJson v).toList
  | arr items => '[' :: (commaJoin (itemTexts items) ++ [']'])
  | obj members => '{' :: (commaJoin (memberTexts members) ++ ['}'])

def itemTexts : List Doc → List (List Char)
  | [] => []
  | d :: rest => d.text :: itemTexts rest

def memberTexts : List (String × Doc) → List (List Char)
  | [] => []
  | (k, d) :: rest => memberText k d.text :: memberTexts rest

end

mutual

/-- The value that the text is meant to be. -/
def value : Doc → JVal
  | null => .null
  | bool b => .bool b
  | digits n => .num (.ofNat n)
  | shown x => .num x
  | fixed places x => .num (x.toPlaces places)
  | quoted s => .str s
  | printed v => v.printed
  | arr items => .arr (itemValues items)
  | obj members => .obj (memberValues members)

def itemValues : List Doc → List JVal
  | [] => []
  | d :: rest => d.value :: itemValues rest

def memberValues : List (String × Doc) → List (String × JVal)
  | [] => []
  | (k, d) :: rest => (k, d.value) :: memberValues rest

end

theorem itemValues_eq (items : List Doc) : itemValues items = items.map value := by
  induction items with
  | nil => rfl
  | cons d items ih => rw [itemValues, List.map_cons, ih]

theorem memberValues_eq (members : List (String × Doc)) :
    memberValues members = members.map fun m => (m.1, m.2.value) := by
  induction members with
  | nil => rfl
  | cons m members ih => rw [memberValues, List.map_cons, ih]

/-- The last character is no quote. -/
def EndsPlain (s : String) : Prop := s.toList.getLast? ≠ some '"'

instance (s : String) : Decidable (EndsPlain s) := inferInstanceAs (Decidable (_ ≠ _))

mutual

/-- The text is read as the value by a reader with so many levels left. -/
def Reads (levels : Nat) : Doc → Prop
  | shown x => 0 < levels ∧ x.isFinite
  | fixed _ x => 0 < levels ∧ x.isFinite
  | quoted s => 0 < levels ∧ EndsPlain s
  | printed v => v.depth < levels
  | arr items => 0 < levels ∧ ItemsRead (levels - 1) items
  | obj members => 0 < levels ∧ MembersRead (levels - 1) members
  | _ => 0 < levels

def ItemsRead (levels : Nat) : List Doc → Prop
  | [] => True
  | d :: rest => Reads levels d ∧ ItemsRead levels rest

def MembersRead (levels : Nat) : List (String × Doc) → Prop
  | [] => True
  | (_, d) :: rest => Reads levels d ∧ MembersRead levels rest

end

/-! ## Documents that are read -/

theorem escaped_getLast {s : String} (hs : EndsPlain s) :
    (s.toList.flatMap escapeChar).getLast? ≠ some '"' := by
  rcases List.eq_nil_or_concat' s.toList with hnil | ⟨cs, c, hc⟩
  · simp [hnil]
  · have hplain : c ≠ '"' := by
      rintro rfl
      exact hs (by rw [hc, List.getLast?_concat])
    have hlast : (escapeChar c).getLast? ≠ some '"' := by
      unfold escapeChar
      rw [if_neg hplain]
      split
      · decide
      split
      · decide
      split
      · decide
      split
      · decide
      split
      next hcontrol =>
        have hdigit : ∀ n < 16, hexChar n ≠ '"' := by decide
        simpa [hex04] using hdigit _ (Nat.mod_lt _ (by decide))
      · simpa using hplain
    rw [hc, List.flatMap_append, List.flatMap_singleton, List.getLast?_append]
    obtain ⟨d, hd⟩ : ∃ d, (escapeChar c).getLast? = some d :=
      ⟨_, List.getLast?_eq_some_getLast (escapeChar_ne_nil c)⟩
    rw [hd] at hlast ⊢
    exact hlast

/-- Trimming the printed form takes off the closing quote alone, unless the string ends
with a quote itself. -/
theorem esc_of_plain {s : String} (hs : EndsPlain s) : esc s = s.toList.flatMap escapeChar := by
  have hlast := escaped_getLast hs
  have hprinted : (stringToJson s).toList.drop 1 = s.toList.flatMap escapeChar ++ ['"'] := by
    simp [stringToJson]
  rw [esc, hprinted, List.rdropWhile_concat_pos _ _ _ (by simp), List.rdropWhile_eq_self_iff]
  intro hne hquote
  exact hlast (by
    rw [List.getLast?_eq_some_getLast hne]
    simpa using hquote)

/-- A string that ends with a quote keeps the backslash of its last escape. -/
theorem esc_of_quote {s : String} {cs : List Char} (hs : s.toList = cs ++ ['"']) :
    esc s = cs.flatMap escapeChar ++ ['\\'] := by
  have hprinted : (stringToJson s).toList.drop 1 =
      cs.flatMap escapeChar ++ ['\\'] ++ ['"'] ++ ['"'] := by
    simp [stringToJson, hs, escapeChar]
  rw [esc, hprinted, List.rdropWhile_concat_pos _ _ _ (by simp),
    List.rdropWhile_concat_pos _ _ _ (by simp), List.rdropWhile_concat_neg _ _ _ (by simp)]

theorem takes_quoted {levels : Nat} {s : String} (hs : EndsPlain s) :
    Takes (valueReader (levels + 1)) (quoted s).text (.str s) := by
  have htext : (quoted s).text = (stringToJson s).toList := by
    rw [text, esc_of_plain hs]
    simp [stringToJson]
  rw [htext]
  exact takes_string s

mutual

/-- The text of a document is taken as its value. -/
theorem takes_text : (d : Doc) → {levels : Nat} → d.Reads levels →
    Takes (valueReader levels) d.text d.value
  | null, _ + 1, _ => takes_null
  | bool true, _ + 1, _ => takes_true
  | bool false, _ + 1, _ => takes_false
  | digits n, _ + 1, _ => takes_digits n
  | shown _, _ + 1, hreads => takes_number (Binary64.denotes_display hreads.2)
  | fixed places _, _ + 1, hreads => takes_number (Binary64.denotes_fixed places hreads.2)
  | quoted _, _ + 1, hreads => takes_quoted hreads.2
  | printed v, _, hreads => takes_toJson v hreads
  | arr items, _ + 1, hreads => takes_arr (takes_itemTexts items hreads.2)
  | obj members, _ + 1, hreads => takes_obj (takes_memberTexts members hreads.2)

theorem takes_itemTexts : (items : List Doc) → {levels : Nat} → ItemsRead levels items →
    List.Forall₂ (Takes (valueReader levels)) (itemTexts items) (itemValues items)
  | [], _, _ => .nil
  | d :: rest, _, hreads => .cons (takes_text d hreads.1) (takes_itemTexts rest hreads.2)

theorem takes_memberTexts : (members : List (String × Doc)) → {levels : Nat} →
    MembersRead levels members →
    List.Forall₂ (Takes (pairReader (valueReader levels))) (memberTexts members)
      (memberValues members)
  | [], _, _ => .nil
  | (k, d) :: rest, _, hreads =>
      .cons (takes_pair (takes_text d hreads.1) k) (takes_memberTexts rest hreads.2)

end

/-! ## Readers that go on past the end -/

/-- No value goes on with this character. -/
def spoils (c : Char) : Bool := c ∉ [',', '}', ']'] && !isBlank c

/-- The reader fails, or it has stopped before a character that no value goes on with. -/
def Stuck {α : Type} (reader : Reader α) (cs : List Char) : Prop :=
  ∀ a after, reader.run cs = some (a, after) → ∃ c tail, after = c :: tail ∧ spoils c = true

/-- A string that runs on into this text ends before a character that spoils it. -/
def spoilt : List Char → Bool
  | [] => true
  | '"' :: c :: _ => spoils c
  | c :: cs => c ∈ [',', '}', ']', '{', '['] && spoilt cs

theorem spoilt_cons {c : Char} (hc : c ∈ [',', '}', ']', '{', '[']) (cs : List Char) :
    spoilt (c :: cs) = spoilt cs := by
  have hquote : c ≠ '"' := by
    rintro rfl
    simp at hc
  cases cs with
  | nil => simp [spoilt, hc]
  | cons d cs => rw [spoilt] <;> simp_all

theorem spoilt_ends {rest : List Char} (hrest : spoilt rest = true) : EndsNumber rest := by
  cases rest with
  | nil => exact endsNumber_nil
  | cons c cs =>
      by_cases hquote : c = '"'
      · subst hquote
        exact endsNumber_cons (by decide) (by decide) cs
      · have hc : c ∈ [',', '}', ']', '{', '['] := by
          cases cs <;> simp_all [spoilt]
        simp only [List.mem_cons, List.not_mem_nil, or_false] at hc
        rcases hc with rfl | rfl | rfl | rfl | rfl <;>
          exact endsNumber_cons (by decide) (by decide) cs

theorem readBody_spoilt {rest : List Char} (hrest : spoilt rest = true) :
    ∀ s after, readBody rest = some (s, after) → ∃ c tail, after = c :: tail ∧ spoils c = true := by
  induction rest with
  | nil => simp
  | cons c cs ih =>
      intro s after hread
      by_cases hquote : c = '"'
      · subst hquote
        obtain ⟨-, rfl⟩ := Prod.mk.inj (Option.some.inj (readBody_quote cs ▸ hread))
        cases cs with
        | nil => simp [spoilt] at hrest
        | cons d cs => exact ⟨d, cs, rfl, hrest⟩
      · have hc : c ∈ [',', '}', ']', '{', '['] := by
          cases cs <;> simp_all [spoilt]
        have hraw : readItem (c :: cs) = some (c, cs) := by
          simp only [List.mem_cons, List.not_mem_nil, or_false] at hc
          rcases hc with rfl | rfl | rfl | rfl | rfl <;> rw [readItem_raw (by decide)] <;> rfl
        rw [spoilt_cons hc] at hrest
        rw [readBody_item hquote, hraw, Option.bind_some] at hread
        simp only [Option.map_eq_some_iff, Prod.mk.injEq] at hread
        obtain ⟨⟨ds, last⟩, hbody, -, rfl⟩ := hread
        exact ih hrest ds _ hbody

theorem stuck_zero (cs : List Char) : Stuck (valueReader 0) cs := by
  intro a after hrun
  cases hrun

theorem Stuck.of_refuses {α : Type} {reader : Reader α} {cs rest : List Char}
    (hrefuses : Refuses reader cs) : Stuck reader (cs ++ rest) := by
  intro a after hrun
  rw [hrefuses rest] at hrun
  cases hrun

theorem stuck_quoted {levels : Nat} {s : String} (hs : ¬ EndsPlain s) {rest : List Char}
    (hrest : spoilt rest = true) : Stuck (valueReader levels) ((quoted s).text ++ rest) := by
  cases levels with
  | zero => exact stuck_zero _
  | succ levels =>
      obtain ⟨cs, hcs⟩ : ∃ cs, s.toList = cs ++ ['"'] :=
        List.getLast?_eq_some_iff.mp (not_not.mp hs)
      have htext : (quoted s).text ++ rest = '"' :: ((cs ++ ['"']).flatMap escapeChar ++ rest) := by
        simp [text, esc_of_quote hcs, escapeChar]
      intro v after hrun
      rw [htext, valueReader_run, skipBlanks_cons (by decide)] at hrun
      simp only [readHere, readBody_flatMap, Option.map_map] at hrun
      rw [if_neg (by decide), if_neg (by decide), if_true] at hrun
      simp only [Option.map_eq_some_iff, Prod.mk.injEq, Function.comp_apply] at hrun
      obtain ⟨⟨ds, last⟩, hbody, -, rfl⟩ := hrun
      exact readBody_spoilt hrest ds _ hbody

/-! ## How deep a reader reads -/

section Depth

variable {α : Type} {element deeper : Reader α} {close : Char}

theorem forall_readItems {P : α → Prop}
    (helement : ∀ cs a rest, element.run cs = some (a, rest) → P a) {cs rest : List Char}
    {as : List α} (hread : readItems element close cs = some (as, rest)) : ∀ a ∈ as, P a := by
  fun_induction readItems element close cs generalizing as rest with
  | case1 => cases hread
  | case2 => cases hread
  | case3 cs a mid hitem tail hskip ih =>
      simp only [Option.map_eq_some_iff, Prod.mk.injEq] at hread
      obtain ⟨⟨bs, last⟩, hlast, rfl, rfl⟩ := hread
      exact List.forall_mem_cons.mpr ⟨helement _ _ _ hitem, ih hlast⟩
  | case4 cs a mid hitem tail hskip hcomma =>
      obtain ⟨rfl, -⟩ := Prod.mk.inj (Option.some.inj hread)
      simpa using helement _ _ _ hitem
  | case5 => cases hread

theorem forall_readList {P : α → Prop}
    (helement : ∀ cs a rest, element.run cs = some (a, rest) → P a) {cs rest : List Char}
    {as : List α} (hread : readList element close cs = some (as, rest)) : ∀ a ∈ as, P a := by
  unfold readList at hread
  split at hread
  · obtain ⟨rfl, -⟩ := Prod.mk.inj (Option.some.inj hread)
    simp
  · exact forall_readItems helement hread

/-- What a reader reads, a reader with more to read it by reads too. -/
theorem readItems_deeper (hdeeper : ∀ cs x, element.run cs = some x → deeper.run cs = some x)
    {cs : List Char} {x : List α × List Char} (hread : readItems element close cs = some x) :
    readItems deeper close cs = some x := by
  fun_induction readItems element close cs generalizing x with
  | case1 => cases hread
  | case2 => cases hread
  | case3 cs a mid hitem tail hskip ih =>
      simp only [Option.map_eq_some_iff] at hread
      obtain ⟨y, hlast, rfl⟩ := hread
      rw [readItems_eq, hdeeper _ _ hitem, Option.bind_some]
      simp only [hskip, if_true, ih hlast, Option.map_some]
  | case4 cs a mid hitem tail hskip hcomma =>
      rw [readItems_eq, hdeeper _ _ hitem, Option.bind_some]
      simpa only [hskip, hcomma, if_false, if_true] using hread
  | case5 => cases hread

theorem readList_deeper (hdeeper : ∀ cs x, element.run cs = some x → deeper.run cs = some x)
    {cs : List Char} {x : List α × List Char} (hread : readList element close cs = some x) :
    readList deeper close cs = some x := by
  unfold readList at hread ⊢
  split at hread
  next hclose => rwa [if_pos hclose]
  next hclose =>
    rw [if_neg hclose]
    exact readItems_deeper hdeeper hread

end Depth

theorem itemsDepth_le {items : List JVal} {levels : Nat} :
    itemsDepth items ≤ levels ↔ ∀ v ∈ items, v.depth < levels := by
  induction items with
  | nil => simp [itemsDepth]
  | cons v items ih =>
      rw [itemsDepth, List.forall_mem_cons, ← ih]
      omega

theorem pairsDepth_le {pairs : List (String × JVal)} {levels : Nat} :
    pairsDepth pairs ≤ levels ↔ ∀ kv ∈ pairs, kv.2.depth < levels := by
  induction pairs with
  | nil => simp [pairsDepth]
  | cons kv pairs ih =>
      rw [pairsDepth, List.forall_mem_cons, ← ih]
      omega

theorem readPair_value {value : Reader JVal} {cs rest : List Char} {kv : String × JVal}
    (hread : (pairReader value).run cs = some (kv, rest)) :
    ∃ ds, value.run ds = some (kv.2, rest) := by
  simp only [pairReader, readPair, Option.bind_eq_some_iff] at hread
  obtain ⟨⟨key, mid⟩, -, hread⟩ := hread
  dsimp only at hread
  split at hread
  · simp only [Option.map_eq_some_iff, Prod.mk.injEq] at hread
    obtain ⟨⟨v, last⟩, hrun, rfl, rfl⟩ := hread
    exact ⟨_, hrun⟩
  · cases hread

theorem readWord_value {word : String} {v w : JVal} {cs rest : List Char}
    (hread : readWord word v cs = some (w, rest)) : w = v := by
  unfold readWord at hread
  split at hread
  · exact (Prod.mk.inj (Option.some.inj hread)).1.symm
  · cases hread

theorem readNumber_value {cs rest : List Char} {v : JVal}
    (hread : readNumber cs = some (v, rest)) : ∃ x, v = .num x := by
  simp only [readNumber, Option.map_eq_some_iff, Prod.mk.injEq] at hread
  obtain ⟨x, -, rfl, -⟩ := hread
  exact ⟨x, rfl⟩

/-- A value that is read is nested no deeper than the reader goes. -/
theorem depth_of_run {levels : Nat} {cs rest : List Char} {v : JVal}
    (hrun : (valueReader levels).run cs = some (v, rest)) : v.depth < levels := by
  induction levels generalizing cs rest v with
  | zero => cases hrun
  | succ levels ih =>
      rw [valueReader_run] at hrun
      cases hcs : skipBlanks cs with
      | nil => simp [hcs, readHere] at hrun
      | cons c tail =>
          rw [hcs] at hrun
          simp only [readHere] at hrun
          split at hrun
          · simp only [Option.map_eq_some_iff, Prod.mk.injEq] at hrun
            obtain ⟨x, hlist, rfl, -⟩ := hrun
            rw [JVal.depth, Nat.lt_succ_iff, pairsDepth_le]
            refine forall_readList (fun ds kv after hpair => ?_) hlist
            obtain ⟨es, hvalue⟩ := readPair_value hpair
            exact ih hvalue
          split at hrun
          · simp only [Option.map_eq_some_iff, Prod.mk.injEq] at hrun
            obtain ⟨x, hlist, rfl, -⟩ := hrun
            rw [JVal.depth, Nat.lt_succ_iff, itemsDepth_le]
            exact forall_readList (fun ds a after hitem => ih hitem) hlist
          -- Whatever is no container has no depth.
          have hflat : v.depth = 0 := by
            split at hrun
            · simp only [Option.map_eq_some_iff, Prod.mk.injEq] at hrun
              obtain ⟨x, -, rfl, -⟩ := hrun
              rfl
            split at hrun
            · rw [readWord_value hrun, JVal.depth] <;> simp
            split at hrun
            · rw [readWord_value hrun, JVal.depth] <;> simp
            split at hrun
            · rw [readWord_value hrun, JVal.depth] <;> simp
            split at hrun
            · obtain ⟨x, rfl⟩ := readNumber_value hrun
              rfl
            · cases hrun
          omega

/-- A reader that goes deeper reads the same. -/
theorem run_deeper {levels : Nat} {cs : List Char} {x : JVal × List Char}
    (hrun : (valueReader levels).run cs = some x) : (valueReader (levels + 1)).run cs = some x := by
  induction levels generalizing cs x with
  | zero => cases hrun
  | succ levels ih =>
      rw [valueReader_run] at hrun ⊢
      have hpairs : ∀ ds kv, (pairReader (valueReader levels)).run ds = some kv →
          (pairReader (valueReader (levels + 1))).run ds = some kv := by
        intro ds kv hpair
        simp only [pairReader, readPair, Option.bind_eq_some_iff] at hpair ⊢
        obtain ⟨y, hkey, hpair⟩ := hpair
        refine ⟨y, hkey, ?_⟩
        split at hpair
        next hcolon =>
          rw [if_pos hcolon]
          simp only [Option.map_eq_some_iff] at hpair ⊢
          obtain ⟨z, hvalue, rfl⟩ := hpair
          exact ⟨z, ih hvalue, rfl⟩
        · cases hpair
      cases hcs : skipBlanks cs with
      | nil => simp [hcs, readHere] at hrun
      | cons c tail =>
          rw [hcs] at hrun
          simp only [readHere] at hrun ⊢
          split at hrun
          next hobject =>
            simp only [Option.map_eq_some_iff] at hrun
            obtain ⟨y, hlist, rfl⟩ := hrun
            rw [if_pos hobject, readList_deeper hpairs hlist]
            rfl
          next hobject =>
            rw [if_neg hobject]
            split at hrun
            next harray =>
              simp only [Option.map_eq_some_iff] at hrun
              obtain ⟨y, hlist, rfl⟩ := hrun
              rw [if_pos harray, readList_deeper (fun _ _ => ih) hlist]
              rfl
            next harray =>
              rw [if_neg harray]
              exact hrun

theorem run_deeper_le {levels more : Nat} (hle : levels ≤ more) {cs : List Char}
    {x : JVal × List Char} (hrun : (valueReader levels).run cs = some x) :
    (valueReader more).run cs = some x := by
  induction hle with
  | refl => exact hrun
  | step _ ih => exact run_deeper ih

mutual

theorem depth_printed : (v : JVal) → v.printed.depth = v.depth
  | .num n => by
      rw [JVal.printed]
      split <;> rfl
  | .arr items => itemsDepth_printed items
  | .obj pairs => pairsDepth_printed pairs
  | .null => rfl
  | .bool _ => rfl
  | .str _ => rfl

theorem itemsDepth_printed : (items : List JVal) →
    itemsDepth (printedItems items) = itemsDepth items
  | [] => rfl
  | v :: rest => by
      rw [printedItems, itemsDepth, itemsDepth, depth_printed v, itemsDepth_printed rest]

theorem pairsDepth_printed : (pairs : List (String × JVal)) →
    pairsDepth (printedPairs pairs) = pairsDepth pairs
  | [] => rfl
  | (k, v) :: rest => by
      rw [printedPairs, pairsDepth, pairsDepth, depth_printed v, pairsDepth_printed rest]

end

/-- A value that is nested too deep is not read. -/
theorem stuck_printed {levels : Nat} {v : JVal} (hdepth : ¬ v.depth < levels) {rest : List Char}
    (hrest : EndsNumber rest) : Stuck (valueReader levels) ((toJson v).toList ++ rest) := by
  intro a after hrun
  have hdeep := run_deeper_le (show levels ≤ v.depth + 1 by omega) hrun
  rw [takes_toJson v (Nat.lt_succ_self _) rest hrest] at hdeep
  obtain ⟨rfl, rfl⟩ := Prod.mk.inj (Option.some.inj hdeep)
  have hshallow := depth_of_run hrun
  rw [depth_printed] at hshallow
  exact absurd hshallow hdepth

/-! ## Documents that are not read -/

theorem refuses_display {levels : Nat} {x : Binary64} (hx : x.isFinite = false) :
    Refuses (valueReader levels) x.display := by
  rw [Binary64.display_of_not_finite hx]
  exact refuses_fixed 0 hx

/-- A key that starts with a letter. -/
def PlainKey (k : String) : Prop := ∃ c cs, k.toList = c :: cs ∧ c.isLower = true

/-- An object that starts with such a key. -/
def OpensPlain : Doc → Prop
  | obj ((k, _) :: _) => PlainKey k
  | _ => False

mutual

/-- All keys start with a letter, and arrays have only objects with keys in them. -/
def Keyed : Doc → Prop
  | arr items => ItemsKeyed items
  | obj members => MembersKeyed members
  | _ => True

def ItemsKeyed : List Doc → Prop
  | [] => True
  | d :: rest => OpensPlain d ∧ Keyed d ∧ ItemsKeyed rest

def MembersKeyed : List (String × Doc) → Prop
  | [] => True
  | (k, d) :: rest => PlainKey k ∧ Keyed d ∧ MembersKeyed rest

end

theorem spoilt_key {k : String} (hk : PlainKey k) (value rest : List Char) :
    spoilt (memberText k value ++ rest) = true := by
  obtain ⟨c, cs, hcs, hlower⟩ := hk
  have hne : ∀ d : Char, d.isLower = false → c ≠ d := by
    rintro d hd rfl
    rw [hlower] at hd
    cases hd
  have hescape : escapeChar c = [c] := by
    have hcontrol : ¬ c.toNat < 0x20 := by
      intro hlt
      have hfrom : 'a'.val ≤ c.val := of_decide_eq_true ((Bool.and_eq_true_iff).mp hlower).1
      have : 97 ≤ c.val.toNat := UInt32.le_iff_toNat_le.mp hfrom
      have : c.val.toNat < 0x20 := hlt
      omega
    rw [escapeChar, if_neg (hne '"' rfl), if_neg (hne '\\' rfl), if_neg (hne '\n' rfl),
      if_neg (hne '\r' rfl), if_neg (hne '\t' rfl), if_neg hcontrol]
  obtain ⟨tail, htail⟩ : ∃ tail, memberText k value ++ rest = '"' :: c :: tail := by
    refine ⟨cs.flatMap escapeChar ++ '"' :: ':' :: (value ++ rest), ?_⟩
    simp [memberText, stringToJson, hcs, hescape]
  rw [htail, spoilt]
  simp [spoils, isBlank, hne ',' rfl, hne '}' rfl, hne ']' rfl, hne ' ' rfl, hne '\t' rfl,
    hne '\n' rfl, hne '\r' rfl]

theorem readItems_stuck {α : Type} {element : Reader α} {close : Char}
    (hclose : spoils close = false) {cs : List Char} (hstuck : Stuck element cs) :
    readItems element close cs = none := by
  rw [readItems_eq]
  cases hrun : element.run cs with
  | none => rfl
  | some x =>
      obtain ⟨c, tail, hafter, hc⟩ := hstuck x.1 x.2 hrun
      have hparts := hc
      simp only [spoils, Bool.and_eq_true, decide_eq_true_eq, List.mem_cons, List.not_mem_nil,
        or_false, not_or, Bool.not_eq_true'] at hparts
      have hne : c ≠ close := by
        rintro rfl
        rw [hclose] at hc
        cases hc
      simp only [Option.bind_some, hafter, skipBlanks_cons hparts.2, hparts.1.1, if_false, hne]

theorem Stuck.member {levels : Nat} {cs rest : List Char}
    (hstuck : Stuck (valueReader levels) (cs ++ rest)) (key : String) :
    Stuck (pairReader (valueReader levels)) (memberText key cs ++ rest) := by
  intro kv after hrun
  have hkey := readString_toJson key (':' :: (cs ++ rest))
  have hblank : skipBlanks ((stringToJson key).toList ++ ':' :: (cs ++ rest)) =
      (stringToJson key).toList ++ ':' :: (cs ++ rest) := by
    simp only [stringToJson, String.toList_append]
    exact skipBlanks_cons (by decide) _
  simp only [pairReader, readPair, memberText, List.append_assoc, List.cons_append, hblank, hkey,
    Option.bind_some, skipBlanks_cons (show isBlank ':' = false by decide), List.head?_cons,
    if_true, List.tail_cons, Option.map_eq_some_iff, Prod.mk.injEq] at hrun
  obtain ⟨⟨v, last⟩, hvalue, -, rfl⟩ := hrun
  exact hstuck v _ hvalue

/-- What follows the first of several texts. -/
def behind (texts : List (List Char)) (tail : List Char) : List Char :=
  match texts with
  | [] => tail
  | _ :: _ => ',' :: (commaJoin texts ++ tail)

theorem commaJoin_cons (text : List Char) (texts : List (List Char)) (tail : List Char) :
    commaJoin (text :: texts) ++ tail = text ++ behind texts tail := by
  cases texts with
  | nil => rfl
  | cons next texts => simp [commaJoin, behind]

theorem spoilt_members {members : List (String × Doc)} (hkeyed : MembersKeyed members)
    {rest : List Char} (hrest : spoilt rest = true) :
    spoilt (behind (memberTexts members) ('}' :: rest)) = true := by
  cases members with
  | nil => rwa [memberTexts, behind, spoilt_cons (by decide)]
  | cons m members =>
      rw [memberTexts, behind, spoilt_cons (by decide), commaJoin_cons]
      exact spoilt_key hkeyed.1 _ _

theorem text_of_opens {d : Doc} (hopens : d.OpensPlain) :
    ∃ k value tail, PlainKey k ∧ d.text = '{' :: (memberText k value ++ tail) := by
  match d, hopens with
  | obj ((k, v) :: members), hk =>
      exact ⟨k, v.text, behind (memberTexts members) ['}'], hk, by
        rw [text, memberTexts, commaJoin_cons]⟩

theorem spoilt_items {items : List Doc} (hkeyed : ItemsKeyed items) {rest : List Char}
    (hrest : spoilt rest = true) :
    spoilt (behind (itemTexts items) (']' :: rest)) = true := by
  cases items with
  | nil => rwa [itemTexts, behind, spoilt_cons (by decide)]
  | cons d items =>
      obtain ⟨k, value, tail, hk, htext⟩ := text_of_opens hkeyed.1
      rw [itemTexts, behind, spoilt_cons (by decide), commaJoin_cons, htext, List.cons_append,
        spoilt_cons (by decide), List.append_assoc]
      exact spoilt_key hk _ _

mutual

/-- Where a document is not read, its text is not taken for anything either. -/
theorem stuck_text : (d : Doc) → {levels : Nat} → d.Keyed → ¬ d.Reads levels →
    {rest : List Char} → spoilt rest = true → Stuck (valueReader levels) (d.text ++ rest)
  | _, 0, _, _, _, _ => stuck_zero _
  | null, _ + 1, _, hreads, _, _ => absurd (Nat.succ_pos _) hreads
  | bool _, _ + 1, _, hreads, _, _ => absurd (Nat.succ_pos _) hreads
  | digits _, _ + 1, _, hreads, _, _ => absurd (Nat.succ_pos _) hreads
  | shown x, _ + 1, _, hreads, _, _ =>
      .of_refuses (refuses_display (Bool.eq_false_iff.mpr fun h => hreads ⟨Nat.succ_pos _, h⟩))
  | fixed places x, _ + 1, _, hreads, _, _ =>
      .of_refuses
        (refuses_fixed places (Bool.eq_false_iff.mpr fun h => hreads ⟨Nat.succ_pos _, h⟩))
  | quoted _, _ + 1, _, hreads, _, hrest =>
      stuck_quoted (fun h => hreads ⟨Nat.succ_pos _, h⟩) hrest
  | printed _, _ + 1, _, hreads, _, hrest => stuck_printed hreads (spoilt_ends hrest)
  | arr items, levels + 1, hkeyed, hreads, rest, hrest => by
      -- an array that is taken has its items taken
      have hitems := stuck_itemTexts items hkeyed (fun h => hreads ⟨Nat.succ_pos _, h⟩) hrest
      intro v after hrun
      cases items with
      | nil => exact absurd ⟨Nat.succ_pos _, trivial⟩ hreads
      | cons d items =>
          obtain ⟨k, value, tail, -, htext⟩ := text_of_opens hkeyed.1
          obtain ⟨more, hmore⟩ : ∃ more,
              commaJoin (itemTexts (d :: items)) ++ ']' :: rest = '{' :: more := by
            rw [itemTexts, commaJoin_cons, htext]
            exact ⟨_, rfl⟩
          rw [text, List.cons_append, List.append_assoc, List.singleton_append, hmore,
            valueReader_run, skipBlanks_cons (by decide)] at hrun
          rw [hmore, Nat.add_sub_cancel] at hitems
          simp [readHere, readList, skipBlanks_cons (show isBlank '{' = false by decide),
            hitems] at hrun
  | obj members, levels + 1, hkeyed, hreads, rest, hrest => by
      have hmembers := stuck_memberTexts members hkeyed
        (fun h => hreads ⟨Nat.succ_pos _, h⟩) hrest
      intro v after hrun
      cases members with
      | nil => exact absurd ⟨Nat.succ_pos _, trivial⟩ hreads
      | cons m members =>
          obtain ⟨more, hmore⟩ : ∃ more,
              commaJoin (memberTexts (m :: members)) ++ '}' :: rest = '"' :: more := by
            rw [memberTexts, commaJoin_cons]
            simp [memberText, stringToJson]
          rw [text, List.cons_append, List.append_assoc, List.singleton_append, hmore,
            valueReader_run, skipBlanks_cons (by decide)] at hrun
          rw [hmore, Nat.add_sub_cancel] at hmembers
          simp [readHere, readList, skipBlanks_cons (show isBlank '"' = false by decide),
            hmembers] at hrun

theorem stuck_itemTexts : (items : List Doc) → {levels : Nat} → ItemsKeyed items →
    ¬ ItemsRead levels items → {rest : List Char} → spoilt rest = true →
    readItems (valueReader levels) ']' (commaJoin (itemTexts items) ++ ']' :: rest) = none
  | [], _, _, hreads, _, _ => absurd trivial hreads
  | d :: items, levels, hkeyed, hreads, rest, hrest => by
      rw [itemTexts, commaJoin_cons]
      by_cases hd : d.Reads levels
      · have htail := stuck_itemTexts items hkeyed.2.2 (fun h => hreads ⟨hd, h⟩) hrest
        have hspoilt := spoilt_items hkeyed.2.2 hrest
        rw [readItems_eq, takes_text d hd _ (spoilt_ends hspoilt), Option.bind_some]
        cases items with
        | nil => exact absurd ⟨hd, trivial⟩ hreads
        | cons e items =>
            simp only [itemTexts, behind, skipBlanks_cons (show isBlank ',' = false by decide),
              if_true]
            rw [itemTexts] at htail
            rw [htail, Option.map_none]
      · exact readItems_stuck (by decide)
          (stuck_text d hkeyed.2.1 hd (spoilt_items hkeyed.2.2 hrest))

theorem stuck_memberTexts : (members : List (String × Doc)) → {levels : Nat} →
    MembersKeyed members → ¬ MembersRead levels members →
    {rest : List Char} → spoilt rest = true →
    readItems (pairReader (valueReader levels)) '}'
      (commaJoin (memberTexts members) ++ '}' :: rest) = none
  | [], _, _, hreads, _, _ => absurd trivial hreads
  | (k, d) :: members, levels, hkeyed, hreads, rest, hrest => by
      rw [memberTexts, commaJoin_cons]
      by_cases hd : d.Reads levels
      · have htail := stuck_memberTexts members hkeyed.2.2 (fun h => hreads ⟨hd, h⟩) hrest
        have hspoilt := spoilt_members hkeyed.2.2 hrest
        have htakes := takes_pair (takes_text d hd) k _ (spoilt_ends hspoilt)
        rw [readItems_eq, memberText, htakes, Option.bind_some]
        cases members with
        | nil => exact absurd ⟨hd, trivial⟩ hreads
        | cons m members =>
            simp only [memberTexts, behind,
              skipBlanks_cons (show isBlank ',' = false by decide), if_true]
            rw [memberTexts] at htail
            rw [htail, Option.map_none]
      · exact readItems_stuck (by decide)
          ((stuck_text d hkeyed.2.1 hd (spoilt_members hkeyed.2.2 hrest)).member k)

end

/-- The text of a document is parsed exactly if the document is read, and then as its
value. -/
theorem parse_text {d : Doc} (hkeyed : d.Keyed) (v : JVal) :
    parse (String.ofList d.text) = .ok v ↔ d.Reads (Parser.depthLimit + 1) ∧ v = d.value := by
  by_cases hreads : d.Reads (Parser.depthLimit + 1)
  · have hparse : parse (String.ofList d.text) = .ok d.value := by
      apply parse_of_takes
      rw [String.toList_ofList]
      exact takes_text d hreads
    rw [hparse, Except.ok.injEq]
    exact ⟨fun h => ⟨hreads, h.symm⟩, fun h => h.2.symm⟩
  · refine ⟨fun hparse => ?_, fun h => absurd h.1 hreads⟩
    rw [parse_eq_ok_iff, String.toList_ofList, readText, Option.bind_eq_some_iff] at hparse
    obtain ⟨⟨w, rest⟩, hrun, hrest⟩ := hparse
    have hstuck := stuck_text d hkeyed hreads (show spoilt [] = true from rfl)
    rw [List.append_nil] at hstuck
    obtain ⟨c, tail, rfl, hc⟩ := hstuck w rest hrun
    have hblank : isBlank c = false := by
      simp only [spoils, Bool.and_eq_true, Bool.not_eq_true'] at hc
      exact hc.2
    simp [skipBlanks_cons hblank] at hrest

end Doc

end PowerForensics.Json
