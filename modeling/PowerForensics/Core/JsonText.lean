import PowerForensics.Core.JsonPrinter
import PowerForensics.Text.Lines

/-! # JSON texts put together by formatting

Footers and manifests are not printed from a value: their texts are put together from
keys and from the texts of numbers, names and further objects. Such a text is read as
an object exactly if every member's text is read as a value; the formats of a number
fail this for infinities and for patterns that are not numbers.
-/

namespace PowerForensics.Json

open Binary64 (Denotes)

def memberText (key : String) (value : List Char) : List Char :=
  (stringToJson key).toList ++ ':' :: value

/-- An object from keys and the texts of their values. -/
def objectText (members : List (String × List Char)) : List Char :=
  '{' :: (commaJoin (members.map fun m => memberText m.1 m.2) ++ ['}'])

example : String.ofList (objectText [("a", ['1']), ("b", "null".toList)]) =
    "\x7b\"a\":1,\"b\":null\x7d" := by decide

/-- The escaped characters of a string. -/
def escapeJson (s : String) : List Char := s.toList.flatMap escapeChar

/-- An escaped string between quotes. -/
def quoted (s : String) : List Char := '"' :: (escapeJson s ++ ['"'])

/-- Escaping a string between quotes is what the printer of values does with it. -/
theorem quoted_eq (s : String) : quoted s = (stringToJson s).toList := by
  simp [quoted, escapeJson, stringToJson]

theorem takes_quoted {levels : Nat} (s : String) :
    Takes (valueReader (levels + 1)) (quoted s) (.str s) := by
  rw [quoted_eq]
  exact takes_string s

theorem get_obj_cons (key k : String) (v : JVal) (pairs : List (String × JVal)) :
    (JVal.obj ((k, v) :: pairs)).get key =
      if k = key then some v else (JVal.obj pairs).get key := by
  simp only [JVal.get, List.find?_cons]
  by_cases hk : k = key <;> simp [hk]

theorem get_obj_nil (key : String) : (JVal.obj []).get key = none := rfl

/-- The reader takes no value off the front of the text, whatever follows it. -/
def Refuses {α : Type} (reader : Reader α) (cs : List Char) : Prop :=
  ∀ rest, reader.run (cs ++ rest) = none

section Objects

variable {levels : Nat}

theorem takes_objectText (members : List (String × List Char × JVal))
    (htakes : ∀ m ∈ members, Takes (valueReader levels) m.2.1 m.2.2) :
    Takes (valueReader (levels + 1)) (objectText (members.map fun m => (m.1, m.2.1)))
      (.obj (members.map fun m => (m.1, m.2.2))) := by
  apply takes_obj
  rw [List.map_map]
  induction members with
  | nil => exact .nil
  | cons m members ih =>
      exact .cons (takes_pair (htakes m List.mem_cons_self) m.1)
        (ih fun n hn => htakes n (List.mem_cons_of_mem m hn))

theorem Refuses.member {cs : List Char} (hcs : Refuses (valueReader levels) cs) (key : String) :
    Refuses (pairReader (valueReader levels)) (memberText key cs) := by
  intro rest
  have hkey := readString_toJson key (':' :: (cs ++ rest))
  have hblank : skipBlanks ((stringToJson key).toList ++ ':' :: (cs ++ rest)) =
      (stringToJson key).toList ++ ':' :: (cs ++ rest) := by
    simp only [stringToJson, String.toList_append]
    exact skipBlanks_cons (by decide) _
  simp only [pairReader, readPair, memberText, List.append_assoc, List.cons_append, hblank, hkey,
    Option.bind_some, skipBlanks_cons (show isBlank ':' = false by decide), List.head?_cons,
    if_true, List.tail_cons, hcs rest, Option.map_none]

/-- One element that is refused, behind elements that are taken, refuses the list. -/
theorem Refuses.items {α : Type} {reader : Reader α} {close : Char} {texts : List (List Char)}
    (htexts : ∀ cs ∈ texts, Refuses reader cs ∨ ∃ a, Takes reader cs a)
    (hrefused : ∃ cs ∈ texts, Refuses reader cs) (rest : List Char) :
    readItems reader close (commaJoin texts ++ rest) = none := by
  induction texts with
  | nil =>
      obtain ⟨cs, hcs, _⟩ := hrefused
      cases hcs
  | cons cs texts ih =>
      obtain ⟨after, hjoin⟩ : ∃ after, commaJoin (cs :: texts) ++ rest = cs ++ after := by
        cases texts with
        | nil => exact ⟨rest, rfl⟩
        | cons ds texts =>
            exact ⟨',' :: (commaJoin (ds :: texts) ++ rest), by simp [commaJoin]⟩
      by_cases hhead : Refuses reader cs
      · rw [readItems_eq, hjoin, hhead after, Option.bind_none]
      · obtain ⟨a, ha⟩ := (htexts cs List.mem_cons_self).resolve_left hhead
        obtain ⟨bad, hbad, hbadRefused⟩ := hrefused
        have htail : bad ∈ texts := by
          rcases List.mem_cons.mp hbad with rfl | h
          · exact absurd hbadRefused hhead
          · exact h
        cases texts with
        | nil => cases htail
        | cons ds texts =>
            have hrest := ih (fun es hes => htexts es (List.mem_cons_of_mem cs hes))
              ⟨bad, htail, hbadRefused⟩
            rw [commaJoin, List.append_assoc, List.cons_append, readItems_eq,
              ha _ (endsNumber_comma _), Option.bind_some]
            simp only [skipBlanks_cons (show isBlank ',' = false by decide), if_true, hrest,
              Option.map_none]

/-- An object with a member that is refused is refused. -/
theorem refuses_objectText {members : List (String × List Char)}
    (hmembers : ∀ m ∈ members, Refuses (valueReader levels) m.2 ∨
      ∃ v, Takes (valueReader levels) m.2 v)
    (hrefused : ∃ m ∈ members, Refuses (valueReader levels) m.2) :
    Refuses (valueReader (levels + 1)) (objectText members) := by
  intro rest
  have htexts : ∀ cs ∈ members.map fun m => memberText m.1 m.2,
      Refuses (pairReader (valueReader levels)) cs ∨
        ∃ a, Takes (pairReader (valueReader levels)) cs a := by
    intro cs hcs
    obtain ⟨m, hm, rfl⟩ := List.mem_map.mp hcs
    rcases hmembers m hm with h | ⟨v, h⟩
    · exact Or.inl (h.member m.1)
    · exact Or.inr ⟨_, takes_pair h m.1⟩
  have hbad : ∃ cs ∈ members.map fun m => memberText m.1 m.2,
      Refuses (pairReader (valueReader levels)) cs := by
    obtain ⟨m, hm, h⟩ := hrefused
    exact ⟨_, List.mem_map_of_mem hm, h.member m.1⟩
  have hitems : readItems (pairReader (valueReader levels)) '}'
      (commaJoin (members.map fun m => memberText m.1 m.2) ++ '}' :: rest) = none :=
    Refuses.items htexts hbad _
  obtain ⟨after, hquote⟩ : ∃ after,
      commaJoin (members.map fun m => memberText m.1 m.2) ++ '}' :: rest = '"' :: after := by
    obtain ⟨m, hm, _⟩ := hrefused
    cases members with
    | nil => cases hm
    | cons m members => cases members <;> simp [commaJoin, memberText, stringToJson]
  have hblank : skipBlanks ('"' :: after) = '"' :: after := skipBlanks_cons (by decide) _
  rw [hquote] at hitems
  rw [objectText, List.cons_append, List.append_assoc, List.singleton_append, hquote,
    valueReader_run, skipBlanks_cons (by decide)]
  simp [readHere, readList, hblank, hitems]

/-- A text that is refused is no JSON. -/
theorem not_parse_of_refuses {cs : List Char}
    (hcs : Refuses (valueReader (Parser.depthLimit + 1)) cs) (v : JVal) :
    parse (String.ofList cs) ≠ .ok v := by
  intro hparse
  have hrun := hcs []
  rw [List.append_nil] at hrun
  rw [parse_eq_ok_iff, String.toList_ofList, readText, hrun] at hparse
  cases hparse

/-- The reader takes a value off the text if the condition holds and refuses it if not. -/
structure Reads {α : Type} (reader : Reader α) (cs : List Char) (P : Prop) : Prop where
  takes : P → ∃ a, Takes reader cs a
  refuses : ¬ P → Refuses reader cs

theorem Reads.of_takes {α : Type} {reader : Reader α} {cs : List Char} {a : α}
    (htakes : Takes reader cs a) : Reads reader cs True :=
  ⟨fun _ => ⟨a, htakes⟩, fun h => absurd trivial h⟩

theorem Reads.congr {α : Type} {reader : Reader α} {cs : List Char} {P Q : Prop}
    (hreads : Reads reader cs P) (hPQ : P ↔ Q) : Reads reader cs Q :=
  ⟨fun h => hreads.takes (hPQ.mpr h), fun h => hreads.refuses (mt hPQ.mp h)⟩

theorem takes_or_refuses {members : List (String × List Char)} {conditions : List Prop}
    (hmembers : List.Forall₂ (fun m P => Reads (valueReader levels) m.2 P) members conditions) :
    ∀ m ∈ members, Refuses (valueReader levels) m.2 ∨ ∃ v, Takes (valueReader levels) m.2 v := by
  induction hmembers with
  | nil => simp
  | @cons m P _ _ hm _ ih =>
      refine List.forall_mem_cons.mpr ⟨?_, ih⟩
      by_cases hP : P
      · exact Or.inr (hm.takes hP)
      · exact Or.inl (hm.refuses hP)

theorem exists_refuses {members : List (String × List Char)} {conditions : List Prop}
    (hmembers : List.Forall₂ (fun m P => Reads (valueReader levels) m.2 P) members conditions)
    (hnone : ¬ ∀ P ∈ conditions, P) : ∃ m ∈ members, Refuses (valueReader levels) m.2 := by
  induction hmembers with
  | nil => exact absurd (by simp) hnone
  | @cons m P members conditions hm _ ih =>
      by_cases hP : P
      · obtain ⟨m', hm', hrefuses⟩ := ih fun h => hnone (List.forall_mem_cons.mpr ⟨hP, h⟩)
        exact ⟨m', List.mem_cons_of_mem m hm', hrefuses⟩
      · exact ⟨m, List.mem_cons_self, hm.refuses hP⟩

/-- An object is read exactly if every member is. -/
theorem Reads.object (members : List (String × List Char)) (conditions : List Prop)
    (hmembers : List.Forall₂ (fun m P => Reads (valueReader levels) m.2 P) members conditions) :
    Reads (valueReader (levels + 1)) (objectText members) (∀ P ∈ conditions, P) where
  takes hall := by
    obtain ⟨values, hvalues⟩ : ∃ values : List JVal,
        List.Forall₂ (fun m v => Takes (valueReader levels) m.2 v) members values := by
      induction hmembers with
      | nil => exact ⟨[], .nil⟩
      | cons hm _ ih =>
          obtain ⟨hP, hall⟩ := List.forall_mem_cons.mp hall
          obtain ⟨v, hv⟩ := hm.takes hP
          obtain ⟨values, hvalues⟩ := ih hall
          exact ⟨v :: values, .cons hv hvalues⟩
    have hpairs : List.Forall₂ (Takes (pairReader (valueReader levels)))
        (members.map fun m => memberText m.1 m.2)
        (List.zipWith (fun m v => (m.1, v)) members values) := by
      clear hmembers hall
      induction hvalues with
      | nil => exact .nil
      | @cons m v _ _ hv _ ih => exact .cons (takes_pair hv m.1) ih
    exact ⟨_, takes_obj hpairs⟩
  refuses hnone :=
    refuses_objectText (takes_or_refuses hmembers) (exists_refuses hmembers hnone)

end Objects

/-! ## Formats of numbers -/

section Formats

variable {levels : Nat}

/-- A character that starts no value. -/
theorem refuses_cons {c : Char} (hc : c ∉ ['{', '[', '"', 't', 'f', 'n', '-'])
    (hdigit : c.isDigit = false) (hblank : isBlank c = false) (cs : List Char) :
    Refuses (valueReader levels) (c :: cs) := by
  intro rest
  cases levels with
  | zero => rfl
  | succ levels =>
      rw [valueReader_run, List.cons_append, skipBlanks_cons hblank, readHere_none hc hdigit]

/-- A minus sign that no digit follows. -/
theorem refuses_minus_inf : Refuses (valueReader levels) "-inf".toList := by
  intro rest
  cases levels with
  | zero => rfl
  | succ levels =>
      have htoken : numberToken ('-' :: 'i' :: 'n' :: 'f' :: rest) = ['-'] := by
        have hskip : skipNumber ('-' :: 'i' :: 'n' :: 'f' :: rest) = 'i' :: 'n' :: 'f' :: rest :=
          rfl
        simp [numberToken, hskip]
      have hread : readNumber ('-' :: 'i' :: 'n' :: 'f' :: rest) = none := by
        rw [readNumber, htoken]
        rfl
      change (valueReader (levels + 1)).run ('-' :: 'i' :: 'n' :: 'f' :: rest) = none
      rw [valueReader_run, skipBlanks_cons (by decide)]
      simpa [readHere] using hread

theorem refuses_fixed (p : Nat) {x : Binary64} (hx : x.isFinite = false) :
    Refuses (valueReader levels) (x.fixed p) := by
  rcases Binary64.fixed_of_not_finite p hx with htext | htext
  · rw [htext]
    exact refuses_cons (by decide) (by decide) (by decide) _
  · rw [htext, Binary64.signText]
    split
    · exact refuses_minus_inf
    · exact refuses_cons (by decide) (by decide) (by decide) _

/-- A number with a fixed number of places is read exactly if it is finite. -/
theorem reads_fixed (p : Nat) (x : Binary64) :
    Reads (valueReader (levels + 1)) (x.fixed p) (x.isFinite = true) :=
  ⟨fun hx => ⟨_, takes_number (Binary64.denotes_fixed p hx)⟩,
    fun hx => refuses_fixed p (Bool.eq_false_iff.mpr hx)⟩

theorem takes_digits (n : Nat) :
    Takes (valueReader (levels + 1)) (Nat.toDigits 10 n) (.num (.ofNat n)) :=
  takes_number (Binary64.denotes_toDigits n)

end Formats

/-! ## One line -/

theorem objectText_eq (members : List (String × List Char)) :
    objectText members =
      '{' :: (commaJoin (members.map fun m => memberText m.1 m.2) ++ ['}']) := rfl

/-- A text in braces has nothing to trim. -/
theorem trim_objectText (members : List (String × List Char)) :
    Lines.trim (objectText members) = objectText members := by
  apply Lines.trim_eq_self
  · intro c hc
    obtain rfl : '{' = c := by simpa [objectText] using hc
    rfl
  · intro c hc
    rw [objectText, ← List.cons_append, List.getLast?_concat, Option.some.injEq] at hc
    subst hc
    rfl

theorem mem_commaJoin {c : Char} {texts : List (List Char)} (hc : c ∈ commaJoin texts) :
    c = ',' ∨ ∃ cs ∈ texts, c ∈ cs := by
  induction texts with
  | nil => cases hc
  | cons cs texts ih =>
      cases texts with
      | nil => exact Or.inr ⟨cs, List.mem_cons_self, hc⟩
      | cons ds texts =>
          rw [commaJoin, List.mem_append, List.mem_cons] at hc
          rcases hc with h | h | h
          · exact Or.inr ⟨cs, List.mem_cons_self, h⟩
          · exact Or.inl h
          · rcases ih h with h | ⟨es, hes, h⟩
            · exact Or.inl h
            · exact Or.inr ⟨es, List.mem_cons_of_mem cs hes, h⟩

/-- No escape is a line feed. -/
theorem newline_not_mem_escapeChar (c : Char) : '\n' ∉ escapeChar c := by
  unfold escapeChar
  split
  · simp
  split
  · simp
  split
  · simp
  split
  · simp
  split
  · simp
  split
  next hcontrol =>
    have hdigit : ∀ n < 16, hexChar n ≠ '\n' := by decide
    simp only [hex04, List.mem_append, List.mem_cons, List.not_mem_nil, or_false, not_or]
    refine ⟨by decide, ?_⟩
    have hlt : ∀ n, n % 16 < 16 := fun n => Nat.mod_lt _ (by decide)
    exact ⟨(hdigit _ (hlt _)).symm, (hdigit _ (hlt _)).symm, (hdigit _ (hlt _)).symm,
      (hdigit _ (hlt _)).symm⟩
  next hne _ _ _ => simpa using fun h => hne h.symm

theorem newline_not_mem_stringToJson (s : String) : '\n' ∉ (stringToJson s).toList := by
  simp only [stringToJson, String.toList_append, String.toList_ofList, List.mem_append,
    List.mem_flatMap, not_or, not_exists, not_and]
  exact ⟨⟨by decide, fun c _ => newline_not_mem_escapeChar c⟩, by decide⟩

theorem newline_not_mem_quoted (s : String) : '\n' ∉ quoted s := by
  rw [quoted_eq]
  exact newline_not_mem_stringToJson s

theorem newline_not_mem_objectText {members : List (String × List Char)}
    (hmembers : ∀ m ∈ members, '\n' ∉ m.2) : '\n' ∉ objectText members := by
  intro h
  rw [objectText_eq, List.mem_cons, List.mem_append] at h
  rcases h with h | h | h
  · cases h
  · rcases mem_commaJoin h with h | ⟨cs, hcs, h⟩
    · cases h
    · obtain ⟨m, hm, rfl⟩ := List.mem_map.mp hcs
      rw [memberText, List.mem_append, List.mem_cons] at h
      rcases h with h | h | h
      · exact newline_not_mem_stringToJson m.1 h
      · cases h
      · exact hmembers m hm h
  · simp at h

end PowerForensics.Json
