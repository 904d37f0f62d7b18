import PowerForensics.Core.Envelope
import PowerForensics.Core.JsonDoc

/-! # Lines put together from envelopes

The collectors format their lines by hand, from escaped strings, plain numbers and the
envelopes of their readings. Such a line is a document on one line of text. What the loader
finds under a key of it is the value of the document there; an envelope gives its value back
exactly where it has one, and it is read without a panic exactly if it has one or its reason
can be kept.
-/

namespace PowerForensics.Json

open Session (Keepable absentReason storedReason truncate reasonLimit)

/-! ## Line feeds -/

theorem newline_not_mem_commaJoin {texts : List (List Char)} (htexts : ∀ cs ∈ texts, '\n' ∉ cs) :
    '\n' ∉ commaJoin texts := by
  intro h
  rcases mem_commaJoin h with h | ⟨cs, hcs, h⟩
  · cases h
  · exact htexts cs hcs h

mutual

theorem newline_not_mem_toJson : (v : JVal) → '\n' ∉ (toJson v).toList
  | .null => by decide
  | .bool b => by cases b <;> decide
  | .num n => by
      rw [toJson]
      split
      next hn => simpa using (Binary64.denotes_debug hn).newline_not_mem
      next => decide
  | .str s => newline_not_mem_stringToJson s
  | .arr items => by simp [toJson, newline_not_mem_items items]
  | .obj pairs => by simp [toJson, newline_not_mem_pairs pairs]

theorem newline_not_mem_items : (items : List JVal) → '\n' ∉ (itemsToJson items).toList
  | [] => by simp [itemsToJson]
  | [v] => newline_not_mem_toJson v
  | v :: w :: rest => by
      simp [itemsToJson, newline_not_mem_toJson v, newline_not_mem_items (w :: rest)]

theorem newline_not_mem_pairs : (pairs : List (String × JVal)) →
    '\n' ∉ (pairsToJson pairs).toList
  | [] => by simp [pairsToJson]
  | [(k, v)] => by
      simp [pairsToJson, newline_not_mem_stringToJson k, newline_not_mem_toJson v]
  | (k, v) :: kw :: rest => by
      simp [pairsToJson, newline_not_mem_stringToJson k, newline_not_mem_toJson v,
        newline_not_mem_pairs (kw :: rest)]

end

/-- Hexadecimal digits in capital letters behind their mark. -/
def hexText (n : UInt32) : String :=
  String.ofList ('0' :: 'x' :: (Nat.toDigits 16 n.toNat).map Char.toUpper)

example : hexText 0x8000000F = "0x8000000F" := by decide +kernel

/-- Nothing in the text has to be escaped. -/
def Plain (s : String) : Prop := ∀ c ∈ s.toList, escapeChar c = [c]

instance (s : String) : Decidable (Plain s) :=
  inferInstanceAs (Decidable (∀ c ∈ s.toList, escapeChar c = [c]))

/-- A word from a table. -/
structure PlainName where
  text : String
  plain : Plain text

namespace Doc

theorem newline_not_mem_display (x : Binary64) : '\n' ∉ x.display := by
  cases hx : x.isFinite with
  | true => exact (Binary64.denotes_display hx).newline_not_mem
  | false =>
      rw [Binary64.display_of_not_finite hx]
      exact Binary64.newline_not_mem_fixed 0 x

theorem newline_not_mem_esc (s : String) : '\n' ∉ esc s := by
  intro h
  have hdrop := (List.rdropWhile_prefix _ (l := (stringToJson s).toList.drop 1)).subset h
  exact newline_not_mem_stringToJson s (List.mem_of_mem_drop hdrop)

mutual

/-- A document is on one line. -/
theorem newline_not_mem_text : (d : Doc) → '\n' ∉ d.text
  | null => by decide
  | bool b => by cases b <;> decide
  | digits n => (Binary64.denotes_toDigits n).newline_not_mem
  | shown x => newline_not_mem_display x
  | fixed places x => Binary64.newline_not_mem_fixed places x
  | quoted s => by simp [text, newline_not_mem_esc s]
  | printed v => newline_not_mem_toJson v
  | arr items => by simp [text, newline_not_mem_commaJoin (newline_not_mem_itemTexts items)]
  | obj members => by
      simp [text, newline_not_mem_commaJoin (newline_not_mem_memberTexts members)]

theorem newline_not_mem_itemTexts : (items : List Doc) → ∀ cs ∈ itemTexts items, '\n' ∉ cs
  | [], _, hcs => by cases hcs
  | d :: rest, cs, hcs => by
      rcases List.mem_cons.mp hcs with rfl | hrest
      · exact newline_not_mem_text d
      · exact newline_not_mem_itemTexts rest cs hrest

theorem newline_not_mem_memberTexts : (members : List (String × Doc)) →
    ∀ cs ∈ memberTexts members, '\n' ∉ cs
  | [], _, hcs => by cases hcs
  | (k, d) :: rest, cs, hcs => by
      rcases List.mem_cons.mp hcs with rfl | hrest
      · simp [memberText, newline_not_mem_stringToJson k, newline_not_mem_text d]
      · exact newline_not_mem_memberTexts rest cs hrest

end

/-! ## Reading a document -/

theorem itemsRead_iff {levels : Nat} (items : List Doc) :
    ItemsRead levels items ↔ ∀ d ∈ items, d.Reads levels := by
  induction items with
  | nil => simp [ItemsRead]
  | cons d items ih => simp [ItemsRead, ih]

theorem membersRead_iff {levels : Nat} (members : List (String × Doc)) :
    MembersRead levels members ↔ ∀ m ∈ members, m.2.Reads levels := by
  induction members with
  | nil => simp [MembersRead]
  | cons m members ih => simp [MembersRead, ih]

theorem reads_digits {levels : Nat} (n : Nat) : (digits n).Reads (levels + 1) := Nat.succ_pos levels

theorem reads_bool {levels : Nat} (b : Bool) : (bool b).Reads (levels + 1) := Nat.succ_pos levels

theorem reads_shown {levels : Nat} {x : Binary64} (hx : x.isFinite = true) :
    (shown x).Reads (levels + 1) := ⟨Nat.succ_pos levels, hx⟩

theorem reads_null {levels : Nat} : null.Reads (levels + 1) := Nat.succ_pos levels

theorem reads_fixed {levels places : Nat} {x : Binary64} (hx : x.isFinite = true) :
    (fixed places x).Reads (levels + 1) := ⟨Nat.succ_pos levels, hx⟩

theorem reads_arr {levels : Nat} {items : List Doc} (hitems : ∀ d ∈ items, d.Reads levels) :
    (arr items).Reads (levels + 1) :=
  ⟨Nat.succ_pos _, (itemsRead_iff items).mpr hitems⟩

theorem reads_map {α : Type} {levels : Nat} {write : α → Doc} {l : List α}
    (hwrite : ∀ a ∈ l, (write a).Reads levels) : (arr (l.map write)).Reads (levels + 1) := by
  apply reads_arr
  intro d hd
  obtain ⟨a, ha, rfl⟩ := List.mem_map.mp hd
  exact hwrite a ha

theorem reads_obj {levels : Nat} {members : List (String × Doc)}
    (hmembers : ∀ m ∈ members, m.2.Reads levels) : (obj members).Reads (levels + 1) :=
  ⟨Nat.succ_pos _, (membersRead_iff members).mpr hmembers⟩

mutual

theorem reads_mono {levels more : Nat} (hle : levels ≤ more) : (d : Doc) → d.Reads levels →
    d.Reads more
  | null, h => Nat.lt_of_lt_of_le h hle
  | bool _, h => Nat.lt_of_lt_of_le h hle
  | digits _, h => Nat.lt_of_lt_of_le h hle
  | shown _, h => ⟨Nat.lt_of_lt_of_le h.1 hle, h.2⟩
  | fixed _ _, h => ⟨Nat.lt_of_lt_of_le h.1 hle, h.2⟩
  | quoted _, h => ⟨Nat.lt_of_lt_of_le h.1 hle, h.2⟩
  | printed _, h => Nat.lt_of_lt_of_le h hle
  | arr items, h =>
      ⟨Nat.lt_of_lt_of_le h.1 hle, itemsRead_mono (Nat.sub_le_sub_right hle 1) items h.2⟩
  | obj members, h =>
      ⟨Nat.lt_of_lt_of_le h.1 hle, membersRead_mono (Nat.sub_le_sub_right hle 1) members h.2⟩

theorem itemsRead_mono {levels more : Nat} (hle : levels ≤ more) : (items : List Doc) →
    ItemsRead levels items → ItemsRead more items
  | [], _ => trivial
  | d :: rest, h => ⟨reads_mono hle d h.1, itemsRead_mono hle rest h.2⟩

theorem membersRead_mono {levels more : Nat} (hle : levels ≤ more) :
    (members : List (String × Doc)) → MembersRead levels members → MembersRead more members
  | [], _ => trivial
  | (_, d) :: rest, h => ⟨reads_mono hle d h.1, membersRead_mono hle rest h.2⟩

end

/-- The line of a document. -/
def line (d : Doc) : String := String.ofList d.text

theorem parse_line {d : Doc} {levels : Nat} (hreads : d.Reads levels)
    (hlevels : levels ≤ Parser.depthLimit + 1) : parse d.line = .ok d.value := by
  apply parse_of_takes
  rw [line, String.toList_ofList]
  exact takes_text d (reads_mono hlevels d hreads)

theorem text_obj (members : List (String × Doc)) :
    (obj members).text = objectText (members.map fun m => (m.1, m.2.text)) := by
  have htexts : memberTexts members = members.map fun m => memberText m.1 m.2.text := by
    induction members with
    | nil => rfl
    | cons m members ih => rw [memberTexts, List.map_cons, ih]
  rw [text, htexts, objectText, List.map_map]
  rfl

theorem trim_obj (members : List (String × Doc)) :
    Lines.trim (obj members).text = (obj members).text := by
  rw [text_obj]
  exact trim_objectText _

theorem get_obj (key k : String) (d : Doc) (members : List (String × Doc)) :
    (obj ((k, d) :: members)).value.get key =
      if k = key then some d.value else (obj members).value.get key := by
  simp only [value, memberValues]
  exact get_obj_cons key k d.value _

theorem value_arr (items : List Doc) : (arr items).value = .arr (items.map value) := by
  rw [value, itemValues_eq]

theorem get_nil (key : String) : (obj []).value.get key = none := rfl

/-! ## Strings and envelopes -/

/-- An escaped string between quotes. -/
def str (s : String) : Doc := .printed (.str s)

theorem text_str (s : String) : (str s).text = Json.quoted s := (quoted_eq s).symm

@[simp] theorem value_str (s : String) : (str s).value = .str s := rfl

theorem reads_str {levels : Nat} (s : String) : (str s).Reads (levels + 1) := Nat.succ_pos levels

/-- A word that is put between quotes as it is. -/
def name (word : PlainName) : Doc := str word.text

def present (v : Doc) (prov : Provenance) : Doc :=
  obj [("v", v), ("p", str prov.asStr), ("q", digits 0)]

def absent (kind : UnavailKind) (reason : String) : Doc :=
  obj [("v", null), ("p", str "unavailable"), ("k", digits kind.code.toNat),
    ("q", digits (qualityForKind kind).code.toNat), ("reason", str reason)]

def envelope (v : Option Doc) (prov : Provenance) (kind : UnavailKind) (reason : String) : Doc :=
  match v with
  | some d => present d prov
  | none => absent kind reason

def jsonNum (v : Option Binary64) (prov : Provenance) (kind : UnavailKind) (reason : String) :
    Doc := envelope (v.map shown) prov kind reason

def jsonStr (v : Option String) (prov : Provenance) (kind : UnavailKind) (reason : String) :
    Doc := envelope (v.map str) prov kind reason

/-- The envelope of a reading, with its value written in its own way. -/
def readingNum {α : Type} (write : α → Doc) (r : Reading α) (kind : UnavailKind) : Doc :=
  match r with
  | .unavailable reason => absent kind reason
  | .measured x | .derived x | .estimated x => present (write x) r.provenance

/-- It is the envelope that the telemetry writes. -/
theorem line_jsonNum (v : Option Binary64) (prov : Provenance) (kind : UnavailKind)
    (reason : String) :
    (jsonNum v prov kind reason).line = PowerForensics.jsonNum v prov kind reason := by
  cases v with
  | none =>
      simp [jsonNum, envelope, absent, line, text_obj, PowerForensics.jsonNum, jsonNumMembers,
        text_str, text, codeText]
  | some x =>
      simp [jsonNum, envelope, present, line, text_obj, PowerForensics.jsonNum, jsonNumMembers,
        text_str, text, codeText]

theorem reads_present {levels : Nat} {d : Doc} (hd : d.Reads (levels + 1)) (prov : Provenance) :
    (present d prov).Reads (levels + 2) := by
  apply reads_obj
  simp only [List.forall_mem_cons, List.not_mem_nil, false_imp_iff, implies_true, and_true]
  exact ⟨hd, reads_str _, Nat.succ_pos _⟩

theorem reads_absent {levels : Nat} (kind : UnavailKind) (reason : String) :
    (absent kind reason).Reads (levels + 2) := by
  apply reads_obj
  simp only [List.forall_mem_cons, List.not_mem_nil, false_imp_iff, implies_true, and_true]
  exact ⟨Nat.succ_pos _, reads_str _, Nat.succ_pos _, Nat.succ_pos _, reads_str _⟩

theorem reads_envelope {levels : Nat} {v : Option Doc} (hv : ∀ d ∈ v, d.Reads (levels + 1))
    (prov : Provenance) (kind : UnavailKind) (reason : String) :
    (envelope v prov kind reason).Reads (levels + 2) := by
  cases v with
  | none => exact reads_absent kind reason
  | some d => exact reads_present (hv d rfl) prov

theorem reads_jsonNum {levels : Nat} {v : Option Binary64} (hv : ∀ x ∈ v, x.isFinite = true)
    (prov : Provenance) (kind : UnavailKind) (reason : String) :
    (jsonNum v prov kind reason).Reads (levels + 2) := by
  apply reads_envelope
  intro d hd
  obtain ⟨x, hx, rfl⟩ := Option.mem_map.mp hd
  exact ⟨Nat.succ_pos _, hv x hx⟩

theorem reads_jsonStr {levels : Nat} (v : Option String) (prov : Provenance)
    (kind : UnavailKind) (reason : String) : (jsonStr v prov kind reason).Reads (levels + 2) := by
  apply reads_envelope
  intro d hd
  obtain ⟨s, -, rfl⟩ := Option.mem_map.mp hd
  exact reads_str s

theorem reads_readingNum {levels : Nat} {α : Type} {write : α → Doc} {r : Reading α}
    (hr : ∀ x ∈ r.value, (write x).Reads (levels + 1)) (kind : UnavailKind) :
    (readingNum write r kind).Reads (levels + 2) := by
  cases r with
  | unavailable reason => exact reads_absent kind reason
  | measured x => exact reads_present (hr x rfl) _
  | derived x => exact reads_present (hr x rfl) _
  | estimated x => exact reads_present (hr x rfl) _

/-! ## What is found in an envelope -/

theorem numAt_envelope (v : Option Doc) (prov : Provenance) (kind : UnavailKind)
    (reason : String) : (envelope v prov kind reason).value.numAt "v" = v.bind (·.value.num?) := by
  cases v <;> rfl

theorem strAt_envelope (v : Option Doc) (prov : Provenance) (kind : UnavailKind)
    (reason : String) : (envelope v prov kind reason).value.strAt "v" = v.bind (·.value.asStr) := by
  cases v <;> rfl

@[simp] theorem numAt_jsonNum (v : Option Binary64) (prov : Provenance) (kind : UnavailKind)
    (reason : String) : (jsonNum v prov kind reason).value.numAt "v" = v := by
  rw [jsonNum, numAt_envelope]
  cases v <;> rfl

@[simp] theorem strAt_jsonStr (v : Option String) (prov : Provenance) (kind : UnavailKind)
    (reason : String) : (jsonStr v prov kind reason).value.strAt "v" = v := by
  rw [jsonStr, strAt_envelope]
  cases v <;> rfl

/-- A string is no number, and neither is the lack of one. -/
@[simp] theorem numAt_jsonStr (v : Option String) (prov : Provenance) (kind : UnavailKind)
    (reason : String) : (jsonStr v prov kind reason).value.numAt "v" = none := by
  rw [jsonStr, numAt_envelope]
  cases v <;> rfl

/-! ## Envelopes and reasons -/

theorem keepable_present (d : Doc) (prov : Provenance) :
    Keepable (some (present d prov).value) := by
  intro reason hreason
  have hstored : storedReason (some (present d prov).value) = "no reason recorded" := rfl
  unfold absentReason at hreason
  split at hreason
  · cases hreason
  · obtain rfl := Option.some.inj hreason
    rw [hstored]
    exact Session.knownReasons_cut _ (by decide)

theorem keepable_absent (kind : UnavailKind) (reason : String) :
    Keepable (some (absent kind reason).value) ↔ (truncate reasonLimit reason.toList).isSome := by
  have hreason : absentReason (some (absent kind reason).value) = some reason := rfl
  simp [Keepable, hreason]

theorem keepable_envelope (v : Option Doc) (prov : Provenance) (kind : UnavailKind)
    {reason : String} (hreason : (truncate reasonLimit reason.toList).isSome) :
    Keepable (some (envelope v prov kind reason).value) := by
  cases v with
  | none => exact (keepable_absent kind reason).mpr hreason
  | some d => exact keepable_present d prov

theorem keepable_readingNum {α : Type} (write : α → Doc) (r : Reading α) (kind : UnavailKind) :
    Keepable (some (readingNum write r kind).value) ↔
      ∀ reason, r = .unavailable reason → (truncate reasonLimit reason.toList).isSome := by
  cases r with
  | unavailable reason => simp [readingNum, keepable_absent]
  | measured x => simp [readingNum, keepable_present]
  | derived x => simp [readingNum, keepable_present]
  | estimated x => simp [readingNum, keepable_present]

/-! ## Objects as lines of a session -/

section Objects

variable {members : List (String × Doc)} {levels : Nat}

theorem text_obj_ne_nil : (obj members).text ≠ [] := by
  rw [text_obj]
  exact List.cons_ne_nil _ _

theorem parse_trim (hreads : (obj members).Reads levels)
    (hlevels : levels ≤ Parser.depthLimit + 1) :
    parse (String.ofList (Lines.trim (obj members).text)) = .ok (obj members).value := by
  rw [trim_obj]
  exact parse_line hreads hlevels

theorem loadable_obj (hreads : (obj members).Reads levels)
    (hlevels : levels ≤ Parser.depthLimit + 1) :
    Session.Loadable (obj members).text ↔ Session.ReasonsKeepable (obj members).value := by
  simp only [Session.Loadable, parse_trim hreads hlevels, Except.ok.injEq, exists_eq_left']
  rw [trim_obj]
  exact ⟨fun h => h text_obj_ne_nil, fun h _ => h⟩

/-- Behind other lines the line of an object is loaded as the record that it is. -/
theorem loadLines_obj (hreads : (obj members).Reads levels)
    (hlevels : levels ≤ Parser.depthLimit + 1) (number : Nat) (s : Session.SessionData) :
    Session.loadLines number [(obj members).text] s = Session.loadRecord (obj members).value s := by
  have hblank : Lines.trim (obj members).text ≠ [] := by
    rw [trim_obj]
    exact text_obj_ne_nil
  rw [Session.loadLines, if_neg hblank, parse_trim hreads hlevels]
  cases hload : Session.loadRecord (obj members).value s with
  | error fault => simp only [hload]
  | ok s' => simp only [hload, Session.loadLines]

end Objects

end Doc

end PowerForensics.Json
