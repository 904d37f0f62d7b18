import Mathlib.Data.List.TakeWhile

/-! # Comma-separated values

A field is bare or stands between quotes, where quotes are doubled; a bare field has no
comma, no quote and no character of a line break. Fields are separated by commas and
records by line breaks, a line feed with or without a carriage return before it. The
reader accepts exactly the texts of this grammar.
-/

namespace Csv

abbrev Field := List Char

/-! ## Grammar -/

/-- The characters of a bare field. -/
def isBare (c : Char) : Bool := c ∉ [',', '"', '\n', '\r']

def Bare (field : Field) : Prop := ∀ c ∈ field, isBare c = true

instance (field : Field) : Decidable (Bare field) :=
  List.decidableBAll (isBare · = true) field

/-- The characters of a field with quotes doubled. -/
def doubled (field : Field) : List Char :=
  field.flatMap fun c => if c = '"' then ['"', '"'] else [c]

def quoted (field : Field) : List Char := '"' :: (doubled field ++ ['"'])

/-- The text of a field. -/
inductive FieldText (field : Field) : List Char → Prop where
  | bare (hbare : Bare field) : FieldText field field
  | quoted : FieldText field (quoted field)

/-- The text of a record. -/
inductive RecordText : List Field → List Char → Prop where
  | last {field : Field} {cs : List Char} (hfield : FieldText field cs) : RecordText [field] cs
  | cons {field : Field} {fields : List Field} {cs ds : List Char} (hfield : FieldText field cs)
      (hfields : RecordText fields ds) : RecordText (field :: fields) (cs ++ ',' :: ds)

/-- Records that each end in a line break, where the last one need not if it has a text. -/
inductive TableText : List (List Field) → List Char → Prop where
  | nil : TableText [] []
  | last {fields : List Field} {cs : List Char} (hfields : RecordText fields cs) (hne : cs ≠ []) :
      TableText [fields] cs
  | cons {fields : List Field} {table : List (List Field)} {cs brk ds : List Char}
      (hfields : RecordText fields cs) (hbrk : brk = ['\n'] ∨ brk = ['\r', '\n'])
      (htable : TableText table ds) : TableText (fields :: table) (cs ++ (brk ++ ds))

/-! ## Reader -/

/-- The rest of a quoted field and the text behind it. -/
def readQuoted : List Char → Option (Field × List Char)
  | [] => none
  | '"' :: '"' :: cs => (readQuoted cs).map fun (field, rest) => ('"' :: field, rest)
  | '"' :: cs => some ([], cs)
  | c :: cs => (readQuoted cs).map fun (field, rest) => (c :: field, rest)

def readField (cs : List Char) : Option (Field × List Char) :=
  match cs with
  | '"' :: rest => readQuoted rest
  | _ => some (cs.takeWhile isBare, cs.dropWhile isBare)

def readRecord : Nat → List Char → Option (List Field × List Char)
  | 0, _ => none
  | fuel + 1, cs =>
      (readField cs).bind fun (field, rest) =>
        match rest with
        | ',' :: rest => (readRecord fuel rest).map fun (fields, rest) => (field :: fields, rest)
        | _ => some ([field], rest)

def readBreak : List Char → Option (List Char)
  | '\n' :: rest => some rest
  | '\r' :: '\n' :: rest => some rest
  | _ => none

def readTable : Nat → List Char → Option (List (List Field))
  | 0, _ => none
  | fuel + 1, cs =>
      if cs = [] then some []
      else
        (readRecord (cs.length + 1) cs).bind fun (fields, rest) =>
          if rest = [] then some [fields]
          else (readBreak rest).bind fun rest => (readTable fuel rest).map (fields :: ·)

/-- The table of a text. -/
def read (cs : List Char) : Option (List (List Field)) := readTable (cs.length + 1) cs

example : read "a,\"b\"\"\n\"\r\n,".toList =
    some [["a".toList, "b\"\n".toList], [[], []]] := by decide

/-! ## What is read is in the grammar -/

theorem doubled_cons (c : Char) (field : Field) :
    doubled (c :: field) = (if c = '"' then ['"', '"'] else [c]) ++ doubled field := rfl

theorem of_readQuoted {cs : List Char} {field : Field} {rest : List Char}
    (hread : readQuoted cs = some (field, rest)) : cs = doubled field ++ '"' :: rest := by
  induction cs using readQuoted.induct generalizing field with
  | case1 => cases hread
  | case2 cs ih =>
      rw [readQuoted, Option.map_eq_some_iff] at hread
      obtain ⟨⟨field', rest'⟩, htail, heq⟩ := hread
      obtain ⟨rfl, rfl⟩ := Prod.mk.inj heq
      simp [doubled_cons, ih htail]
  | case3 cs hquote =>
      rw [readQuoted] at hread
      · obtain ⟨rfl, rfl⟩ := Prod.mk.inj (Option.some.inj hread)
        rfl
      · exact hquote
  | case4 c cs hquote hne ih =>
      rw [readQuoted, Option.map_eq_some_iff] at hread
      · obtain ⟨⟨field', rest'⟩, htail, heq⟩ := hread
        obtain ⟨rfl, rfl⟩ := Prod.mk.inj heq
        have hc : c ≠ '"' := hne
        simp [doubled_cons, hc, ih htail]
      · exact hquote
      · exact hne

/-- What a field is read off is its text. -/
theorem of_readField {cs : List Char} {field : Field} {rest : List Char}
    (hread : readField cs = some (field, rest)) : ∃ ds, FieldText field ds ∧ cs = ds ++ rest := by
  unfold readField at hread
  split at hread
  · refine ⟨quoted field, .quoted, ?_⟩
    rw [of_readQuoted hread]
    simp [quoted]
  · obtain ⟨rfl, rfl⟩ := Prod.mk.inj (Option.some.inj hread)
    exact ⟨_, .bare fun c hc => List.mem_takeWhile_imp hc, (List.takeWhile_append_dropWhile).symm⟩

theorem of_readRecord {fuel : Nat} {cs : List Char} {fields : List Field} {rest : List Char}
    (hread : readRecord fuel cs = some (fields, rest)) :
    ∃ ds, RecordText fields ds ∧ cs = ds ++ rest := by
  induction fuel generalizing cs fields with
  | zero => cases hread
  | succ fuel ih =>
      rw [readRecord, Option.bind_eq_some_iff] at hread
      obtain ⟨⟨field, after⟩, hfield, hrest⟩ := hread
      obtain ⟨ds, htext, rfl⟩ := of_readField hfield
      dsimp only at hrest
      split at hrest
      · obtain ⟨⟨fields', rest'⟩, htail, heq⟩ := Option.map_eq_some_iff.mp hrest
        obtain ⟨rfl, rfl⟩ := Prod.mk.inj heq
        obtain ⟨es, hfields, rfl⟩ := ih htail
        exact ⟨_, .cons htext hfields, by simp⟩
      · obtain ⟨rfl, rfl⟩ := Prod.mk.inj (Option.some.inj hrest)
        exact ⟨ds, .last htext, rfl⟩

theorem of_readBreak {cs rest : List Char} (hread : readBreak cs = some rest) :
    ∃ brk, (brk = ['\n'] ∨ brk = ['\r', '\n']) ∧ cs = brk ++ rest := by
  unfold readBreak at hread
  split at hread
  · obtain rfl := Option.some.inj hread
    exact ⟨_, Or.inl rfl, rfl⟩
  · obtain rfl := Option.some.inj hread
    exact ⟨_, Or.inr rfl, rfl⟩
  · cases hread

theorem of_readTable {fuel : Nat} {cs : List Char} {table : List (List Field)}
    (hread : readTable fuel cs = some table) : TableText table cs := by
  induction fuel generalizing cs table with
  | zero => cases hread
  | succ fuel ih =>
      rw [readTable] at hread
      split at hread
      next hnil =>
        obtain rfl := Option.some.inj hread
        exact hnil ▸ .nil
      next hne =>
        obtain ⟨⟨fields, after⟩, hfields, hrest⟩ := Option.bind_eq_some_iff.mp hread
        obtain ⟨ds, htext, rfl⟩ := of_readRecord hfields
        dsimp only at hrest
        split at hrest
        next hnil =>
          obtain rfl := Option.some.inj hrest
          rw [hnil, List.append_nil] at hne ⊢
          exact .last htext hne
        · obtain ⟨rest, hbreak, htable⟩ := Option.bind_eq_some_iff.mp hrest
          obtain ⟨table', htail, rfl⟩ := Option.map_eq_some_iff.mp htable
          obtain ⟨brk, hbrk, rfl⟩ := of_readBreak hbreak
          exact .cons htext hbrk (ih htail)

/-! ## What is in the grammar is read -/

/-- A text that ends a bare field at its front. -/
def EndsField (cs : List Char) : Prop := ∀ c ∈ cs.head?, isBare c = false ∧ c ≠ '"'

theorem readQuoted_doubled (field : Field) {rest : List Char} (hrest : EndsField rest) :
    readQuoted (doubled field ++ '"' :: rest) = some (field, rest) := by
  induction field with
  | nil =>
      change readQuoted ('"' :: rest) = some ([], rest)
      rw [readQuoted]
      intro cs hcs
      exact (hrest '"' (by simp [hcs])).2 rfl
  | cons c field ih =>
      rw [doubled_cons, List.append_assoc]
      by_cases hc : c = '"'
      · subst hc
        simp [readQuoted, ih]
      · rw [if_neg hc, List.singleton_append, readQuoted, ih]
        · rfl
        · intro cs hquote
          exact absurd hquote hc
        · exact hc

theorem readField_text {field : Field} {cs : List Char} (hfield : FieldText field cs)
    {rest : List Char} (hrest : EndsField rest) : readField (cs ++ rest) = some (field, rest) := by
  cases hfield with
  | quoted =>
      have hsplit : quoted field ++ rest = '"' :: (doubled field ++ '"' :: rest) := by
        simp [quoted]
      rw [hsplit]
      exact readQuoted_doubled field hrest
  | bare hbare =>
      have hstop : ∀ c ∈ rest.head?, isBare c = false := fun c hc => (hrest c hc).1
      have htake : (field ++ rest).takeWhile isBare = field := by
        rw [List.takeWhile_append_of_pos hbare]
        cases rest with
        | nil => simp
        | cons c rest => simp [hstop c rfl]
      have hdrop : (field ++ rest).dropWhile isBare = rest := by
        rw [List.dropWhile_append_of_pos hbare]
        cases rest with
        | nil => rfl
        | cons c rest => simp [hstop c rfl]
      unfold readField
      split
      next hquote =>
        -- no field that is bare, and nothing behind one, starts with a quote
        cases field with
        | nil =>
            rw [List.nil_append] at hquote
            exact absurd rfl (hrest '"' (by simp [hquote])).2
        | cons c field =>
            obtain ⟨rfl, -⟩ := List.cons.inj hquote
            have := hbare '"' List.mem_cons_self
            cases this
      · rw [htake, hdrop]

/-- A text that ends a record at its front. -/
def EndsRecord (cs : List Char) : Prop := ∀ c ∈ cs.head?, c = '\n' ∨ c = '\r'

theorem EndsRecord.endsField {cs : List Char} (hcs : EndsRecord cs) : EndsField cs := by
  intro c hc
  rcases hcs c hc with rfl | rfl <;> decide

theorem endsField_comma (cs : List Char) : EndsField (',' :: cs) := by
  intro c hc
  obtain rfl : ',' = c := by simpa using hc
  decide

theorem readRecord_text {fields : List Field} {cs : List Char} (hfields : RecordText fields cs)
    {rest : List Char} (hrest : EndsRecord rest) {fuel : Nat} (hfuel : fields.length ≤ fuel) :
    readRecord fuel (cs ++ rest) = some (fields, rest) := by
  induction hfields generalizing fuel with
  | last hfield =>
      obtain ⟨fuel, rfl⟩ := Nat.exists_eq_add_of_le' (show 1 ≤ fuel from hfuel)
      rw [readRecord, readField_text hfield hrest.endsField, Option.bind_some]
      dsimp only
      split
      next after =>
        rcases hrest ',' rfl with h | h <;> cases h
      · rfl
  | @cons field fields cs ds hfield hfields ih =>
      rw [List.length_cons] at hfuel
      obtain ⟨fuel, rfl⟩ := Nat.exists_eq_add_of_le' (Nat.one_le_of_lt hfuel)
      rw [List.append_assoc, List.cons_append, readRecord,
        readField_text hfield (endsField_comma _), Option.bind_some]
      have hrecord := ih (Nat.le_of_succ_le_succ hfuel)
      simp only [hrecord, Option.map_some]

theorem RecordText.length_le {fields : List Field} {cs : List Char}
    (hfields : RecordText fields cs) : fields.length ≤ cs.length + 1 := by
  induction hfields with
  | last => simp
  | cons _ _ ih =>
      simp only [List.length_cons, List.length_append]
      omega

theorem TableText.length_le {table : List (List Field)} {cs : List Char}
    (htable : TableText table cs) : table.length ≤ cs.length := by
  induction htable with
  | nil => simp
  | last _ hne => exact List.length_pos_iff.mpr hne
  | cons _ hbrk _ ih =>
      rcases hbrk with rfl | rfl <;> simp only [List.length_cons, List.length_append] <;> omega

theorem readTable_text {table : List (List Field)} {cs : List Char} (htable : TableText table cs)
    {fuel : Nat} (hfuel : table.length < fuel) : readTable fuel cs = some table := by
  induction htable generalizing fuel with
  | nil =>
      obtain ⟨fuel, rfl⟩ := Nat.exists_eq_add_of_le' (Nat.one_le_of_lt hfuel)
      rfl
  | @last fields cs hfields hne =>
      obtain ⟨fuel, rfl⟩ := Nat.exists_eq_add_of_le' (Nat.one_le_of_lt hfuel)
      have hends : EndsRecord [] := by simp [EndsRecord]
      have hread := readRecord_text hfields hends hfields.length_le
      rw [List.append_nil] at hread
      simp only [readTable, if_neg hne, hread, Option.bind_some, if_pos]
  | @cons fields table cs brk ds hfields hbrk htable ih =>
      rw [List.length_cons] at hfuel
      obtain ⟨fuel, rfl⟩ := Nat.exists_eq_add_of_le' (Nat.one_le_of_lt hfuel)
      have hends : EndsRecord (brk ++ ds) := by
        rcases hbrk with rfl | rfl <;> simp [EndsRecord]
      have hbreak : readBreak (brk ++ ds) = some ds := by
        rcases hbrk with rfl | rfl <;> rfl
      have hrest : brk ++ ds ≠ [] := by
        rcases hbrk with rfl | rfl <;> simp
      have hlength : fields.length ≤ (cs ++ (brk ++ ds)).length + 1 := by
        have := hfields.length_le
        rw [List.length_append]
        omega
      rw [readTable, if_neg (List.append_ne_nil_of_right_ne_nil cs hrest),
        readRecord_text hfields hends hlength, Option.bind_some]
      dsimp only
      rw [if_neg hrest, hbreak, Option.bind_some, ih (by omega), Option.map_some]

/-- The reader reads a table exactly off its texts. -/
theorem read_eq_some_iff {cs : List Char} {table : List (List Field)} :
    read cs = some table ↔ TableText table cs :=
  ⟨of_readTable, fun htable => readTable_text htable (Nat.lt_succ_of_le htable.length_le)⟩

/-! ## Cells written with or without quotes -/

/-- A field and what is written for it. -/
structure Cell where
  field : Field
  text : List Char

/-- The field is written as it is or between quotes, whatever its characters are. -/
def Cell.Written (cell : Cell) : Prop := cell.text = cell.field ∨ cell.text = quoted cell.field

def recordText : List Cell → List Char
  | [] => []
  | [cell] => cell.text
  | cell :: cells => cell.text ++ ',' :: recordText cells

/-- Records that each end in a line feed. -/
def tableText (rows : List (List Cell)) : List Char :=
  rows.flatMap fun cells => recordText cells ++ ['\n']

theorem length_le_doubled (field : Field) : field.length ≤ (doubled field).length := by
  induction field with
  | nil => exact Nat.le_refl _
  | cons c field ih =>
      rw [doubled_cons, List.length_append, List.length_cons]
      split <;> simp only [List.length_cons, List.length_nil] <;> omega

theorem FieldText.bare_of_eq {field : Field} {cs : List Char} (hfield : FieldText field cs)
    (hcs : cs = field) : Bare field := by
  cases hfield with
  | bare hbare => exact hbare
  | quoted =>
      have hlength := congrArg List.length hcs
      have hle := length_le_doubled field
      simp only [Csv.quoted, List.length_cons, List.length_append] at hlength
      omega

/-- A field that is written as it is must be bare. -/
theorem fieldText_self {field : Field} : FieldText field field ↔ Bare field :=
  ⟨fun hfield => hfield.bare_of_eq rfl, .bare⟩

/-- The number of quotes at the front of a text. -/
def leadingQuotes (cs : List Char) : Nat := (cs.takeWhile (· = '"')).length

theorem leadingQuotes_quote (cs : List Char) :
    leadingQuotes ('"' :: cs) = leadingQuotes cs + 1 := by
  simp [leadingQuotes]

theorem leadingQuotes_other {c : Char} (hc : c ≠ '"') (cs : List Char) :
    leadingQuotes (c :: cs) = 0 := by
  simp [leadingQuotes, hc]

theorem leadingQuotes_append {stop : Char} (hstop : stop ≠ '"') (field : Field) (rest : List Char) :
    leadingQuotes (field ++ stop :: rest) = leadingQuotes field := by
  induction field with
  | nil => exact leadingQuotes_other hstop rest
  | cons c field ih =>
      rw [List.cons_append]
      by_cases hc : c = '"'
      · rw [hc, leadingQuotes_quote, leadingQuotes_quote, ih]
      · rw [leadingQuotes_other hc, leadingQuotes_other hc]

theorem le_leadingQuotes_doubled (field : Field) (rest : List Char) :
    2 * leadingQuotes field ≤ leadingQuotes (doubled field ++ rest) := by
  induction field with
  | nil => simp [leadingQuotes]
  | cons c field ih =>
      rw [doubled_cons, List.append_assoc]
      by_cases hc : c = '"'
      · subst hc
        simp only [if_true, List.cons_append, List.nil_append, leadingQuotes_quote]
        omega
      · rw [leadingQuotes_other hc]
        exact Nat.zero_le _

/-- A text of the field that goes on like a cell is that cell. -/
theorem FieldText.eq_cell {cell : Cell} (hcell : cell.Written) {cs after rest : List Char}
    {stop : Char} (hcs : FieldText cell.field cs) (hafter : ∀ c ∈ after.head?, c ≠ '"')
    (hstop : stop ≠ '"') (heq : cs ++ after = cell.text ++ stop :: rest) :
    cs = cell.text ∧ after = stop :: rest := by
  have hsame : cs = cell.text → cs = cell.text ∧ after = stop :: rest := fun h =>
    ⟨h, List.append_cancel_left (h ▸ heq)⟩
  cases hcs with
  | bare hbare =>
      rcases hcell with htext | htext
      · exact hsame htext.symm
      · -- what is bare does not start with a quote
        rw [htext] at heq
        cases hfield : cell.field with
        | nil =>
            rw [hfield] at heq
            exact absurd rfl (hafter '"' (by rw [List.nil_append] at heq; rw [heq]; rfl))
        | cons c field =>
            rw [hfield] at heq hbare
            obtain ⟨rfl, -⟩ := List.cons.inj heq
            have := hbare '"' List.mem_cons_self
            cases this
  | quoted =>
      rcases hcell with htext | htext
      · -- between quotes there are more quotes at the front than the field has
        rw [htext, Csv.quoted, List.cons_append, List.append_assoc] at heq
        have hcount := congrArg leadingQuotes heq
        rw [leadingQuotes_quote, leadingQuotes_append hstop] at hcount
        have := le_leadingQuotes_doubled cell.field (['"'] ++ after)
        omega
      · exact hsame htext.symm

theorem RecordText.cells {cells : List Cell} (hwritten : ∀ cell ∈ cells, cell.Written)
    {cs after rest : List Char} (hcs : RecordText (cells.map Cell.field) cs)
    (hafter : EndsRecord after) (heq : cs ++ after = recordText cells ++ '\n' :: rest) :
    (∀ cell ∈ cells, FieldText cell.field cell.text) ∧ after = '\n' :: rest := by
  induction cells generalizing cs with
  | nil => cases hcs
  | cons cell cells ih =>
      obtain ⟨hcell, hcells⟩ := List.forall_mem_cons.mp hwritten
      cases cells with
      | nil =>
          cases hcs with
          | last hfield =>
              obtain ⟨rfl, hafter⟩ := hfield.eq_cell hcell
                (fun c hc => (hafter.endsField c hc).2) (by decide) heq
              exact ⟨by simpa using hfield, hafter⟩
          | cons _ hfields => cases hfields
      | cons cell' cells =>
          cases hcs with
          | @cons _ _ cs ds hfield hfields =>
              have hsplit : cs ++ (',' :: (ds ++ after)) =
                  cell.text ++ ',' :: (recordText (cell' :: cells) ++ '\n' :: rest) := by
                simpa [recordText] using heq
              obtain ⟨rfl, hrest⟩ := hfield.eq_cell hcell (by simp) (by decide) hsplit
              obtain ⟨htail, hafter⟩ := ih hcells hfields (List.cons.inj hrest).2
              exact ⟨List.forall_mem_cons.mpr ⟨hfield, htail⟩, hafter⟩

theorem recordText_text {cells : List Cell} (hne : cells ≠ [])
    (hcells : ∀ cell ∈ cells, FieldText cell.field cell.text) :
    RecordText (cells.map Cell.field) (recordText cells) := by
  induction cells with
  | nil => exact absurd rfl hne
  | cons cell cells ih =>
      obtain ⟨hcell, hrest⟩ := List.forall_mem_cons.mp hcells
      cases cells with
      | nil => exact .last hcell
      | cons cell' cells => exact .cons hcell (ih (by simp) hrest)

/-- A written table is read back exactly if every cell is a text of its field. -/
theorem read_tableText_iff {rows : List (List Cell)} (hne : ∀ cells ∈ rows, cells ≠ [])
    (hwritten : ∀ cells ∈ rows, ∀ cell ∈ cells, cell.Written) :
    read (tableText rows) = some (rows.map (·.map Cell.field)) ↔
      ∀ cells ∈ rows, ∀ cell ∈ cells, FieldText cell.field cell.text := by
  rw [read_eq_some_iff]
  constructor
  · intro htable
    induction rows with
    | nil => simp
    | cons cells rows ih =>
        obtain ⟨-, hneRows⟩ := List.forall_mem_cons.mp hne
        obtain ⟨hcells, hrows⟩ := List.forall_mem_cons.mp hwritten
        have htext : tableText (cells :: rows) = recordText cells ++ '\n' :: tableText rows := by
          simp [tableText]
        rw [htext, List.map_cons] at htable
        generalize hmap : rows.map (·.map Cell.field) = table at htable
        generalize hcs : recordText cells ++ '\n' :: tableText rows = text at htable
        cases htable with
        | last hfields _ =>
            -- the record would have to end with the text, but a line feed is behind it
            have hends : EndsRecord [] := by simp [EndsRecord]
            obtain ⟨-, hafter⟩ := hfields.cells hcells hends (by rw [List.append_nil]; exact hcs.symm)
            cases hafter
        | @cons _ _ cs brk ds hfields hbrk htail =>
            have hends : EndsRecord (brk ++ ds) := by
              rcases hbrk with rfl | rfl <;> simp [EndsRecord]
            obtain ⟨hfirst, hafter⟩ := hfields.cells hcells hends hcs.symm
            rcases hbrk with rfl | rfl
            · obtain rfl : ds = tableText rows := (List.cons.inj hafter).2
              exact List.forall_mem_cons.mpr ⟨hfirst, ih hneRows hrows (hmap ▸ htail)⟩
            · cases hafter
  · intro hcells
    induction rows with
    | nil => exact .nil
    | cons cells rows ih =>
        obtain ⟨hneCells, hneRows⟩ := List.forall_mem_cons.mp hne
        obtain ⟨hfirst, hrest⟩ := List.forall_mem_cons.mp hcells
        have htext : tableText (cells :: rows) = recordText cells ++ (['\n'] ++ tableText rows) := by
          simp [tableText]
        rw [htext]
        exact .cons (recordText_text hneCells hfirst) (Or.inl rfl)
          (ih hneRows (List.forall_mem_cons.mp hwritten).2 hrest)

end Csv
