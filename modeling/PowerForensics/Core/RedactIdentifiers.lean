import PowerForensics.Core.RedactNumbers

/-! # Identifiers through redaction

A report goes through the names of its processes and then through seven scanners. An identifier
that stands in the report is followed up to the scanner that looks for it, which replaces some of
it, and what has been replaced does not come back. This fails next to the punctuation that the
scanner takes for a part of the identifier, and for the number of a process where another scanner
has put a mask in the place of its label.
-/

namespace PowerForensics.Redact

open Scanner

/-! ## The scanners in their order -/

section Order

variable {α β : Type} [Glyph α] [Glyph β]

/-- What a text goes through once the given tokens are replaced. -/
def finishRules : List Rule :=
  [pathRule, keyedRule, titledRule, guidRule, pidRule, macRule, ipv4Rule]

/-- One scan for each token, the first one of its value. -/
def itemRules : Option String → List RedactToken → List Rule
  | _, [] => []
  | last, item :: items =>
      if last = some item.value then itemRules last items
      else tokenRule item.value.toList item.placeholder.toList :: itemRules (some item.value) items

def nameRules (names : List String) : List Rule := itemRules none (items (processTokens names))

def scanAll (rules : List Rule) (text : List α) : List α :=
  rules.foldl (fun text rule => scan rule text) text

theorem maskItems_eq (last : Option String) (items : List RedactToken) (text : List α) :
    maskItems last items text = scanAll (itemRules last items) text := by
  induction items generalizing last text with
  | nil => rfl
  | cons item items ih =>
      rw [maskItems, itemRules]
      split
      · exact ih last text
      · exact ih (some item.value) _

theorem scanAll_append (first last : List Rule) (text : List α) :
    scanAll (first ++ last) text = scanAll last (scanAll first text) := List.foldl_append

theorem redactReport_eq (names : List String) (text : List α) :
    redactReport text names = scanAll (nameRules names ++ finishRules) text := by
  rw [scanAll_append, nameRules, ← maskItems_eq]
  rfl

/-- What the text has become when process numbers are looked for. -/
def beforePids (names : List String) (text : List α) : List α :=
  maskGuids (maskTitledLabels (maskKeyedIdentifiers (maskWindowsPaths
    (maskProcessNames names text))))

theorem redactReport_eq_pids (names : List String) (text : List α) :
    redactReport text names = scanAll [macRule, ipv4Rule] (scan pidRule (beforePids names text)) :=
  rfl

theorem beforePids_eq (names : List String) (text : List α) :
    beforePids names text =
      scanAll (nameRules names ++ [pathRule, keyedRule, titledRule, guidRule]) text := by
  rw [scanAll_append, nameRules, ← maskItems_eq]
  rfl

theorem scanAll_map {f : α → β} (hchar : ∀ x, char (f x) = char x)
    (hplain : ∀ c, f (plain c) = plain c) (rules : List Rule) (text : List α) :
    scanAll rules (text.map f) = (scanAll rules text).map f := by
  induction rules generalizing text with
  | nil => rfl
  | cons rule rules ih =>
      have hscan : scan rule (text.map f) = (scan rule text).map f := scan_map hchar hplain text
      rw [scanAll, List.foldl_cons, hscan]
      exact ih (scan rule text)

theorem scanAll_sublist {γ : Type} {g : α → Option γ} (hplain : ∀ c, g (plain c) = none)
    {rules : List Rule} (hsound : ∀ rule ∈ rules, Sound rule) (text : List α) :
    ((scanAll rules text).filterMap g).Sublist (text.filterMap g) := by
  induction rules generalizing text with
  | nil => exact List.Sublist.refl _
  | cons rule rules ih =>
      have hscan := (scans_scan (hsound rule List.mem_cons_self) text).filterMap_sublist hplain
      exact (ih (fun rule h => hsound rule (List.mem_cons_of_mem _ h)) (scan rule text)).trans hscan

theorem scanAll_of_quiet {rules : List Rule} {text : List α}
    (h : ∀ rule ∈ rules, Quiet rule none (chars text)) : scanAll rules text = text := by
  induction rules with
  | nil => rfl
  | cons rule rules ih =>
      rw [scanAll, List.foldl_cons, scan_of_quiet (h rule List.mem_cons_self)]
      exact ih fun rule hrule => h rule (List.mem_cons_of_mem _ hrule)

end Order

theorem sound_finishRules : ∀ rule ∈ finishRules, Sound rule := by
  simp only [finishRules, List.forall_mem_cons]
  exact ⟨masking_path.sound, heading_keyed.sound, heading_titled.sound, masking_guid.sound,
    heading_pid.sound, masking_mac.sound, masking_ipv4.sound, fun _ h => by cases h⟩

theorem inkOf_scanAll_le {rules : List Rule} (hsound : ∀ rule ∈ rules, Sound rule)
    (text : List Inked) : inkOf (scanAll rules text) ≤ inkOf text := by
  induction rules generalizing text with
  | nil => exact le_refl _
  | cons rule rules ih =>
      have hrule := inkOf_scan_le (hsound rule List.mem_cons_self) text
      have hrest := ih (fun rule h => hsound rule (List.mem_cons_of_mem _ h)) (scan rule text)
      exact hrest.trans hrule

/-! ## Process names -/

/-- Names of processes are replaced by numbers in their order. -/
theorem head_of_processTokens {names : List String} {item : RedactToken}
    (h : item ∈ items (processTokens names)) : item.placeholder.toList.head? = some 'p' := by
  rw [items, List.mem_insertionSort, List.mem_filter] at h
  obtain ⟨t, ht, rfl⟩ := List.mem_map.mp h.1
  obtain ⟨n, -, rfl⟩ := List.mem_map.mp ht
  have hname : (s!"process-{n.2 + 1}" : String).toList =
      "process-".toList ++ (toString (n.2 + 1)).toList := by
    simp [String.toList_append, toString]
  have hhead : "process-".toList.head? = some 'p' := by decide
  simp only [hname, List.head?_append, hhead, Option.some_or]

theorem mem_itemRules {last : Option String} {items : List RedactToken} {rule : Rule}
    (h : rule ∈ itemRules last items) :
    ∃ item ∈ items, rule = tokenRule item.value.toList item.placeholder.toList := by
  induction items generalizing last with
  | nil => cases h
  | cons item items ih =>
      rw [itemRules] at h
      split at h
      · obtain ⟨item', hitem', hrule⟩ := ih h
        exact ⟨item', List.mem_cons_of_mem _ hitem', hrule⟩
      · obtain rfl | h := List.mem_cons.mp h
        · exact ⟨item, List.mem_cons_self, rfl⟩
        · obtain ⟨item', hitem', hrule⟩ := ih h
          exact ⟨item', List.mem_cons_of_mem _ hitem', hrule⟩

theorem sound_nameRules (names : List String) : ∀ rule ∈ nameRules names, Sound rule := by
  intro rule h
  obtain ⟨item, -, rfl⟩ := mem_itemRules h
  exact sound_token _ _

theorem sound_before (names : List String) :
    ∀ rule ∈ nameRules names ++ [pathRule, keyedRule, titledRule, guidRule], Sound rule :=
  List.forall_mem_append.mpr ⟨sound_nameRules names,
    fun rule h => sound_finishRules rule (List.mem_of_mem_take (i := 4) h)⟩

section Runs

variable {kind : Kind} {tok : List Char} {text : List Inked}

theorem left_none (kind : Kind) : kind.left none := ⟨rfl, fun _ h => by cases h⟩

theorem Kind.Found.ne_nil (h : kind.Found tok) : tok ≠ [] := by
  obtain ⟨c, hc, -⟩ := head_alphanum h
  exact List.ne_nil_of_mem (List.mem_of_mem_head? hc)

theorem spares_nameRules (htok : kind.Found tok) (names : List String) :
    ∀ rule ∈ nameRules names, Spares rule tok kind.left kind.right := by
  intro rule h
  obtain ⟨item, hitem, rfl⟩ := mem_itemRules h
  have hhead := head_of_processTokens hitem
  obtain ⟨c, hc, halphanum, -⟩ := head_alphanum htok
  refine spares_token ⟨c, hc, halphanum⟩ ?_ (hhead ▸ (left_of_mask kind).2.2.2.2)
  exact List.ne_nil_of_mem (List.mem_of_mem_head? hhead)

theorem tracked_scanAll {rules : List Rule} (htok : kind.Found tok)
    (hsound : ∀ rule ∈ rules, Sound rule)
    (hspares : ∀ rule ∈ rules, Spares rule tok kind.left kind.right)
    (h : Tracked tok kind.left kind.right text) :
    Tracked tok kind.left kind.right (scanAll rules text) := by
  induction rules generalizing text with
  | nil => exact h
  | cons rule rules ih =>
      exact ih (fun rule h => hsound rule (List.mem_cons_of_mem _ h))
        (fun rule h => hspares rule (List.mem_cons_of_mem _ h))
        (h.scan (hsound rule List.mem_cons_self) (hspares rule List.mem_cons_self) htok.ne_nil
          (left_none kind))

/-! ## Addresses -/

/-- The scanners before the one that looks for an address spare it. -/
theorem finishRules_split (htok : kind.Found tok) (hkind : kind ≠ .pid) :
    ∃ first last, finishRules = first ++ kind.rule :: last ∧
      (∀ rule ∈ first, Spares rule tok kind.left kind.right) ∧
      Catches kind.rule tok kind.left kind.right := by
  have hpath := spares_mask kind masking_path tok
  have hkeyed := spares_keyed htok
  have htitled := spares_titled htok
  have hguid := spares_mask kind masking_guid tok
  have hmac := spares_mask kind masking_mac tok
  have hpid := spares_pid htok hkind
  cases kind with
  | pid => exact absurd rfl hkind
  | guid => exact ⟨[pathRule, keyedRule, titledRule], _, rfl, by simp [*], catches_guid htok⟩
  | mac =>
      exact ⟨[pathRule, keyedRule, titledRule, guidRule, pidRule], _, rfl, by simp [*],
        catches_mac htok⟩
  | ipv4 =>
      exact ⟨[pathRule, keyedRule, titledRule, guidRule, pidRule, macRule], _, rfl, by simp [*],
        catches_ipv4 htok⟩

/-- A whole address with no punctuation next to it that its scanner takes for a part of it does
not survive. -/
theorem not_survives_of_detached (names : List String) {before after : List Char}
    (htok : kind.Found tok) (hkind : kind ≠ .pid) (hwhole : Whole before after)
    (hdetached : Detached kind before after) : ¬Survives names before tok after := by
  obtain ⟨first, last, hsplit, hspares, hcatches⟩ := finishRules_split htok hkind
  have hsound := sound_finishRules
  rw [hsplit] at hsound
  have hmarked : Tracked tok kind.left kind.right (marked before tok after) :=
    tracked_of_marked ⟨hwhole.1, hdetached.1⟩ ⟨Or.inl hwhole.2, hdetached.2⟩
  have htracked := @tracked_scanAll _ _ _ (nameRules names ++ first) htok
    (List.forall_mem_append.mpr ⟨sound_nameRules names,
      fun rule h => hsound rule (List.mem_append_left _ h)⟩)
    (List.forall_mem_append.mpr ⟨spares_nameRules htok names, hspares⟩) hmarked
  have hcaught := htracked.caught
    (hsound _ (List.mem_append_right _ List.mem_cons_self)) hcatches htok.ne_nil
  refine not_infix_of_inkOf_lt (lt_of_le_of_lt ?_ hcaught)
  rw [redactReport_eq, hsplit, ← List.append_assoc, scanAll_append]
  exact inkOf_scanAll_le (fun rule h => hsound rule
    (List.mem_append_right _ (List.mem_cons_of_mem _ h))) _

end Runs

/-! ## Process numbers -/

/-- The scanners before that of the process numbers leave what stands before a text as it is. -/
def Unmasked (names : List String) (before lead rest : List Char) : Prop :=
  ink lead <:+: beforePids names (marked before lead rest)

/-- A number behind a label that the other scanners leave does not survive. -/
theorem not_survives_of_unmasked (names : List String)
    {before label separators digits after : List Char}
    (hlabel : label.map Char.toLower ∈ ["ppid".toList, "pid".toList])
    (hseparators : ∀ c ∈ separators, isPidSeparator c) (hne : digits ≠ [])
    (hdigits : ∀ c ∈ digits, c.isDigit) (hwhole : Whole before after)
    (hdetached : Detached .pid before after)
    (hunmasked : Unmasked names before (label ++ separators) (digits ++ after)) :
    ¬Survives names (before ++ (label ++ separators)) digits after := by
  intro hsurvives
  have htok : Kind.pid.Found (label ++ separators ++ digits) :=
    ⟨label, separators, digits, hlabel, hseparators, hne, hdigits, rfl⟩
  have hspares : ∀ rule ∈ nameRules names ++ [pathRule, keyedRule, titledRule, guidRule],
      Spares rule (label ++ separators ++ digits) (Kind.left .pid) (Kind.right .pid) := by
    refine List.forall_mem_append.mpr ⟨spares_nameRules htok names, ?_⟩
    simp only [List.forall_mem_cons]
    exact ⟨spares_mask .pid masking_path _, spares_keyed htok, spares_titled htok,
      spares_mask .pid masking_guid _, fun _ h => by cases h⟩
  have hsound := sound_before names
  let text := Parted.text before (label ++ separators) digits after
  let u := beforePids names text
  have hseen : ∀ parts, .other ∉ parts →
      beforePids names (text.map (Parted.seen parts)) = u.map (Parted.seen parts) := by
    intro parts hother
    have hplain : ∀ c, Parted.seen parts (plain c) = plain c := fun c => by
      simp [Parted.seen, plain, hother]
    unfold u
    rw [beforePids_eq, beforePids_eq]
    exact scanAll_map (f := Parted.seen parts) (fun _ => rfl) hplain _ text
  have htoken := hseen [.token] (by decide)
  have hlead := hseen [.lead] (by decide)
  have hboth := hseen [.lead, .token] (by decide)
  rw [Parted.seen_token] at htoken
  rw [Parted.seen_lead] at hlead
  rw [Parted.seen_both] at hboth
  -- Both of them are whole, so they stand next to each other.
  have hmarked : Tracked (label ++ separators ++ digits) (Kind.left .pid) (Kind.right .pid)
      (plainText before ++ ink (label ++ separators ++ digits) ++ plainText after) :=
    tracked_of_marked ⟨hwhole.1, hdetached.1⟩ ⟨Or.inl hwhole.2, hdetached.2⟩
  have htracked := tracked_scanAll htok hsound hspares hmarked
  rw [← beforePids_eq, hboth] at htracked
  have hleadInk : (label ++ separators).length ≤ inkOf (u.map (Parted.seen [.lead])) := by
    have hle := inkOf_le_of_sublist hunmasked.sublist
    rwa [inkOf_ink, marked, hlead] at hle
  have hfinal : inkOf (redactReport (marked (before ++ (label ++ separators)) digits after) names) ≤
      inkOf (scan pidRule (u.map (Parted.seen [.token]))) := by
    rw [redactReport_eq_pids, marked, htoken]
    refine inkOf_scanAll_le (fun rule h => sound_finishRules rule ?_) _
    exact List.mem_of_mem_drop (i := 5) h
  have hsurvived := inkOf_le_of_sublist hsurvives.sublist
  rw [inkOf_ink] at hsurvived
  have hsum := Parted.inkOf_seen u
  have hpids := inkOf_scan_le heading_pid.sound (u.map (Parted.seen [.token]))
  have hlength := htracked.le
  rw [List.length_append] at hlength
  have hall : inkOf (u.map (Parted.seen [.lead, .token])) =
      (label ++ separators ++ digits).length := by
    rw [List.length_append]
    omega
  obtain ⟨front, back, hstands, hleft, hright⟩ := htracked.stands hall
  have howner := scanAll_sublist (g := Parted.owner) (fun _ => rfl) hsound text
  rw [← beforePids_eq, Parted.owner_text] at howner
  have hsplit := Parted.of_stands howner hall hstands
  have hcaught := (scans_scan heading_pid.sound (u.map (Parted.seen [.token]))).caught_behind
    (catchesBehind_pid hlabel hseparators hne hdigits) (plainText (chars front))
    (plainText (chars back)) (by rw [hsplit]; simp [plainText])
    (by rwa [lastChar_plainText]) (by rwa [firstChar_plainText])
  omega

/-! ## What the redaction leaves -/

/-- A decimal number. -/
def IsNumber (tok : List Char) : Prop := tok ≠ [] ∧ ∀ c ∈ tok, c.isDigit

namespace Kind

def Is : Kind → List Char → Prop
  | ipv4 => IsIpv4
  | mac => IsMac
  | guid => IsGuid
  | pid => IsNumber

/-- What stands before a token of the kind: a label and anything but letters and digits before a
process number, nothing before an address. -/
def Leads : Kind → List Char → Prop
  | pid, lead => ∃ label gap, label.map Char.toLower ∈ ["ppid".toList, "pid".toList] ∧
      (∀ c ∈ gap, c.isAlphanum = false) ∧ lead = label ++ gap
  | _, lead => lead = []

/-- What joins the groups of a token. -/
def separators : Kind → List Char
  | ipv4 => ['.']
  | mac => [':', '-']
  | guid => ['-']
  | pid => []

def isGroupChar : Kind → Char → Bool
  | ipv4 | pid => Char.isDigit
  | mac | guid => isHex

/-- The token is part of a longer form of its kind. -/
def Longer (kind : Kind) (before after : List Char) : Prop :=
  (∃ rest d, ∃ c ∈ kind.separators, before = rest ++ [d, c] ∧ kind.isGroupChar d) ∨
    ∃ c ∈ kind.separators, ∃ d rest, after = c :: d :: rest ∧ kind.isGroupChar d

/-- Whole tokens of the kind that are not part of a longer form are removed. -/
def Removed (kind : Kind) (names : List String) (before lead tok after : List Char) : Prop :=
  kind.Leads lead → kind.Is tok → Whole before after → ¬kind.Longer before after →
    ¬Survives names (before ++ lead) tok after

/-- Where the punctuation is another one and the label of a process number is left to its
scanner, a whole token is removed. -/
theorem removed_of_detached (kind : Kind) {names : List String} {before lead tok after : List Char}
    (hgap : ∀ c ∈ lead, c.isAlphanum = false → kind = pid → isPidSeparator c)
    (hdetached : Detached kind before after)
    (hunmasked : Unmasked names before lead (tok ++ after)) :
    kind.Removed names before lead tok after := by
  intro hlead htok hwhole _
  cases kind with
  | pid =>
      obtain ⟨label, gap, hlabel, hplain, rfl⟩ := hlead
      exact not_survives_of_unmasked names hlabel
        (fun c hc => hgap c (List.mem_append_right _ hc) (hplain c hc) rfl) htok.1 htok.2 hwhole
        hdetached hunmasked
  | ipv4 =>
      obtain rfl : lead = [] := hlead
      have hfound : Kind.ipv4.Found tok := htok
      rw [List.append_nil]
      exact not_survives_of_detached names hfound (by simp) hwhole hdetached
  | mac =>
      obtain rfl : lead = [] := hlead
      have hfound : Kind.mac.Found tok := htok
      rw [List.append_nil]
      exact not_survives_of_detached names hfound (by simp) hwhole hdetached
  | guid =>
      obtain rfl : lead = [] := hlead
      have hfound : Kind.guid.Found tok := htok
      rw [List.append_nil]
      exact not_survives_of_detached names hfound (by simp) hwhole hdetached

/-! ## Samples -/

def lead : Kind → List Char
  | pid => "pid ".toList
  | _ => []

/-- An example of the kind. The groups of a hardware address have another separator than the
character next to it. -/
def sample : Kind → Char → List Char
  | ipv4, _ => "10.0.0.1".toList
  | mac, ':' => "00-1a-2b-3c-4d-5e".toList
  | mac, _ => "00:1a:2b:3c:4d:5e".toList
  | guid, _ => "01234567-89ab-cdef-0123-456789abcdef".toList
  | pid, _ => "55".toList

theorem lead_leads (kind : Kind) : kind.Leads kind.lead := by
  cases kind with
  | pid => exact ⟨"pid".toList, [' '], by decide⟩
  | _ => rfl

theorem sample_is (kind : Kind) (c : Char) : kind.Is (kind.sample c) := by
  cases kind with
  | ipv4 =>
      have hipv4 : IsIpv4 "10.0.0.1".toList :=
        ⟨["10".toList, "0".toList, "0".toList, "1".toList], by decide⟩
      exact hipv4
  | mac =>
      by_cases hc : c = ':'
      · subst hc
        exact ⟨'-', by decide, ["00".toList, "1a".toList, "2b".toList, "3c".toList, "4d".toList,
          "5e".toList], by decide⟩
      · have hsample : mac.sample c = "00:1a:2b:3c:4d:5e".toList := by
          unfold sample
          split <;> simp_all
        rw [hsample]
        exact ⟨':', by decide, ["00".toList, "1a".toList, "2b".toList, "3c".toList, "4d".toList,
          "5e".toList], by decide⟩
  | guid =>
      have hguid : IsGuid "01234567-89ab-cdef-0123-456789abcdef".toList :=
        ⟨["01234567".toList, "89ab".toList, "cdef".toList, "0123".toList,
          "456789abcdef".toList], by decide⟩
      exact hguid
  | pid =>
      have hnumber : IsNumber "55".toList := ⟨by decide, by decide⟩
      exact hnumber

end Kind

/-- The report is left as it is. -/
theorem survives_of_eq {names : List String} {before tok after : List Char}
    (h : redactReport (marked before tok after) names = marked before tok after) :
    Survives names before tok after :=
  ⟨plainText before, plainText after, h.symm⟩

theorem unmasked_of_eq {names : List String} {before lead rest : List Char}
    (h : beforePids names (marked before lead rest) = marked before lead rest) :
    Unmasked names before lead rest :=
  ⟨plainText before, plainText rest, h.symm⟩

namespace Kind

/-- What the redaction leaves as it is: the samples next to what joins groups, and an address at
the end of a sentence. -/
theorem redacted_samples :
    (∀ kind ∈ [ipv4, mac, guid, pid], (∀ c ∈ joinsBefore kind,
      redactReport (marked ([c] ++ lead kind) (sample kind c) []) [] =
          marked ([c] ++ lead kind) (sample kind c) [] ∧
        beforePids [] (marked [c] (lead kind) (sample kind c)) =
          marked [c] (lead kind) (sample kind c)) ∧
      ∀ c ∈ joinsAfter kind,
        redactReport (marked (lead kind) (sample kind c) [c]) [] =
            marked (lead kind) (sample kind c) [c] ∧
          lead kind = []) ∧
    redactReport (marked "ping ".toList "10.0.0.1".toList ". Then".toList) [] =
      marked "ping ".toList "10.0.0.1".toList ". Then".toList := by
  decide +kernel

theorem joins_edge (kind : Kind) : ∀ c ∈ kind.joinsBefore ++ kind.joinsAfter, Edge (some c) := by
  cases kind <;> decide

theorem not_longer_single (kind : Kind) (c : Char) :
    ¬kind.Longer [c] [] ∧ ¬kind.Longer [] [c] := by
  refine ⟨?_, ?_⟩ <;> rintro (⟨rest, d, e, -, hbefore, -⟩ | ⟨e, -, d, rest, hafter, -⟩)
  · simpa using congrArg List.length hbefore
  · cases hafter
  · simpa using congrArg List.length hbefore
  · cases hafter

end Kind

/-! ## Gaps -/

theorem guidRule_short (prev : Option Char) {text : List Char} (hshort : text.length < 32) :
    guidRule prev text = none := by
  have hle := (List.takeWhile_sublist (fun c => isHex c || c = '-') (l := text)).length_le
  exact if_neg fun h => by
    obtain ⟨h, -⟩ | ⟨h, -⟩ := h.2.2 <;> omega

theorem quiet_guid (prev : Option Char) {text : List Char} (hshort : text.length < 32) :
    Quiet guidRule prev text := by
  induction text generalizing prev with
  | nil => trivial
  | cons c text ih =>
      rw [List.length_cons] at hshort
      exact ⟨guidRule_short prev (by simpa using hshort), ih (some c) (by omega)⟩

/-- What is known of a character that is no letter, digit or separator and has no part in a path,
a key, an identifier or an address. -/
structure Foreign (c : Char) : Prop where
  digit : c.isDigit = false
  hex : isHex c = false
  word : isWord c = false
  separator : isPidSeparator c = false
  colon : c ≠ ':'
  dash : c ≠ '-'
  backslash : c ≠ '\\'

theorem foreign_of_gap {c : Char} (hc : c.isAlphanum = false) (hsep : isPidSeparator c = false)
    (hspecial : c ∉ ['_', '-', '\\']) : Foreign c := by
  obtain ⟨hunderscore, hdash, hbackslash⟩ : c ≠ '_' ∧ c ≠ '-' ∧ c ≠ '\\' := by
    simpa using hspecial
  have hdigit : c.isDigit = false := (Bool.or_eq_false_iff.mp hc).2
  have hhex : isHex c = false := by
    by_contra h
    rw [isAlphanum_of_isHex (Bool.eq_true_of_not_eq_false h)] at hc
    cases hc
  refine ⟨hdigit, hhex, by simp [isWord, hc, hunderscore], hsep, ?_, hdash, hbackslash⟩
  rintro rfl
  revert hsep
  decide

theorem quiet_keyed {c : Char} (h : Foreign c) :
    Quiet keyedRule none ['p', 'i', 'd', c, '7'] := by
  have hletters : isWord 'p' ∧ isWord 'i' ∧ isWord 'd' ∧ isWord '7' := by decide
  have hkeys : keyPlaceholder ['p', 'i', 'd'] = none ∧ keyPlaceholder ['7'] = none := by
    decide +kernel
  refine ⟨keyedRule_eq_none ?_, keyedRule_eq_none ?_, keyedRule_eq_none ?_,
    keyedRule_eq_none ?_, keyedRule_eq_none ?_, trivial⟩
  all_goals simp [h.word, hletters, hkeys]

theorem quiet_pid {c : Char} (h : Foreign c) : Quiet pidRule none ['p', 'i', 'd', c, '7'] := by
  have hlabel : pidLabel ['p', 'i', 'd', c, '7'] = some "pid" ∧ pidLabel ['7'] = none :=
    ⟨rfl, rfl⟩
  have hwords : isWord 'p' ∧ isWord 'i' ∧ isWord 'd' := by decide
  refine ⟨?_, if_pos hwords.1, if_pos hwords.2.1, if_pos hwords.2.2, ?_, trivial⟩
  · have hrest : ['p', 'i', 'd', c, '7'].drop "pid".length = [c, '7'] := rfl
    have hnothing : [c, '7'].takeWhile isPidSeparator = [] ∧
        [c, '7'].takeWhile Char.isDigit = [] := by simp [h.separator, h.digit]
    simp only [pidRule, hlabel.1, Option.any_none, Bool.false_eq_true, if_false,
      Option.bind_eq_bind, Option.bind_some, hrest, hnothing.1, List.length_nil, List.drop_zero,
      hnothing.2, if_true]
  · rw [pidRule, hlabel.2]
    simp [h.word]

/-- A label that another character separates from its number is left by every scanner. -/
theorem quiet_gap {c : Char} (hc : c.isAlphanum = false) (hsep : isPidSeparator c = false) :
    ∀ rule ∈ finishRules, Quiet rule none ['p', 'i', 'd', c, '7'] := by
  by_cases hspecial : c ∈ ['_', '-', '\\']
  · simp only [List.mem_cons, List.not_mem_nil, or_false] at hspecial
    obtain rfl | rfl | rfl := hspecial <;> decide +kernel
  · have h := foreign_of_gap hc hsep hspecial
    simp only [finishRules, List.forall_mem_cons]
    refine ⟨?_, quiet_keyed h, ?_, quiet_guid none (by simp), quiet_pid h, ?_, ?_, by simp⟩
    · simp [Quiet, pathRule, driveRule, uncRule, profileRule, startsWithCi, h.backslash, h.colon]
    · simp [Quiet, titledRule, titleRule]
    · simp [Quiet, macRule, h.hex, h.dash, h.colon]
    · simp [Quiet, ipv4Rule, h.digit, ipv4Groups]

/-- A number is left behind a character that its scanner does not take for a separator. -/
theorem gap_survives {c : Char} (hc : c.isAlphanum = false) (hsep : isPidSeparator c = false) :
    Survives [] ("pid".toList ++ [c]) "7".toList [] ∧
      Unmasked [] [] ("pid".toList ++ [c]) "7".toList := by
  have hchars : chars (marked [] ("pid".toList ++ [c]) "7".toList) = ['p', 'i', 'd', c, '7'] ∧
      chars (marked ("pid".toList ++ [c]) "7".toList []) = ['p', 'i', 'd', c, '7'] := by
    simp [marked, plainText]
  have hquiet := quiet_gap hc hsep
  have hnames : nameRules [] = [] := rfl
  refine ⟨survives_of_eq ?_, unmasked_of_eq ?_⟩
  · rw [redactReport_eq, hnames, List.nil_append]
    exact scanAll_of_quiet (hchars.2 ▸ hquiet)
  · rw [beforePids_eq, hnames, List.nil_append]
    exact scanAll_of_quiet (hchars.1 ▸ fun rule h => hquiet rule (List.mem_of_mem_take (i := 4) h))

/-! ## The result -/

/-- A mask in the place of the label leaves the number: that of a keyed value, of a path, of a
title and of a process name. -/
example : Survives [] "name: pid ".toList "4242".toList [] ∧
    Survives [] "C:\\pid ".toList "4242".toList [] ∧
    Survives [] "DASHBOARD pid  ".toList "4242".toList [] ∧
    Survives ["pid"] "pid ".toList "4242".toList [] := by
  unfold Survives
  decide +kernel

end PowerForensics.Redact
