import PowerForensics.Text.Scanner

/-! # Scans line by line

A scan goes through a part of a text as it would go through that part alone, as long as the rule
sees no difference at the places that it is asked about. So a rule that does not look beyond the
end of a line, and takes the beginning of a line for the beginning of a text, rewrites a text line
by line.
-/

namespace Scanner

/-! ## Lines -/

/-- What stands between the line feeds of a text. -/
def pieces (text : List Char) : List (List Char) := text.splitOn '\n'

def ofPieces (ls : List (List Char)) : List Char := ['\n'].intercalate ls

@[simp] theorem ofPieces_pieces (text : List Char) : ofPieces (pieces text) = text :=
  List.intercalate_splitOn '\n'

theorem pieces_ofPieces {ls : List (List Char)} (hne : ls ≠ []) (hls : ∀ l ∈ ls, '\n' ∉ l) :
    pieces (ofPieces ls) = ls :=
  List.splitOn_intercalate '\n' hls hne

theorem pieces_ne_nil (text : List Char) : pieces text ≠ [] := List.splitOn_ne_nil '\n' text

theorem not_mem_pieces {text line : List Char} (hline : line ∈ pieces text) : '\n' ∉ line := by
  induction text generalizing line with
  | nil =>
      obtain rfl : line = [] := by simpa [pieces, List.splitOn_nil] using hline
      exact List.not_mem_nil
  | cons c text ih =>
      rw [pieces, List.splitOn_cons_eq_if_modifyHead] at hline
      split at hline
      next =>
        obtain rfl | hline := List.mem_cons.mp hline
        · exact List.not_mem_nil
        · exact ih hline
      next hc =>
        obtain ⟨first, rest, hsplit⟩ := List.exists_cons_of_ne_nil (pieces_ne_nil text)
        have hin : ∀ l ∈ first :: rest, '\n' ∉ l := fun l hl => ih (hsplit ▸ hl)
        rw [pieces] at hsplit
        rw [hsplit, List.modifyHead_cons] at hline
        obtain rfl | hline := List.mem_cons.mp hline
        · have hne : '\n' ≠ c := by
            rintro rfl
            simp at hc
          simpa [hne] using hin first List.mem_cons_self
        · exact hin line (List.mem_cons_of_mem first hline)

@[simp] theorem ofPieces_nil : ofPieces [] = [] := rfl

@[simp] theorem ofPieces_singleton (l : List Char) : ofPieces [l] = l := List.intercalate_singleton

theorem ofPieces_cons (l : List Char) {ls : List (List Char)} (hls : ls ≠ []) :
    ofPieces (l :: ls) = l ++ '\n' :: ofPieces ls := by
  rw [ofPieces, List.intercalate_cons_of_ne_nil hls, List.append_assoc]
  rfl

/-! ## Places -/

section Places

variable {rule : Rule}

/-- The places at which a scan asks its rule, with the characters before and behind. -/
def visited (rule : Rule) : Nat → Option Char → List Char → List (Option Char × List Char)
  | _, _, [] => []
  | skip + 1, _, c :: rest => visited rule skip (some c) rest
  | 0, prev, c :: rest =>
      (prev, c :: rest) ::
        match rule prev (c :: rest) with
        | some p => visited rule (p.size - 1) (some c) rest
        | none => visited rule 0 (some c) rest

/-- The rule sees no difference when more text follows. -/
def Agrees (rule : Rule) (tail : List Char) (v : Option Char × List Char) : Prop :=
  rule v.1 (v.2 ++ tail) = rule v.1 v.2

theorem visited_suffix {skip : Nat} {prev : Option Char} {text : List Char}
    {v : Option Char × List Char} (hv : v ∈ visited rule skip prev text) : v.2 <:+ text := by
  induction text generalizing skip prev with
  | nil => cases skip <;> simp [visited] at hv
  | cons c rest ih =>
      cases skip with
      | succ skip => exact (ih hv).trans (List.suffix_cons c rest)
      | zero =>
          rw [visited, List.mem_cons] at hv
          obtain rfl | hv := hv
          · exact List.suffix_rfl
          · split at hv
            · exact (ih hv).trans (List.suffix_cons c rest)
            · exact (ih hv).trans (List.suffix_cons c rest)

/-- Where the rule sees no difference, a text in front is scanned by itself. -/
theorem scanFrom_front (hsound : Sound rule) {skip : Nat} {prev : Option Char}
    {front tail : List Char} (hskip : skip ≤ front.length)
    (hagree : ∀ v ∈ visited rule skip prev front, Agrees rule tail v) :
    scanFrom rule skip prev (front ++ tail) =
      scanFrom rule skip prev front ++ scanFrom rule 0 (lastChar prev front) tail := by
  induction front generalizing skip prev with
  | nil =>
      obtain rfl : skip = 0 := Nat.le_zero.mp hskip
      simp [scanFrom]
  | cons c front ih =>
      rw [lastChar_cons]
      cases skip with
      | succ skip => exact ih (Nat.le_of_succ_le_succ hskip) hagree
      | zero =>
          rw [visited, List.forall_mem_cons] at hagree
          obtain ⟨hhere, hagree⟩ := hagree
          have hhere : rule prev (c :: (front ++ tail)) = rule prev (c :: front) := hhere
          simp only [List.cons_append, scanFrom, chars_char, hhere]
          cases hp : rule prev (c :: front) with
          | none =>
              rw [hp] at hagree
              simp only [List.cons_append]
              rw [show char c = c from rfl, ih (Nat.zero_le _) hagree]
          | some p =>
              rw [hp] at hagree
              obtain ⟨hpos, hle⟩ := hsound _ _ _ hp
              rw [List.length_cons] at hle
              have htake : (c :: (front ++ tail)).take p.size = (c :: front).take p.size := by
                rw [← List.cons_append, List.take_append_of_le_length (by simpa using hle)]
              simp only [htake, List.append_assoc]
              rw [show char c = c from rfl, ih (by omega) hagree]

theorem visited_front (hsound : Sound rule) {skip : Nat} {prev : Option Char}
    {front tail : List Char} (hskip : skip ≤ front.length)
    (hagree : ∀ v ∈ visited rule skip prev front, Agrees rule tail v) :
    visited rule skip prev (front ++ tail) =
      (visited rule skip prev front).map (fun v => (v.1, v.2 ++ tail)) ++
        visited rule 0 (lastChar prev front) tail := by
  induction front generalizing skip prev with
  | nil =>
      obtain rfl : skip = 0 := Nat.le_zero.mp hskip
      simp [visited]
  | cons c front ih =>
      rw [lastChar_cons]
      cases skip with
      | succ skip => exact ih (Nat.le_of_succ_le_succ hskip) hagree
      | zero =>
          rw [visited, List.forall_mem_cons] at hagree
          obtain ⟨hhere, hagree⟩ := hagree
          have hhere : rule prev (c :: (front ++ tail)) = rule prev (c :: front) := hhere
          simp only [List.cons_append, visited, hhere]
          cases hp : rule prev (c :: front) with
          | none =>
              rw [hp] at hagree
              rw [ih (Nat.zero_le _) hagree]
              rfl
          | some p =>
              rw [hp] at hagree
              obtain ⟨hpos, hle⟩ := hsound _ _ _ hp
              rw [List.length_cons] at hle
              dsimp only
              rw [ih (by omega) hagree]
              rfl

/-- Of the places of a text in front that have some property, the first is visited also when more
text follows, if the rule sees no difference at the others. -/
theorem exists_visited (hsound : Sound rule) {Q : Option Char × List Char → Prop} {skip : Nat}
    {prev : Option Char} {front tail : List Char} (hskip : skip ≤ front.length)
    (hagree : ∀ v ∈ visited rule skip prev front, ¬Q v → Agrees rule tail v)
    (hexists : ∃ v ∈ visited rule skip prev front, Q v) :
    ∃ v ∈ visited rule skip prev front, Q v ∧
      (v.1, v.2 ++ tail) ∈ visited rule skip prev (front ++ tail) := by
  induction front generalizing skip prev with
  | nil =>
      obtain ⟨v, hv, _⟩ := hexists
      cases skip <;> simp [visited] at hv
  | cons c front ih =>
      cases skip with
      | succ skip => exact ih (Nat.le_of_succ_le_succ hskip) hagree hexists
      | zero =>
          by_cases hfirst : Q (prev, c :: front)
          · exact ⟨(prev, c :: front), by simp [visited], hfirst, by simp [visited]⟩
          rw [visited, List.forall_mem_cons] at hagree
          obtain ⟨hhere, hagree⟩ := hagree
          have hhere : rule prev (c :: (front ++ tail)) = rule prev (c :: front) := hhere hfirst
          obtain ⟨v, hv, hQ⟩ := hexists
          rw [visited, List.mem_cons] at hv
          obtain rfl | hv := hv
          · exact absurd hQ hfirst
          simp only [List.cons_append, visited, hhere, List.mem_cons]
          cases hp : rule prev (c :: front) with
          | none =>
              simp only [hp] at hagree hv
              obtain ⟨u, hu, hQ, hin⟩ := ih (Nat.zero_le _) hagree ⟨v, hv, hQ⟩
              exact ⟨u, Or.inr hu, hQ, Or.inr hin⟩
          | some p =>
              simp only [hp] at hagree hv
              obtain ⟨hpos, hle⟩ := hsound _ _ _ hp
              rw [List.length_cons] at hle
              obtain ⟨u, hu, hQ, hin⟩ := ih (by omega) hagree ⟨v, hv, hQ⟩
              exact ⟨u, Or.inr hu, hQ, Or.inr hin⟩

end Places

/-! ## Ends of lines -/

/-- A rule that starts afresh behind a line feed. -/
def Fresh (rule : Rule) : Prop := ∀ text, rule (some '\n') text = rule none text

section Ends

variable {rule : Rule}

theorem scanFrom_fresh (hfresh : Fresh rule) (text : List Char) :
    scanFrom rule 0 (some '\n') text = scan rule text := by
  cases text with
  | nil => rfl
  | cons c rest =>
      have hfirst := hfresh (chars (c :: rest))
      simp only [scan, scanFrom, hfirst]

theorem scanFrom_break (hfresh : Fresh rule) {prev : Option Char} {rest : List Char}
    (hstop : rule prev ('\n' :: rest) = none) :
    scanFrom rule 0 prev ('\n' :: rest) = '\n' :: scan rule rest := by
  simp only [scanFrom, chars_char, hstop]
  rw [← scanFrom_fresh hfresh]
  rfl

/-- Where the rule never applies, nothing is changed. -/
theorem scanFrom_eq_self {prev : Option Char} {text : List Char}
    (hnone : ∀ before after, text = before ++ after → after ≠ [] →
      rule (lastChar prev before) after = none) : scanFrom rule 0 prev text = text := by
  induction text generalizing prev with
  | nil => rfl
  | cons c rest ih =>
      have hfirst := hnone [] (c :: rest) rfl (List.cons_ne_nil c rest)
      rw [lastChar_nil] at hfirst
      simp only [scanFrom, chars_char, hfirst]
      rw [ih fun before after hsplit hne => ?_]
      have hbehind := hnone (c :: before) after (by rw [hsplit]; rfl) hne
      rwa [lastChar_cons] at hbehind

/-- What is found at the places of a text, from behind a line feed and from its beginning. -/
theorem filterMap_visited_fresh {β : Type} (hfresh : Fresh rule)
    {f : Option Char × List Char → Option β}
    (hf : ∀ text, f (some '\n', text) = f (none, text)) (text : List Char) :
    (visited rule 0 (some '\n') text).filterMap f = (visited rule 0 none text).filterMap f := by
  cases text with
  | nil => rfl
  | cons c rest =>
      simp only [visited, List.filterMap_cons, hf, hfresh (c :: rest)]

/-- A text is scanned line by line if no line but the last looks different to the rule when
something follows. -/
theorem scan_ofPieces (hsound : Sound rule) (hfresh : Fresh rule)
    (hstop : ∀ prev rest, rule prev ('\n' :: rest) = none) {ls : List (List Char)}
    (hagree : ∀ l ∈ ls.dropLast, ∀ rest,
      ∀ v ∈ visited rule 0 none l, Agrees rule ('\n' :: rest) v) :
    scan rule (ofPieces ls) = ofPieces (ls.map (scan rule)) := by
  induction ls with
  | nil => rfl
  | cons l ls ih =>
      cases ls with
      | nil => simp
      | cons m ls =>
          rw [List.dropLast_cons_of_ne_nil (List.cons_ne_nil m ls), List.forall_mem_cons] at hagree
          have hne : (m :: ls).map (scan rule) ≠ [] := List.cons_ne_nil _ _
          rw [ofPieces_cons l (List.cons_ne_nil m ls), scan,
            scanFrom_front hsound (Nat.zero_le _) (hagree.1 _),
            scanFrom_break hfresh (hstop _ _), ih hagree.2, ← scan, ← ofPieces_cons _ hne]
          rfl

/-- A rule that does not look beyond the end of a line, starts afresh behind it and puts in no
line feed. -/
structure Lined (rule : Rule) : Prop where
  sound : Sound rule
  fresh : Fresh rule
  clean : ∀ prev text p, rule prev text = some p → '\n' ∉ p.mask
  within : ∀ prev line rest, '\n' ∉ line → rule prev (line ++ '\n' :: rest) = rule prev line

theorem Lined.or {other : Rule} (h : Lined rule) (h' : Lined other) :
    Lined fun prev text => (rule prev text).or (other prev text) where
  sound := by
    intro prev text p hp
    obtain hp | ⟨_, hp⟩ := Option.or_eq_some_iff.mp hp
    · exact h.sound prev text p hp
    · exact h'.sound prev text p hp
  fresh := fun text => by simp only [h.fresh text, h'.fresh text]
  clean := by
    intro prev text p hp
    obtain hp | ⟨_, hp⟩ := Option.or_eq_some_iff.mp hp
    · exact h.clean prev text p hp
    · exact h'.clean prev text p hp
  within := fun prev line rest hline => by
    simp only [h.within prev line rest hline, h'.within prev line rest hline]

theorem rule_nil (hsound : Sound rule) (prev : Option Char) : rule prev [] = none := by
  cases hp : rule prev [] with
  | none => rfl
  | some p =>
      obtain ⟨hpos, hle⟩ := hsound _ _ _ hp
      rw [List.length_nil] at hle
      omega

theorem Lined.stop (h : Lined rule) (prev : Option Char) (rest : List Char) :
    rule prev ('\n' :: rest) = none := by
  rw [← List.nil_append ('\n' :: rest), h.within prev [] rest List.not_mem_nil,
    rule_nil h.sound]

theorem Lined.scan_ofPieces (h : Lined rule) {ls : List (List Char)} (hls : ∀ l ∈ ls, '\n' ∉ l) :
    Scanner.scan rule (ofPieces ls) = ofPieces (ls.map (Scanner.scan rule)) := by
  refine Scanner.scan_ofPieces h.sound h.fresh h.stop fun l hl rest v hv => ?_
  have hline := hls l (List.dropLast_subset ls hl)
  exact h.within v.1 v.2 rest fun hmem => hline ((visited_suffix hv).subset hmem)

/-! ## Line feeds -/

theorem count_ofPieces {ls : List (List Char)} (hls : ∀ l ∈ ls, '\n' ∉ l) :
    (ofPieces ls).count '\n' = ls.length - 1 := by
  induction ls with
  | nil => rfl
  | cons l ls ih =>
      rw [List.forall_mem_cons] at hls
      have hline := List.count_eq_zero.mpr hls.1
      rcases ls with _ | ⟨m, ls⟩
      · simpa using hline
      · rw [ofPieces_cons l (List.cons_ne_nil m ls), List.count_append, List.count_cons, hline,
          ih hls.2]
        simp

theorem length_pieces (text : List Char) : (pieces text).length = text.count '\n' + 1 := by
  have hlines : ∀ l ∈ pieces text, '\n' ∉ l := fun l hl => not_mem_pieces hl
  have hcount := count_ofPieces hlines
  rw [ofPieces_pieces] at hcount
  have hpos := List.length_pos_of_ne_nil (pieces_ne_nil text)
  omega

theorem count_write (p : Patch) (hclean : '\n' ∉ p.mask) (window : List Char) :
    (p.write window).count '\n' ≤ window.count '\n' := by
  conv_rhs => rw [window_split p window]
  have hmask : (p.mask.map plain).count '\n' = 0 :=
    List.count_eq_zero.mpr (by simpa [plain] using hclean)
  simp only [Patch.write, List.count_append, hmask]
  omega

theorem Scans.count_le (hclean : ∀ prev text p, rule prev text = some p → '\n' ∉ p.mask)
    {prev : Option Char} {u v : List Char} (h : Scans rule prev u v) :
    v.count '\n' ≤ u.count '\n' := by
  induction h with
  | nil => exact le_refl _
  | keep _ _ ih =>
      rw [List.count_cons, List.count_cons]
      omega
  | @patch prev window rest out p hrule _ _ ih =>
      have hwrite := count_write p (hclean _ _ _ hrule) window
      rw [List.count_append, List.count_append]
      omega

theorem count_scan_le (hsound : Sound rule)
    (hclean : ∀ prev text p, rule prev text = some p → '\n' ∉ p.mask) (text : List Char) :
    (scan rule text).count '\n' ≤ text.count '\n' :=
  (scans_scan hsound text).count_le hclean

theorem not_mem_scan (hsound : Sound rule)
    (hclean : ∀ prev text p, rule prev text = some p → '\n' ∉ p.mask) {text : List Char}
    (htext : '\n' ∉ text) : '\n' ∉ scan rule text := by
  have hle := count_scan_le hsound hclean text
  rw [← List.count_eq_zero] at htext ⊢
  omega

/-- If every patch takes away a line feed, a scan that does is one that applies a patch. -/
theorem Scans.idle_or_count_lt (hclean : ∀ prev text p, rule prev text = some p → '\n' ∉ p.mask)
    (htakes : ∀ (prev : Option Char) (window rest : List Char) (p : Patch),
      rule prev (window ++ rest) = some p → window.length = p.size →
      (p.write window).count '\n' < window.count '\n')
    {prev : Option Char} {u v : List Char} (h : Scans rule prev u v) :
    (v = u ∧ ∀ before after, u = before ++ after → after ≠ [] →
      rule (lastChar prev before) after = none) ∨ v.count '\n' < u.count '\n' := by
  induction h with
  | nil =>
      refine Or.inl ⟨rfl, fun before after hsplit hne => absurd ?_ hne⟩
      exact (List.append_eq_nil_iff.mp hsplit.symm).2
  | @keep prev x rest out hrule _ ih =>
      obtain ⟨hout, hnone⟩ | hlt := ih
      · refine Or.inl ⟨by rw [hout], fun before after hsplit hne => ?_⟩
        cases before with
        | nil =>
            obtain rfl : after = x :: rest := by simpa using hsplit.symm
            rw [← hrule, chars_char]
            rfl
        | cons y before =>
            obtain ⟨rfl, rfl⟩ := List.cons.inj hsplit
            rw [lastChar_cons]
            exact hnone before after rfl hne
      · refine Or.inr ?_
        rw [List.count_cons, List.count_cons]
        omega
  | @patch prev window rest out p hrule hsize hrest _ =>
      have hle := hrest.count_le hclean
      rw [chars_char] at hrule
      have hlt := htakes prev window rest p hrule hsize
      refine Or.inr ?_
      rw [List.count_append, List.count_append]
      omega

theorem Lined.count_le (h : Lined rule) (text : List Char) :
    (Scanner.scan rule text).count '\n' ≤ text.count '\n' :=
  count_scan_le h.sound h.clean text

/-- What rewrites a text line by line. -/
structure LineWise (f : List Char → List Char) : Prop where
  apart : ∀ ls : List (List Char), (∀ l ∈ ls, '\n' ∉ l) → f (ofPieces ls) = ofPieces (ls.map f)
  clean : ∀ line : List Char, '\n' ∉ line → '\n' ∉ f line

theorem Lined.lineWise (h : Lined rule) : LineWise (Scanner.scan rule) :=
  ⟨fun _ hls => h.scan_ofPieces hls, fun _ hline => not_mem_scan h.sound h.clean hline⟩

theorem LineWise.comp {f g : List Char → List Char} (hg : LineWise g) (hf : LineWise f) :
    LineWise fun text => g (f text) where
  apart := by
    intro ls hls
    have hclean : ∀ l ∈ ls.map f, '\n' ∉ l := by
      intro l hl
      obtain ⟨line, hline, rfl⟩ := List.mem_map.mp hl
      exact hf.clean line (hls line hline)
    rw [hf.apart ls hls, hg.apart _ hclean, List.map_map]
    rfl
  clean := fun line hline => hg.clean _ (hf.clean line hline)

end Ends

end Scanner
