import PowerForensics.Collectors.OsPower
import PowerForensics.System.Prefixes

/-! # Settings in the output of `powercfg`

The output lists subgroups, the settings of each and the two values of each setting, a line for
every item. A block is a setting line with the index lines behind it, under the nearest subgroup
line in front of it. The parser keeps the name of the setting when a subgroup line comes, so index
lines behind such a line are entered for a setting of another subgroup.
-/

namespace PowerForensics.Collectors

open Prefixes

/-! ## Lines that are looked at -/

/-- What a line says; an index line has a value if its number can be read. -/
inductive Anchor where
  | subgroup (guid : String)
  | setting (guid : String)
  | acIndex (value : Option UInt32)
  | dcIndex (value : Option UInt32)
  deriving DecidableEq

namespace Anchor

def subgroup? : Anchor → Option String
  | subgroup guid => some guid
  | _ => none

def setting? : Anchor → Option String
  | setting guid => some guid
  | _ => none

def IsIndex : Anchor → Prop
  | acIndex _ | dcIndex _ => True
  | _ => False

/-- The value on mains that a line leaves for the next ones, unless it leaves what there was. -/
def mains? : Anchor → Option (Option UInt32)
  | subgroup _ => none
  | acIndex value => some value
  | setting _ | dcIndex _ => some none

end Anchor

variable (toLowercase : String → String)

def anchorOf (raw : List Char) : Option Anchor :=
  let t := Lines.trim raw
  match stripPrefix "Subgroup GUID:" t, stripPrefix "Power Setting GUID:" t,
      stripPrefix "Current AC Power Setting Index:" t,
      stripPrefix "Current DC Power Setting Index:" t with
  | some rest, _, _, _ => some (.subgroup (guidOf toLowercase rest))
  | none, some rest, _, _ => some (.setting (guidOf toLowercase rest))
  | none, none, some rest, _ => some (.acIndex (hexOf rest))
  | none, none, none, some rest => some (.dcIndex (hexOf rest))
  | none, none, none, none => none

/-- The lines of a text that say something, in order. -/
def anchors (text : List Char) : List Anchor := (Lines.lines text).filterMap (anchorOf toLowercase)

/-! ## Blocks -/

/-- The lines end with a block: a setting line whose nearest subgroup line in front is that of the
key, index lines, and at the end one for mains and one for battery, both with a value. -/
def Block (as : List Anchor) (key : String × String) (value : UInt32 × UInt32) : Prop :=
  ∃ before between mid, as = before ++ .subgroup key.1 :: (between ++ .setting key.2 ::
      (mid ++ [.acIndex (some value.1), .dcIndex (some value.2)])) ∧
    (∀ a ∈ between, a.subgroup? = none) ∧ ∀ a ∈ mid, a.IsIndex

/-- The lines end with a pair of index lines that follow a setting line, but there is a subgroup
line in between, and the last one there is that of the key. -/
def Misplaced (as : List Anchor) (key : String × String) (value : UInt32 × UInt32) : Prop :=
  ∃ before mid others, as = before ++ .setting key.2 ::
      (mid ++ .acIndex (some value.1) :: (others ++ [.dcIndex (some value.2)])) ∧
    (∀ a ∈ mid, a.setting? = none) ∧ (∀ a ∈ others, a.subgroup?.isSome) ∧
    ((mid ++ others).filterMap Anchor.subgroup?).getLast? = some key.1

/-- The last block for a key has this value. -/
def Listed (as : List Anchor) (key : String × String) (value : UInt32 × UInt32) : Prop :=
  ∃ front, LastFor Block as key front value

/-- A misplaced pair that is the last one for a key has the value of the last block for it. -/
def Undisturbed (as : List Anchor) : Prop :=
  ∀ key value front, key.1 ≠ "" → key.2 ≠ "" →
    LastFor (fun front key value => Block front key value ∨ Misplaced front key value) as key
      front value →
    Misplaced front key value → Listed as key value

/-! ## What the parser remembers -/

def PowercfgParse.meet (p : PowercfgParse) : Anchor → PowercfgParse
  | .subgroup guid => { p with sub := guid }
  | .setting guid => { p with set := guid, ac := none }
  | .acIndex value => { p with ac := value }
  | .dcIndex value => p.enter value

def currentSub (as : List Anchor) : String := (as.filterMap Anchor.subgroup?).getLast?.getD ""

def currentSet (as : List Anchor) : String := (as.filterMap Anchor.setting?).getLast?.getD ""

def currentAc (as : List Anchor) : Option UInt32 := (as.filterMap Anchor.mains?).getLast?.join

/-- The entry that is made at the last of some lines. -/
def entered (as : List Anchor) : Option ((String × String) × (UInt32 × UInt32)) :=
  match as.getLast?, currentAc as.dropLast with
  | some (.dcIndex (some d)), some a =>
      if currentSub as.dropLast ≠ "" ∧ currentSet as.dropLast ≠ "" then
        some ((currentSub as.dropLast, currentSet as.dropLast), (a, d))
      else none
  | _, _ => none

theorem line_eq (p : PowercfgParse) (raw : List Char) :
    p.line toLowercase raw = ((anchorOf toLowercase raw).map p.meet).getD p := by
  unfold PowercfgParse.line anchorOf
  dsimp only
  generalize Lines.trim raw = t
  rcases stripPrefix "Subgroup GUID:" t with _ | rest
  · rcases stripPrefix "Power Setting GUID:" t with _ | rest
    · rcases stripPrefix "Current AC Power Setting Index:" t with _ | rest
      · rcases stripPrefix "Current DC Power Setting Index:" t with _ | rest <;> rfl
      · rfl
    · rfl
  · rfl

theorem parsePowercfgQuery_eq (text : List Char) :
    parsePowercfgQuery toLowercase text =
      ((anchors toLowercase text).foldl PowercfgParse.meet .start).map := by
  have hline : PowercfgParse.line toLowercase =
      fun p raw => ((anchorOf toLowercase raw).map p.meet).getD p := by
    funext p raw
    exact line_eq toLowercase p raw
  rw [parsePowercfgQuery, anchors, List.foldl_filterMap, hline]
  congr 2
  funext p raw
  cases anchorOf toLowercase raw <;> rfl

theorem enter_eq (as : List Anchor) (entries : EffectiveMap) (dc : Option UInt32) :
    PowercfgParse.enter ⟨entries, currentSub as, currentSet as, currentAc as⟩ dc =
      ⟨entries ++ (entered (as ++ [.dcIndex dc])).toList, currentSub as, currentSet as, none⟩ := by
  unfold PowercfgParse.enter entered
  rw [List.getLast?_concat, List.dropLast_concat]
  cases currentAc as with
  | none => cases dc <;> simp
  | some a =>
      cases dc with
      | none => simp
      | some d =>
          dsimp only
          split <;> simp

/-- What has been entered, and what is remembered for the next lines. -/
theorem foldl_meet (as : List Anchor) : as.foldl PowercfgParse.meet .start =
    ⟨yields entered as, currentSub as, currentSet as, currentAc as⟩ := by
  induction as using List.reverseRecOn with
  | nil => rfl
  | append_singleton as a ih =>
      rw [List.foldl_concat, ih, yields_concat]
      cases a with
      | dcIndex value =>
          rw [PowercfgParse.meet, enter_eq]
          simp [currentSub, currentSet, currentAc, List.filterMap_append, Anchor.subgroup?,
            Anchor.setting?, Anchor.mains?]
      | _ =>
          simp [PowercfgParse.meet, entered, currentSub, currentSet, currentAc,
            List.filterMap_append, Anchor.subgroup?, Anchor.setting?, Anchor.mains?]

/-! ## What is entered -/

section Entered

variable {as : List Anchor} {key : String × String} {value : UInt32 × UInt32}

theorem isIndex_of_none {a : Anchor} (hsub : a.subgroup? = none) (hset : a.setting? = none) :
    a.IsIndex := by
  cases a with
  | subgroup => cases hsub
  | setting => cases hset
  | _ => trivial

/-- An entry is made at a line for battery with a value, where all the names are known. -/
theorem entered_eq_some : entered as = some (key, value) ↔
    ∃ before, as = before ++ [.dcIndex (some value.2)] ∧ currentAc before = some value.1 ∧
      currentSub before = key.1 ∧ currentSet before = key.2 ∧ key.1 ≠ "" ∧ key.2 ≠ "" := by
  constructor
  · intro hentered
    unfold entered at hentered
    split at hentered
    next d a hlast hac =>
      obtain ⟨before, rfl⟩ := List.getLast?_eq_some_iff.mp hlast
      rw [List.dropLast_concat] at hentered hac
      split at hentered
      next hnames =>
        obtain ⟨rfl, rfl⟩ := Prod.mk.inj (Option.some.inj hentered)
        exact ⟨before, rfl, hac, rfl, rfl, hnames⟩
      next => cases hentered
    next => cases hentered
  · rintro ⟨before, rfl, hac, hsub, hset, hnames⟩
    unfold entered
    rw [List.getLast?_concat, List.dropLast_concat, hac, hsub, hset]
    exact if_pos hnames

theorem getD_ne_empty {o : Option String} {name : String} (hname : name ≠ "") :
    o.getD "" = name ↔ o = some name := by
  cases o <;> simp [hname, eq_comm]

/-- The value on mains that is remembered is that of an index line with only subgroup lines
behind. -/
theorem currentAc_eq_some {a : UInt32} : currentAc as = some a ↔
    ∃ front others, as = front ++ .acIndex (some a) :: others ∧
      ∀ x ∈ others, x.subgroup?.isSome := by
  have hmains : ∀ x : Anchor, x.mains? = some (some a) ↔ x = .acIndex (some a) := by
    intro x
    cases x <;> simp [Anchor.mains?]
  have hskipped : ∀ x : Anchor, x.mains? = none ↔ x.subgroup?.isSome := by
    intro x
    cases x <;> simp [Anchor.mains?, Anchor.subgroup?]
  rw [currentAc, Option.join_eq_some_iff, getLast?_filterMap_eq_some]
  constructor
  · rintro ⟨front, x, others, rfl, hx, hothers⟩
    rw [(hmains x).mp hx]
    exact ⟨front, others, rfl, fun y hy => (hskipped y).mp (hothers y hy)⟩
  · rintro ⟨front, others, rfl, hothers⟩
    exact ⟨front, _, others, rfl, rfl, fun y hy => (hskipped y).mpr (hothers y hy)⟩

theorem setting_of_subgroup {a : Anchor} (ha : a.subgroup?.isSome) : a.setting? = none := by
  cases a <;> simp_all [Anchor.subgroup?, Anchor.setting?]

/-- The remembered setting is that of the last setting line. -/
theorem currentSet_eq (hset : key.2 ≠ "") : currentSet as = key.2 ↔
    ∃ before mid, as = before ++ .setting key.2 :: mid ∧ ∀ a ∈ mid, a.setting? = none := by
  have hsetting : ∀ x : Anchor, x.setting? = some key.2 ↔ x = .setting key.2 := by
    intro x
    cases x <;> simp [Anchor.setting?]
  rw [currentSet, getD_ne_empty hset, getLast?_filterMap_eq_some]
  constructor
  · rintro ⟨before, x, mid, rfl, hx, hmid⟩
    rw [(hsetting x).mp hx]
    exact ⟨before, mid, rfl, hmid⟩
  · rintro ⟨before, mid, rfl, hmid⟩
    exact ⟨before, _, mid, rfl, rfl, hmid⟩

theorem getLast?_subgroups : (as.filterMap Anchor.subgroup?).getLast? = some key.1 ↔
    ∃ before between, as = before ++ .subgroup key.1 :: between ∧
      ∀ a ∈ between, a.subgroup? = none := by
  have hsubgroup : ∀ x : Anchor, x.subgroup? = some key.1 ↔ x = .subgroup key.1 := by
    intro x
    cases x <;> simp [Anchor.subgroup?]
  rw [getLast?_filterMap_eq_some]
  constructor
  · rintro ⟨before, x, between, rfl, hx, hbetween⟩
    rw [(hsubgroup x).mp hx]
    exact ⟨before, between, rfl, hbetween⟩
  · rintro ⟨before, between, rfl, hbetween⟩
    exact ⟨before, _, between, rfl, rfl, hbetween⟩

/-- Subgroup lines and index lines do not change the setting. -/
theorem currentSet_index {front others : List Anchor} {a : Option UInt32}
    (hothers : ∀ x ∈ others, x.subgroup?.isSome) :
    currentSet (front ++ .acIndex a :: others) = currentSet front := by
  have hnone : others.filterMap Anchor.setting? = [] :=
    List.filterMap_eq_nil_iff.mpr fun x hx => setting_of_subgroup (hothers x hx)
  rw [currentSet, currentSet, List.filterMap_append, List.filterMap_cons_none rfl, hnone,
    List.append_nil]

/-- The subgroup is that of the last line behind the setting line, or of one in front of it. -/
theorem currentSub_eq {before mid others : List Anchor} {name : String} {a : Option UInt32}
    (hname : key.1 ≠ "") :
    currentSub (before ++ .setting name :: (mid ++ .acIndex a :: others)) = key.1 ↔
      ((mid ++ others).filterMap Anchor.subgroup?).getLast? = some key.1 ∨
        (mid ++ others).filterMap Anchor.subgroup? = [] ∧
          (before.filterMap Anchor.subgroup?).getLast? = some key.1 := by
  have hsplit : (before ++ .setting name :: (mid ++ .acIndex a :: others)).filterMap
      Anchor.subgroup? = before.filterMap Anchor.subgroup? ++
        (mid ++ others).filterMap Anchor.subgroup? := by
    simp [List.filterMap_append, List.filterMap_cons, Anchor.subgroup?]
  rw [currentSub, getD_ne_empty hname, hsplit, List.getLast?_append]
  rcases List.eq_nil_or_concat ((mid ++ others).filterMap Anchor.subgroup?) with hnil | ⟨l, b, hl⟩
  · simp [hnil]
  · rw [hl]
    simp

theorem Block.enters (hsub : key.1 ≠ "") (hset : key.2 ≠ "") (h : Block as key value) :
    entered as = some (key, value) := by
  obtain ⟨first, between, mid, rfl, hbetween, hmid⟩ := h
  have hnone : ∀ x ∈ mid, x.subgroup? = none ∧ x.setting? = none := by
    intro x hx
    have hindex := hmid x hx
    cases x <;> simp_all [Anchor.IsIndex, Anchor.subgroup?, Anchor.setting?]
  rw [entered_eq_some]
  refine ⟨(first ++ .subgroup key.1 :: between) ++ .setting key.2 ::
    (mid ++ .acIndex (some value.1) :: []), by simp, ?_, ?_, ?_, hsub, hset⟩
  · exact currentAc_eq_some.mpr ⟨(first ++ .subgroup key.1 :: between) ++ .setting key.2 :: mid,
      [], by simp, by simp⟩
  · refine (currentSub_eq hsub).mpr (Or.inr ⟨?_, getLast?_subgroups.mpr
      ⟨first, between, rfl, hbetween⟩⟩)
    exact List.filterMap_eq_nil_iff.mpr fun x hx => (hnone x (by simpa using hx)).1
  · rw [← List.cons_append, ← List.append_assoc, currentSet_index (by simp)]
    exact (currentSet_eq hset).mpr ⟨_, mid, rfl, fun x hx => (hnone x hx).2⟩

theorem Misplaced.enters (hsub : key.1 ≠ "") (hset : key.2 ≠ "") (h : Misplaced as key value) :
    entered as = some (key, value) := by
  obtain ⟨before, mid, others, rfl, hmid, hothers, hlast⟩ := h
  rw [entered_eq_some]
  refine ⟨before ++ .setting key.2 :: (mid ++ .acIndex (some value.1) :: others), by simp, ?_,
    (currentSub_eq hsub).mpr (Or.inl hlast), ?_, hsub, hset⟩
  · exact currentAc_eq_some.mpr ⟨before ++ .setting key.2 :: mid, others, by simp, hothers⟩
  · rw [← List.cons_append, ← List.append_assoc, currentSet_index hothers]
    exact (currentSet_eq hset).mpr ⟨before, mid, rfl, hmid⟩

/-- An entry for a setting of a subgroup is made at the end of its blocks and of the pairs that
are misplaced. -/
theorem entered_iff (hsub : key.1 ≠ "") (hset : key.2 ≠ "") :
    entered as = some (key, value) ↔ Block as key value ∨ Misplaced as key value := by
  constructor
  · intro hentered
    obtain ⟨_, rfl, hac, hcurrent, hsetting, -, -⟩ := entered_eq_some.mp hentered
    obtain ⟨front, others, rfl, hothers⟩ := currentAc_eq_some.mp hac
    rw [currentSet_index hothers] at hsetting
    obtain ⟨before, mid, rfl, hmid⟩ := (currentSet_eq hset).mp hsetting
    rw [List.append_assoc, List.cons_append, currentSub_eq hsub] at hcurrent
    rcases hcurrent with hlast | ⟨hnone, hlast⟩
    · exact Or.inr ⟨before, mid, others, by simp, hmid, hothers, hlast⟩
    · -- no subgroup line comes between, so the one in front of the setting line is the nearest
      have hnone := List.filterMap_eq_nil_iff.mp hnone
      have hnil : others = [] := by
        refine List.eq_nil_iff_forall_not_mem.mpr fun x hx => ?_
        have hsome := hothers x hx
        rw [hnone x (List.mem_append_right _ hx)] at hsome
        cases hsome
      obtain ⟨first, between, rfl, hbetween⟩ := getLast?_subgroups.mp hlast
      refine Or.inl ⟨first, between, mid, by simp [hnil], hbetween, fun x hx => ?_⟩
      exact isIndex_of_none (hnone x (List.mem_append_left _ hx)) (hmid x hx)
  · rintro (hblock | hmisplaced)
    · exact hblock.enters hsub hset
    · exact hmisplaced.enters hsub hset

end Entered

/-! ## What is reported -/

section Reported

variable {toLowercase} {text : List Char} {key : String × String} {value : UInt32 × UInt32}

/-- The value that is looked up for a key is that of the last lines which make an entry for it. -/
theorem latest_parse (hsub : key.1 ≠ "") (hset : key.2 ≠ "") :
    Lookup.latest (parsePowercfgQuery toLowercase text) key = some value ↔
      ∃ front, LastFor (fun front key value => Block front key value ∨ Misplaced front key value)
        (anchors toLowercase text) key front value := by
  rw [parsePowercfgQuery_eq, foldl_meet, latest_yields]
  refine exists_congr fun front => ⟨fun h => ?_, fun h => ?_⟩
  · exact ⟨h.isPrefix, (entered_iff hsub hset).mp h.holds,
      fun front' w hfront' hw => h.longest front' w hfront' ((entered_iff hsub hset).mpr hw)⟩
  · exact ⟨h.isPrefix, (entered_iff hsub hset).mpr h.holds,
      fun front' w hfront' hw => h.longest front' w hfront' ((entered_iff hsub hset).mp hw)⟩

theorem names_of_latest
    (hlatest : Lookup.latest (parsePowercfgQuery toLowercase text) key = some value) :
    key.1 ≠ "" ∧ key.2 ≠ "" := by
  rw [parsePowercfgQuery_eq, foldl_meet, latest_yields] at hlatest
  obtain ⟨front, hfront⟩ := hlatest
  obtain ⟨-, -, -, -, -, hnames⟩ := entered_eq_some.mp hfront.holds
  exact hnames

/-- A text has one value at most for a key. -/
theorem Listed.unique {as : List Anchor} {w : UInt32 × UInt32} (hsub : key.1 ≠ "")
    (hset : key.2 ≠ "") (hvalue : Listed as key value) (hw : Listed as key w) : value = w := by
  obtain ⟨front, hfront⟩ := hvalue
  obtain ⟨front', hfront'⟩ := hw
  obtain rfl := hfront.eq_front hfront'
  have hentered := (entered_iff hsub hset).mpr (Or.inl hfront.holds)
  rw [(entered_iff hsub hset).mpr (Or.inl hfront'.holds)] at hentered
  exact (congrArg Prod.snd (Option.some.inj hentered)).symm

variable (toLowercase) in
/-- The parser reports for every subgroup and setting the value of the last block, and nothing
else, exactly if no misplaced pair has the last word. -/
theorem settings_listed_iff (text : List Char) :
    (∀ key value, Lookup.latest (parsePowercfgQuery toLowercase text) key = some value ↔
      key.1 ≠ "" ∧ key.2 ≠ "" ∧ Listed (anchors toLowercase text) key value) ↔
      Undisturbed (anchors toLowercase text) := by
  constructor
  · intro h key value front hsub hset hlast _
    exact ((h key value).mp ((latest_parse hsub hset).mpr ⟨front, hlast⟩)).2.2
  · intro h
    have hsound : ∀ key value,
        Lookup.latest (parsePowercfgQuery toLowercase text) key = some value →
          Listed (anchors toLowercase text) key value := by
      intro key value hlatest
      obtain ⟨hsub, hset⟩ := names_of_latest hlatest
      obtain ⟨front, hlast⟩ := (latest_parse hsub hset).mp hlatest
      rcases hlast.holds with hblock | hmisplaced
      · exact ⟨front, hlast.isPrefix, hblock,
          fun front' w hfront' hw => hlast.longest front' w hfront' (Or.inl hw)⟩
      · exact h key value front hsub hset hlast hmisplaced
    intro key value
    constructor
    · intro hlatest
      obtain ⟨hsub, hset⟩ := names_of_latest hlatest
      exact ⟨hsub, hset, hsound key value hlatest⟩
    · rintro ⟨hsub, hset, hlisted⟩
      -- there is a block for the key, so something is looked up, and that is sound
      cases hlatest : Lookup.latest (parsePowercfgQuery toLowercase text) key with
      | some w => rw [Listed.unique hsub hset (hsound key w hlatest) hlisted]
      | none =>
          obtain ⟨front, hfront⟩ := hlisted
          have hmem : ((key, value) : (String × String) × (UInt32 × UInt32)) ∈
              yields entered (anchors toLowercase text) := List.mem_filterMap.mpr
            ⟨front, by simpa using hfront.isPrefix, (entered_iff hsub hset).mpr (Or.inl hfront.holds)⟩
          have hkey : key ∈ (yields entered (anchors toLowercase text)).reverse.map Prod.fst :=
            List.mem_map.mpr ⟨_, List.mem_reverse.mpr hmem, rfl⟩
          have hsome := Lookup.lookup_isSome.mpr hkey
          rw [parsePowercfgQuery_eq, foldl_meet, Lookup.latest] at hlatest
          rw [hlatest] at hsome
          cases hsome

end Reported

/-- A subgroup line stands between the line of a setting and its values. -/
def movedQuery : String :=
  "Subgroup GUID: aaaa\n" ++ "Power Setting GUID: bbbb\n" ++ "Subgroup GUID: cccc\n" ++
    "Current AC Power Setting Index: 0x1\nCurrent DC Power Setting Index: 0x2\n"

/-- The values are reported for a setting of the other subgroup, which the text does not have. -/
theorem setting_fabricated :
    ¬∀ (text : List Char) key value,
      Lookup.latest (parsePowercfgQuery asciiLowercase text) key = some value ↔
        key.1 ≠ "" ∧ key.2 ≠ "" ∧ Listed (anchors asciiLowercase text) key value := by
  intro h
  -- the text is taken apart line by line, as a long literal is slow
  have happend : ∀ a b c d : String,
      (a ++ b ++ c ++ d).toList = a.toList ++ b.toList ++ c.toList ++ d.toList := by
    intro a b c d
    rw [String.toList_append, String.toList_append, String.toList_append]
  have htext : movedQuery.toList = _ := happend _ _ _ _
  have hanchors : anchors asciiLowercase movedQuery.toList = [.subgroup "aaaa", .setting "bbbb",
      .subgroup "cccc", .acIndex (some 1), .dcIndex (some 2)] := by
    rw [htext]
    decide +kernel
  have hvalue : Lookup.latest (parsePowercfgQuery asciiLowercase movedQuery.toList)
      ("cccc", "bbbb") = some (1, 2) := by
    rw [htext]
    decide +kernel
  obtain ⟨-, -, front, hfront, ⟨before, between, mid, hblock, -⟩, -⟩ := (h _ _ _).mp hvalue
  rw [hanchors] at hfront
  have hsublist : [Anchor.subgroup "cccc", .setting "bbbb"].Sublist front := by
    rw [hblock]
    refine List.Sublist.trans ?_ (List.sublist_append_right _ _)
    refine List.Sublist.cons_cons _ (List.Sublist.trans ?_ (List.sublist_append_right _ _))
    exact List.Sublist.cons_cons _ (List.nil_sublist _)
  exact absurd (hsublist.trans hfront.sublist) (by decide)

end PowerForensics.Collectors
