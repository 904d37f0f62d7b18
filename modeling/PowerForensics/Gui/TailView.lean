import PowerForensics.Core.SessionFrame
import PowerForensics.Core.SessionWriter
import PowerForensics.Gui.Evidence
import PowerForensics.Gui.Sessions

/-! # The tail view and the recording

A collector record adds one sample, and which one depends on the record alone; so a session is
loaded from its tail with the last samples of the whole. What the record does not have is the
first wall time of the session, and the tail begins with another one.
-/

namespace PowerForensics.Sessions

open Json Session Evidence

/-! ## Samples of a record -/

section Calls

variable {α β γ : Type}

/-- If the one call returns, so does the other, and their results are related. -/
def Alike (R : β → γ → Prop) (x : Except Fault β) (y : Except Fault γ) : Prop :=
  ∀ b, x = .ok b → ∃ b', y = .ok b' ∧ R b b'

theorem Alike.bind {R : β → γ → Prop} {x : Except Fault α} {f : α → Except Fault β}
    {g : α → Except Fault γ} (hfg : ∀ a, Alike R (f a) (g a)) : Alike R (x >>= f) (x >>= g) := by
  cases x with
  | ok a => exact hfg a
  | error fault => exact nofun

theorem alike_pure {R : β → γ → Prop} {b : β} {b' : γ} (hb : R b b') :
    Alike R (pure b) (pure b') := by
  intro b₁ heq
  obtain rfl := Except.ok.inj heq
  exact ⟨b', rfl, hb⟩

end Calls

section Records

variable (v : JVal) (stamp : ClockStamp) (s s' : SessionData)

/-- Two sessions have the same samples behind those of two others. -/
def SameAdded (r r' : SessionData) : Prop :=
  ∀ c, ∃ added, samples r c = samples s c ++ added ∧ samples r' c = samples s' c ++ added

theorem collectorLoader_sameAdded {collector : String}
    {load : JVal → ClockStamp → SessionData → Except Fault SessionData}
    (hload : collectorLoader collector = some load) :
    Alike (SameAdded s s') (load v stamp s) (load v stamp s') := by
  cases hload using collectorLoader_cases
  case' battery => unfold loadBattery
  case' cpu => unfold loadCpu
  case' gpu => unfold loadGpu
  case' procs => unfold loadProcs
  case' display => unfold loadDisplay
  case' net => unfold loadNet
  case' storage => unfold loadStorage
  case' usb => unfold loadUsb
  case' selfmon => unfold loadSelfmon
  case' policy => unfold loadPolicy
  all_goals
    repeat refine Alike.bind fun _ => ?_
    apply alike_pure
    intro c
    -- a series gets one point more or stays as it is
    cases c <;> first
      | exact ⟨[], (List.append_nil _).symm, (List.append_nil _).symm⟩
      | exact ⟨_, List.map_append, List.map_append⟩

theorem loadRecord_sameAdded : Alike (SameAdded s s') (loadRecord v s) (loadRecord v s') := by
  have hwall : ∀ (r : SessionData) (c : Collector),
      samples (if r.wallBaseMs = 0 then { r with wallBaseMs := wallMs v } else r) c =
        samples r c := by
    intro r c
    split
    · cases c <;> rfl
    · rfl
  unfold loadRecord
  dsimp only
  split
  next load hload =>
    obtain ⟨collector, -, hcollector⟩ := Option.bind_eq_some_iff.mp hload
    intro r hr
    obtain ⟨r', hr', hadded⟩ := collectorLoader_sameAdded v (stampOf v) _ _ hcollector r hr
    refine ⟨r', hr', fun c => ?_⟩
    obtain ⟨added, hleft, hright⟩ := hadded c
    exact ⟨added, by rw [hleft, hwall], by rw [hright, hwall]⟩
  next hnone =>
    have hself : ∀ r r' : SessionData, (∀ c, samples r c = samples s c) →
        (∀ c, samples r' c = samples s' c) → SameAdded s s' r r' := by
      intro r r' hr hr' c
      exact ⟨[], by rw [hr, List.append_nil], by rw [hr', List.append_nil]⟩
    have hevents : ∀ (r : SessionData) es c, samples { r with events := es } c = samples r c := by
      intro r es c
      cases c <;> rfl
    have hfooter : ∀ (r : SessionData) f c, samples { r with footer := f } c = samples r c := by
      intro r f c
      cases c <;> rfl
    split
    · exact alike_pure (hself _ _ (fun c => by rw [hevents, hwall]) fun c => by rw [hevents, hwall])
    · split
      · exact alike_pure (hself _ _ (fun c => by rw [hfooter, hwall]) fun c => by rw [hfooter, hwall])
      · exact alike_pure (hself _ _ (hwall s) (hwall s'))

end Records

/-- The samples that a record adds. -/
def samplesOf (c : Collector) (v : JVal) : List Sample :=
  match loadRecord v default with
  | .ok s => samples s c
  | .error _ => []

theorem samples_loadRecord {v : JVal} {s r : SessionData} (hload : loadRecord v s = .ok r)
    (c : Collector) : samples r c = samples s c ++ samplesOf c v := by
  obtain ⟨r₀, hload₀, hadded⟩ := loadRecord_sameAdded v s default r hload
  obtain ⟨added, hleft, hright⟩ := hadded c
  have hempty : samples default c = [] := by cases c <;> rfl
  rw [hempty, List.nil_append] at hright
  rw [hleft, samplesOf, hload₀, ← hright]

theorem wallBase_loadRecord {v : JVal} {s r : SessionData} (hload : loadRecord v s = .ok r) :
    r.wallBaseMs = firstWall s.wallBaseMs v := by
  have hself := loadRecord_withEvents v s s.wallBaseMs s.events
  rw [withEvents_self, hload] at hself
  exact congrArg SessionData.wallBaseMs (Except.ok.inj hself)

/-! ## Samples of a text -/

/-- The records on some lines. -/
def recordsOf (ls : List (List Char)) : List JVal :=
  (ls.filter fun line => Lines.trim line ≠ []).filterMap fun line =>
    (parse (String.ofList (Lines.trim line))).toOption

theorem recordsOf_append (ls ms : List (List Char)) :
    recordsOf (ls ++ ms) = recordsOf ls ++ recordsOf ms := by
  simp [recordsOf]

/-- The first wall time of some records that is not zero. -/
def firstWallOf (vs : List JVal) : UInt64 := vs.foldl firstWall 0

def samplesIn (c : Collector) (text : List Char) : List Sample :=
  (recordsOf (Lines.lines text)).flatMap (samplesOf c)

/-- The wall time that the offsets of a text count from. -/
def wallBaseIn (text : List Char) : UInt64 := firstWallOf (recordsOf (Lines.lines text))

/-- Lines that are loaded add the samples of their records, and may set the wall base. -/
theorem loadLines_samples {number : Nat} {ls : List (List Char)} {s r : SessionData}
    (hload : loadLines number ls s = .ok r) :
    (∀ c, samples r c = samples s c ++ (recordsOf ls).flatMap (samplesOf c)) ∧
      r.wallBaseMs = (recordsOf ls).foldl firstWall s.wallBaseMs := by
  induction ls generalizing number s with
  | nil =>
      obtain rfl := Except.ok.inj hload
      exact ⟨fun c => (List.append_nil _).symm, rfl⟩
  | cons line ls ih =>
      rw [loadLines] at hload
      by_cases hblank : Lines.trim line = []
      · rw [if_pos hblank] at hload
        have hskip : recordsOf (line :: ls) = recordsOf ls := by simp [recordsOf, hblank]
        rw [hskip]
        exact ih hload
      · rw [if_neg hblank] at hload
        cases hparse : parse (String.ofList (Lines.trim line)) with
        | error e =>
            rw [hparse] at hload
            cases hload
        | ok v =>
            rw [hparse] at hload
            dsimp only at hload
            have hrecords : recordsOf (line :: ls) = v :: recordsOf ls := by
              simp [recordsOf, hblank, hparse, Except.toOption]
            cases hrecord : loadRecord v s with
            | error fault =>
                rw [hrecord] at hload
                cases hload
            | ok s₁ =>
                rw [hrecord] at hload
                obtain ⟨hsamples, hwall⟩ := ih hload
                rw [hrecords]
                constructor
                · intro c
                  rw [hsamples, samples_loadRecord hrecord, List.flatMap_cons, List.append_assoc]
                · rw [hwall, wallBase_loadRecord hrecord, List.foldl_cons]

theorem loadSession_samples {label : String} {text : List Char} {s : SessionData}
    (hload : loadSession label (String.ofList text) = .ok s) :
    (∀ c, samples s c = samplesIn c text) ∧ s.wallBaseMs = wallBaseIn text := by
  rw [loadSession, String.toList_ofList] at hload
  obtain ⟨hsamples, hwall⟩ := loadLines_samples hload
  refine ⟨fun c => ?_, hwall⟩
  rw [hsamples]
  cases c <;> rfl

/-! ## The tail -/

/-- A text that can be loaded can be loaded from its tail. -/
theorem loadSession_tailPart {label : String} {text : List Char} {s : SessionData}
    (hload : loadSession label (String.ofList text) = .ok s) :
    ∃ tail, loadSession label (String.ofList (tailPart text)) = .ok tail := by
  obtain ⟨before, hlines⟩ := lines_tailPart text
  rw [exists_eq_ok, loadSession_isOk, String.toList_ofList]
  have hall := (loadSession_isOk label (String.ofList text)).mp (by rw [hload]; rfl)
  rw [String.toList_ofList] at hall
  intro line hline
  apply hall
  rw [hlines]
  exact List.mem_append_left _ (List.mem_append_right _ hline)

/-- The samples of the tail are the last ones but for those of the line that is not finished. -/
theorem samplesIn_tailPart (c : Collector) (text : List Char) :
    ∃ before, samplesIn c text =
      before ++ samplesIn c (tailPart text) ++ samplesIn c (Lines.unfinished text) := by
  obtain ⟨before, hlines⟩ := lines_tailPart text
  refine ⟨(recordsOf before).flatMap (samplesOf c), ?_⟩
  have hsamples := congrArg (fun ls => (recordsOf ls).flatMap (samplesOf c)) hlines
  simp only [recordsOf_append, List.flatMap_append] at hsamples
  exact hsamples

theorem getLast?_samplesIn {c : Collector} {text : List Char}
    (hsampled : samplesIn c (tailPart text) ≠ []) :
    (samplesIn c text).getLast? = (samplesIn c (Lines.unfinished text)).getLast?.or
      (samplesIn c (tailPart text)).getLast? := by
  obtain ⟨before, hsamples⟩ := samplesIn_tailPart c text
  rw [hsamples, List.getLast?_append, List.getLast?_append]
  rw [List.getLast?_eq_some_getLast hsampled, Option.some_or]

/-! ## Agreement -/

/-- A wall time that is the same from both bases: it does not count from them, they are equal, or
both sums are beyond the largest wall time. -/
def FixedFrom (base base' : UInt64) : Clock → Prop
  | .own _ => True
  | .offset t => base = base' ∨
      2 ^ 64 - 1 ≤ base.toNat + (asU64 (t * 1000.0)).toNat ∧
        2 ^ 64 - 1 ≤ base'.toNat + (asU64 (t * 1000.0)).toNat

theorem wall_eq_iff (base base' : UInt64) (clock : Clock) :
    clock.wall base = clock.wall base' ↔ FixedFrom base base' clock := by
  cases clock with
  | own wallMs => simp [Clock.wall, FixedFrom]
  | offset t =>
      have hbase := base.toNat_lt
      have hbase' := base'.toNat_lt
      simp only [Clock.wall, FixedFrom, saturatingAdd, ← UInt64.toNat_inj, UInt64.toNat_ofNat']
      omega

/-- The last sample of the tail has the wall time of the last sample of the text. -/
def ClockKept (c : Collector) (text : List Char) : Prop :=
  ∀ last ∈ (samplesIn c (tailPart text)).getLast?,
    match (samplesIn c (Lines.unfinished text)).getLast? with
    | none => FixedFrom (wallBaseIn text) (wallBaseIn (tailPart text)) last.clock
    | some later => later.clock.wall (wallBaseIn text) = last.clock.wall (wallBaseIn (tailPart text))

/-- Where no line is unfinished, the last sample of the tail is the last one of the text. -/
theorem ClockKept.wall_eq {c : Collector} {text : List Char} {last : Sample}
    (hkept : ClockKept c text) (hlast : (samplesIn c (tailPart text)).getLast? = some last)
    (hunfinished : samplesIn c (Lines.unfinished text) = []) :
    last.clock.wall (wallBaseIn text) = last.clock.wall (wallBaseIn (tailPart text)) := by
  have hfixed := hkept last hlast
  rw [hunfinished] at hfixed
  exact (wall_eq_iff _ _ _).mpr hfixed

/-- The wall time of the last sample of the tail. -/
def tailWall (c : Collector) (text : List Char) : Option UInt64 :=
  (samplesIn c (tailPart text)).getLast?.map fun x => x.clock.wall (wallBaseIn (tailPart text))

/-- A stale collector of which the tail only has samples that failed. -/
def HiddenByFailures (w : Viewing) (c : Collector) (text : List Char) : Prop :=
  c ≠ .osPower ∧ w.present c.name ≠ some false ∧ w.aged (tailWall c text) ∧
    (∀ x ∈ samplesIn c (tailPart text), x.failed) ∧ ∃ x ∈ samplesIn c text, x.failed = false

/-- Two views tell the same wall time and the same staleness. -/
def SameView (a b : CollectorState) : Prop :=
  a.lastSampleWallMs = b.lastSampleWallMs ∧ (a.state = .stale ↔ b.state = .stale)

/-- What a view says about a collector that has a sample. -/
theorem stale_iff (w : Viewing) (s : SessionData) (c : Collector) (hsampled : samples s c ≠ []) :
    (w.collectorState s c.name (lastWall s c)).state = .stale ↔
      w.present c.name ≠ some false ∧
        if c = .osPower then w.present c.name = some true
        else (∃ x ∈ samples s c, x.failed = false) ∧ w.aged (lastWall s c) := by
  have hfind := freshness_find s c
  have hlength : (samples s c).length ≠ 0 := by simpa using hsampled
  have hall : (samples s c).length ≤ (samples s c).countP (·.failed) ↔
      ¬ ∃ x ∈ samples s c, x.failed = false := by
    have hle := List.countP_le_length (p := Sample.failed) (l := samples s c)
    rw [hle.ge_iff_eq', eq_comm, List.countP_eq_length]
    simp
  unfold Viewing.collectorState
  dsimp only
  split at hfind
  next hc =>
    -- the freshness list has no entry of this name, so the view counts no samples
    have hnone := Option.map_eq_none_iff.mp hfind
    rw [if_pos hc, hnone]
    unfold Viewing.health
    simp only [Option.map_none, Option.getD_none]
    split
    next habsent => simp [habsent]
    next habsent =>
      rw [if_pos trivial]
      split
      next hpresent => simp [hpresent]
      next hpresent => simp [hpresent]
  next hc =>
    obtain ⟨f, hf, hcounts⟩ := Option.map_eq_some_iff.mp hfind
    obtain ⟨hcount, hfailures⟩ := Prod.mk.inj hcounts
    rw [if_neg hc, hf]
    simp only [Option.map_some, Option.getD_some, hcount, hfailures]
    unfold Viewing.health
    rw [if_neg hlength]
    split
    next habsent => simp [habsent]
    next habsent =>
      split
      next hfailed => simp [hall.mp hfailed]
      next hfailed =>
        rw [hall, not_not] at hfailed
        split
        next haged => simp [habsent, hfailed, haged]
        next haged =>
          split <;> simp [haged]

theorem filter_pos_inj (a b : UInt64) :
    (some a).filter (0 < ·) = (some b).filter (0 < ·) ↔ a = b := by
  have hzero : ∀ x : UInt64, ¬ 0 < x → x = 0 := by
    intro x hx
    simpa using hx
  by_cases ha : 0 < a <;> by_cases hb : 0 < b <;> simp [Option.filter, ha, hb]
  · rintro rfl
    exact hb ha
  · rintro rfl
    exact ha hb
  · rw [hzero a ha, hzero b hb]

theorem name_injective {c c' : Collector} (hname : c.name = c'.name) : c = c' := by
  cases c <;> cases c' <;> first
    | rfl
    | simp [Collector.name] at hname

/-- The view has one entry for every collector. -/
theorem mem_collectorsView (w : Viewing) (s : SessionData) (a : CollectorState) (c : Collector) :
    a ∈ w.collectorsView s ∧ a.name = c.name ↔ a = w.collectorState s c.name (lastWall s c) := by
  rw [Viewing.collectorsView, lastWalls_eq, List.map_map, List.mem_map]
  constructor
  · rintro ⟨⟨c', -, rfl⟩, hname⟩
    obtain rfl : c' = c := name_injective hname
    rfl
  · rintro rfl
    exact ⟨⟨c, by cases c <;> simp [Collector.all], rfl⟩, rfl⟩

/-- The last wall times agree exactly if the last sample keeps its wall time. -/
theorem lastWall_eq_iff {c : Collector} {text : List Char} {full tail : SessionData}
    (hfull : samples full c = samplesIn c text) (hbase : full.wallBaseMs = wallBaseIn text)
    (htail : samples tail c = samplesIn c (tailPart text))
    (hbase' : tail.wallBaseMs = wallBaseIn (tailPart text))
    (hsampled : samplesIn c (tailPart text) ≠ []) :
    lastWall full c = lastWall tail c ↔ ClockKept c text := by
  unfold lastWall ClockKept
  rw [hfull, hbase, htail, hbase', getLast?_samplesIn hsampled]
  rw [List.getLast?_eq_some_getLast hsampled]
  cases (samplesIn c (Lines.unfinished text)).getLast? with
  | none => simp [wall_eq_iff]
  | some later => simp

/-- With one last wall time, only failures can make the staleness differ. -/
theorem stale_iff_stale (w : Viewing) {c : Collector} {text : List Char} {full tail : SessionData}
    (hfull : samples full c = samplesIn c text)
    (htail : samples tail c = samplesIn c (tailPart text))
    (hbase' : tail.wallBaseMs = wallBaseIn (tailPart text))
    (hsampled : samplesIn c (tailPart text) ≠ []) (hlast : lastWall full c = lastWall tail c) :
    ((w.collectorState full c.name (lastWall full c)).state = .stale ↔
        (w.collectorState tail c.name (lastWall tail c)).state = .stale) ↔
      ¬ HiddenByFailures w c text := by
  obtain ⟨before, hbefore⟩ := samplesIn_tailPart c text
  have hsub : ∀ x ∈ samplesIn c (tailPart text), x ∈ samplesIn c text := by
    intro x hx
    rw [hbefore]
    exact List.mem_append_left _ (List.mem_append_right _ hx)
  have hsampled' : samplesIn c text ≠ [] := by
    obtain ⟨x, hx⟩ := List.exists_mem_of_ne_nil _ hsampled
    exact List.ne_nil_of_mem (hsub x hx)
  have hwall : lastWall tail c = tailWall c text := by
    rw [lastWall, htail, hbase']
    rfl
  have hfullSampled : samples full c ≠ [] := hfull ▸ hsampled'
  have htailSampled : samples tail c ≠ [] := htail ▸ hsampled
  rw [stale_iff w full c hfullSampled, stale_iff w tail c htailSampled, hlast, hwall, hfull, htail,
    HiddenByFailures]
  -- the tail shows fewer samples: a reading in it is one of the text, but not the other way round
  by_cases hc : c = .osPower
  · simp [hc]
  generalize samplesIn c (tailPart text) = shown at hsub
  have hnone : (∃ x ∈ shown, x.failed = false) ↔ ¬ ∀ x ∈ shown, x.failed = true := by simp
  have hsome : (∃ x ∈ shown, x.failed = false) → ∃ x ∈ samplesIn c text, x.failed = false := by
    rintro ⟨x, hx, hfailed⟩
    exact ⟨x, hsub x hx, hfailed⟩
  rw [if_neg hc, if_neg hc]
  constructor
  · rintro hsame ⟨-, hpresent, haged, hall, hshown⟩
    obtain ⟨-, hnot, -⟩ := hsame.mp ⟨hpresent, hshown, haged⟩
    exact hnone.mp hnot hall
  · intro hhidden
    constructor
    · rintro ⟨hpresent, hshown, haged⟩
      refine ⟨hpresent, hnone.mpr fun hall => ?_, haged⟩
      exact hhidden ⟨hc, hpresent, haged, hall, hshown⟩
    · rintro ⟨hpresent, hshown, haged⟩
      exact ⟨hpresent, hsome hshown, haged⟩

/-- The views of a text and of its tail agree exactly if the last sample keeps its wall time and no
staleness is hidden by failures. -/
theorem sameView_iff (w : Viewing) {name : String} {text : List Char} {full tail : SessionData}
    (hfull : loadSession name (String.ofList text) = .ok full)
    (htail : loadSession name (String.ofList (tailPart text)) = .ok tail) (c : Collector)
    (hsampled : samplesIn c (tailPart text) ≠ []) :
    (∀ a ∈ w.collectorsView full, ∀ b ∈ w.collectorsView tail, a.name = c.name →
        b.name = c.name → SameView a b) ↔ ClockKept c text ∧ ¬ HiddenByFailures w c text := by
  obtain ⟨hsamples, hbase⟩ := loadSession_samples hfull
  obtain ⟨hsamples', hbase'⟩ := loadSession_samples htail
  have hlast := lastWall_eq_iff (hsamples c) hbase (hsamples' c) hbase' hsampled
  have hviews : (∀ a ∈ w.collectorsView full, ∀ b ∈ w.collectorsView tail, a.name = c.name →
        b.name = c.name → SameView a b) ↔
      SameView (w.collectorState full c.name (lastWall full c))
        (w.collectorState tail c.name (lastWall tail c)) := by
    constructor
    · intro hall
      obtain ⟨ha, haname⟩ := (mem_collectorsView w full _ c).mpr rfl
      obtain ⟨hb, hbname⟩ := (mem_collectorsView w tail _ c).mpr rfl
      exact hall _ ha _ hb haname hbname
    · intro hsame a ha b hb haname hbname
      rwa [(mem_collectorsView w full a c).mp ⟨ha, haname⟩,
        (mem_collectorsView w tail b c).mp ⟨hb, hbname⟩]
  have hwalls : (lastWall full c).filter (0 < ·) = (lastWall tail c).filter (0 < ·) ↔
      lastWall full c = lastWall tail c := by
    unfold lastWall
    rw [hsamples c, hsamples' c, hbase, hbase', getLast?_samplesIn hsampled,
      List.getLast?_eq_some_getLast hsampled]
    cases (samplesIn c (Lines.unfinished text)).getLast? with
    | none => simpa using filter_pos_inj _ _
    | some later => simpa using filter_pos_inj _ _
  rw [hviews, ← hlast]
  constructor
  · rintro ⟨hwall, hstale⟩
    have heq := hwalls.mp hwall
    exact ⟨heq, (stale_iff_stale w (hsamples c) (hsamples' c) hbase' hsampled heq).mp hstale⟩
  · rintro ⟨heq, hhidden⟩
    exact ⟨hwalls.mpr heq,
      (stale_iff_stale w (hsamples c) (hsamples' c) hbase' hsampled heq).mpr hhidden⟩

theorem loadFull_encode {path name : String} {text : List Char} {full : SessionData} :
    loadFull ⟨path, name, Utf8.encode text⟩ = .ok full ↔
      loadSession name (String.ofList text) = .ok full := by
  unfold loadFull readToString
  rw [Utf8.decode_encode]
  cases hload : loadSession name (String.ofList text) with
  | ok s => simp [hload]
  | error fault => simp [hload]

theorem readTailSession_long (path : String) {name : String} {text : List Char}
    {tail : SessionData} (hlong : tailBytes < (Utf8.encode text).length)
    (htail : loadSession name (String.ofList (tailPart text)) = .ok tail) :
    readTailSession ⟨path, name, Utf8.encode text⟩ =
      .ok (tail, Utf8.decodeLossy ((Utf8.encode text).take headBytes),
        (Utf8.encode text).length) := by
  unfold readTailSession
  rw [readHeadTail_long hlong]
  simp only [htail]

/-- For a collector with a sample in the tail of a long recording, the tail view agrees with the
view of the whole exactly if its last sample keeps its wall time and no staleness is hidden by
failures. -/
theorem tail_view_iff (w : Viewing) (path name : String) (text : List Char) (c : Collector)
    {full : SessionData} (hlong : tailBytes < (Utf8.encode text).length)
    (hfull : loadFull ⟨path, name, Utf8.encode text⟩ = .ok full)
    (hsampled : samplesIn c (tailPart text) ≠ []) :
    ∃ tail head size, readTailSession ⟨path, name, Utf8.encode text⟩ = .ok (tail, head, size) ∧
      ((∀ a ∈ w.collectorsView full, ∀ b ∈ w.collectorsView tail, a.name = c.name →
          b.name = c.name → SameView a b) ↔
        ClockKept c text ∧ ¬ HiddenByFailures w c text) := by
  have hload := loadFull_encode.mp hfull
  obtain ⟨tail, htail⟩ := loadSession_tailPart hload
  exact ⟨tail, _, _, readTailSession_long path hlong htail, sameView_iff w hload htail c hsampled⟩

/-! ## A recording with a header -/

def headerText : List Char := "\x7b\"type\":\"session_header\",\"wall_ms\":1001000\x7d".toList

/-- A record of 63 bytes, ten seconds into the recording. -/
def processText : List Char :=
  "\x7b\"collector\":\"proc\",\"mono_ms\":10000,\"wall_ms\":1011000,\"top\":[]\x7d".toList

/-- A header before as many records as the tail has room for. -/
def recording : List Char := Lines.terminated (headerText :: List.replicate 2048 processText)

def headerRecord : JVal := (parse (String.ofList headerText)).toOption.getD .null

def processRecord : JVal := (parse (String.ofList processText)).toOption.getD .null

/-- What the writer puts on the header's line. -/
def headerRecordMembers : List (String × Written) :=
  [("type", .string "session_header"), ("wall_ms", .number 1001000)]

/-- What the collector puts on the record's line. -/
def processRecordMembers : List (String × Written) :=
  [("collector", .string "proc"), ("mono_ms", .number 10000), ("wall_ms", .number 1011000),
    ("top", .emptyList)]

theorem texts_eq : headerText = lineText headerRecordMembers ∧
    processText = lineText processRecordMembers := by
  decide +kernel

theorem headerText_eq : headerText = lineText headerRecordMembers := texts_eq.1

theorem processText_eq : processText = lineText processRecordMembers := texts_eq.2

theorem headerRecord_eq : headerRecord = lineValue headerRecordMembers := by
  rw [headerRecord, headerText_eq, parse_lineText]
  rfl

theorem processRecord_eq : processRecord = lineValue processRecordMembers := by
  rw [processRecord, processText_eq, parse_lineText]
  rfl

theorem parse_headerText : parse (String.ofList headerText) = .ok headerRecord := by
  rw [headerText_eq, parse_lineText, headerRecord_eq]

theorem parse_processText : parse (String.ofList processText) = .ok processRecord := by
  rw [processText_eq, parse_lineText, processRecord_eq]

/-- What the header and the record are loaded as. -/
theorem records_loaded :
    (wallMs (lineValue headerRecordMembers) = 1001000 ∧
      (loadRecord (lineValue headerRecordMembers) default).isOk = true) ∧
    wallMs (lineValue processRecordMembers) = 1011000 ∧
      (loadRecord (lineValue processRecordMembers) default).isOk = true ∧
      samplesOf .proc (lineValue processRecordMembers) = [⟨.offset (seconds 10000), false⟩] ∧
      (Clock.offset (seconds 10000)).wall 1001000 ≠ (Clock.offset (seconds 10000)).wall 1011000 := by
  decide +kernel

theorem wallMs_headerRecord : wallMs headerRecord = 1001000 := by
  rw [headerRecord_eq]
  exact records_loaded.1.1

theorem wallMs_processRecord : wallMs processRecord = 1011000 := by
  rw [processRecord_eq]
  exact records_loaded.2.1

theorem samplesOf_processRecord :
    samplesOf .proc processRecord = [⟨.offset (seconds 10000), false⟩] := by
  rw [processRecord_eq]
  exact records_loaded.2.2.2.1

theorem texts_length : (Utf8.encode (processText ++ ['\n'])).length = 64 ∧
    0 < (Utf8.encode (headerText ++ ['\n'])).length := by
  decide +kernel

/-- So many lines have so many times sixty-four bytes. -/
theorem length_processLines (n : Nat) :
    (Utf8.encode (Lines.terminated (List.replicate n processText))).length = n * 64 := by
  have hline : (Utf8.encode (processText ++ ['\n'])).length = 64 := texts_length.1
  induction n with
  | zero => rfl
  | succ n ih =>
      rw [List.replicate_succ, Lines.terminated_cons, ← List.singleton_append, ← List.append_assoc,
        Utf8.encode_append, List.length_append, hline, ih]
      omega

theorem recording_split : recording = (headerText ++ ['\n']) ++
    Lines.terminated (List.replicate 2048 processText) := by
  rw [recording, Lines.terminated_cons, List.append_assoc, List.singleton_append]

theorem recording_long : tailBytes < (Utf8.encode recording).length := by
  have hheader : 0 < (Utf8.encode (headerText ++ ['\n'])).length := texts_length.2
  have hbytes : tailBytes = 2048 * 64 := rfl
  rw [recording_split, Utf8.encode_append, List.length_append, length_processLines]
  omega

/-- The tail begins with the second record. -/
theorem tailPart_recording :
    tailPart recording = Lines.terminated (List.replicate 2047 processText) := by
  have hlast : lastBytes tailBytes (Utf8.encode recording) =
      Utf8.encode (Lines.terminated (List.replicate 2048 processText)) := by
    have hlength : (Utf8.encode (Lines.terminated (List.replicate 2048 processText))).length =
        tailBytes := length_processLines 2048
    rw [recording_split, Utf8.encode_append, lastBytes, List.reverse_append, ← hlength,
      ← List.length_reverse, List.take_left, List.reverse_reverse]
  have hnewline : '\n' ∉ processText := processText_eq ▸ newline_not_mem_lineText _
  rw [tailPart, hlast, Utf8.decodeLossy_encode, List.replicate_succ, Lines.terminated_cons,
    Lines.afterFirst_break hnewline, Lines.whole_terminated]

theorem lines_processTexts (n : Nat) :
    Lines.lines (Lines.terminated (List.replicate n processText)) =
    List.replicate n processText := by
  have hnewline : '\n' ∉ processText := processText_eq ▸ newline_not_mem_lineText _
  have hstrip : Lines.stripCr processText = processText := processText_eq ▸ stripCr_lineText _
  have hlines := @Lines.lines_terminated (List.replicate n processText)
    (fun l hl => (List.eq_of_mem_replicate hl).symm ▸ hnewline) []
  rwa [List.append_nil, Lines.lines_nil, List.append_nil, List.map_replicate, hstrip] at hlines

theorem lines_recording :
    Lines.lines recording = headerText :: List.replicate 2048 processText := by
  have hnewline : '\n' ∉ headerText := headerText_eq ▸ newline_not_mem_lineText _
  have hstrip : Lines.stripCr headerText = headerText := headerText_eq ▸ stripCr_lineText _
  rw [recording, Lines.terminated_cons, Lines.lines_append_newline hnewline, hstrip,
    lines_processTexts]

/-- A line that is a record as it stands. -/
theorem recordsOf_cons {line : List Char} {v : JVal} (htrim : Lines.trim line = line)
    (hne : line ≠ []) (hparse : parse (String.ofList line) = .ok v) (ls : List (List Char)) :
    recordsOf (line :: ls) = v :: recordsOf ls := by
  simp [recordsOf, htrim, hne, hparse, Except.toOption]

theorem recordsOf_processTexts (n : Nat) :
    recordsOf (List.replicate n processText) = List.replicate n processRecord := by
  have htrim : Lines.trim processText = processText := processText_eq ▸ trim_lineText _
  induction n with
  | zero => rfl
  | succ n ih =>
      rw [List.replicate_succ, List.replicate_succ,
        recordsOf_cons htrim (List.cons_ne_nil _ _) parse_processText, ih]

theorem recordsOf_recording :
    recordsOf (Lines.lines recording) = headerRecord :: List.replicate 2048 processRecord := by
  have htrim : Lines.trim headerText = headerText := headerText_eq ▸ trim_lineText _
  rw [lines_recording, recordsOf_cons htrim (List.cons_ne_nil _ _) parse_headerText,
    recordsOf_processTexts]

theorem foldl_firstWall {w : UInt64} (hw : w ≠ 0) (vs : List JVal) : vs.foldl firstWall w = w := by
  induction vs with
  | nil => rfl
  | cons v vs ih => rw [List.foldl_cons, firstWall, if_neg hw, ih]

/-- The recording starts at the wall time of its header, the tail at that of its first record. -/
theorem wallBaseIn_recording : wallBaseIn recording = 1001000 ∧
    wallBaseIn (tailPart recording) = 1011000 := by
  constructor
  · rw [wallBaseIn, recordsOf_recording, firstWallOf, List.foldl_cons, firstWall, if_pos rfl,
      wallMs_headerRecord, foldl_firstWall (by decide)]
  · rw [wallBaseIn, tailPart_recording, lines_processTexts, recordsOf_processTexts, firstWallOf,
      List.replicate_succ, List.foldl_cons, firstWall, if_pos rfl, wallMs_processRecord,
      foldl_firstWall (by decide)]

theorem flatMap_processRecords (n : Nat) :
    (List.replicate n processRecord).flatMap (samplesOf .proc) =
      List.replicate n ⟨.offset (seconds 10000), false⟩ := by
  induction n with
  | zero => rfl
  | succ n ih =>
      rw [List.replicate_succ, List.flatMap_cons, samplesOf_processRecord, ih, List.replicate_succ,
        List.singleton_append]

theorem samplesIn_tail_recording : samplesIn .proc (tailPart recording) =
    List.replicate 2047 ⟨.offset (seconds 10000), false⟩ := by
  rw [samplesIn, tailPart_recording, lines_processTexts, recordsOf_processTexts,
    flatMap_processRecords]

theorem sampled_tail_recording : samplesIn .proc (tailPart recording) ≠ [] := by
  rw [samplesIn_tail_recording, List.replicate_succ]
  exact List.cons_ne_nil _ _

theorem last_tail_recording : (samplesIn .proc (tailPart recording)).getLast? =
    some ⟨.offset (seconds 10000), false⟩ := by
  rw [samplesIn_tail_recording, List.getLast?_replicate, if_neg (by decide)]

theorem unfinished_recording : samplesIn .proc (Lines.unfinished recording) = [] := by
  rw [recording, Lines.unfinished_terminated]
  rfl

theorem recording_loads (name : String) :
    ∃ full, loadSession name (String.ofList recording) = .ok full := by
  have hloadable : ∀ {line : List Char} {v : JVal}, Lines.trim line = line →
      parse (String.ofList line) = .ok v → (loadRecord v default).isOk = true → Loadable line := by
    intro line v htrim hparse hok _
    rw [htrim]
    exact ⟨v, hparse, (loadRecord_isOk v default).mp hok⟩
  have hheader : Loadable headerText :=
    hloadable (headerText_eq ▸ trim_lineText _) parse_headerText
      (headerRecord_eq ▸ records_loaded.1.2)
  have hprocess : Loadable processText :=
    hloadable (processText_eq ▸ trim_lineText _) parse_processText
      (processRecord_eq ▸ records_loaded.2.2.1)
  rw [exists_eq_ok, loadSession_isOk, String.toList_ofList, lines_recording, List.forall_mem_cons]
  exact ⟨hheader, fun line hline => (List.eq_of_mem_replicate hline).symm ▸ hprocess⟩

def recordingFile : SessionFile := ⟨"sessions/run.jsonl", "run.jsonl", Utf8.encode recording⟩

def sampleViewing : Viewing := ⟨none, 1000, ⟨[]⟩, 1020000, 0⟩

theorem tail_view_iff_recording : ∃ full, loadFull recordingFile = .ok full ∧
    ∃ tail head size, readTailSession recordingFile = .ok (tail, head, size) ∧
      ((∀ a ∈ sampleViewing.collectorsView full, ∀ b ∈ sampleViewing.collectorsView tail,
          a.name = Collector.proc.name → b.name = Collector.proc.name → SameView a b) ↔
        ClockKept .proc recording ∧ ¬ HiddenByFailures sampleViewing .proc recording) := by
  obtain ⟨full, hload⟩ := recording_loads "run.jsonl"
  have hfull : loadFull recordingFile = .ok full := loadFull_encode.mpr hload
  exact ⟨full, hfull, tail_view_iff sampleViewing _ _ recording .proc recording_long hfull
    sampled_tail_recording⟩

/-- The recording tells that its processes were last sampled ten seconds after its header, its
tail that they were sampled ten seconds later still. -/
theorem tail_view_ahead : ¬ ∀ (w : Viewing) (file : SessionFile) (c : Collector)
    (full tail : SessionData) (head : List Char) (size : Nat), tailBytes < file.bytes.length →
    loadFull file = .ok full → readTailSession file = .ok (tail, head, size) →
    samples tail c ≠ [] →
    ∀ a ∈ w.collectorsView full, ∀ b ∈ w.collectorsView tail, a.name = c.name →
      b.name = c.name → SameView a b := by
  intro hall
  obtain ⟨full, hfull⟩ := recording_loads "run.jsonl"
  obtain ⟨tail, htail⟩ := loadSession_tailPart hfull
  have hsamples := (loadSession_samples htail).1 .proc
  have hsampled : samples tail .proc ≠ [] := by
    rw [hsamples]
    exact sampled_tail_recording
  have hviews := hall sampleViewing recordingFile .proc full tail _ _ recording_long
    (loadFull_encode.mpr hfull) (readTailSession_long _ recording_long htail) hsampled
  obtain ⟨hkept, -⟩ :=
    (sameView_iff sampleViewing hfull htail .proc sampled_tail_recording).mp hviews
  have hwalls := hkept.wall_eq last_tail_recording unfinished_recording
  rw [wallBaseIn_recording.1, wallBaseIn_recording.2] at hwalls
  exact records_loaded.2.2.2.2 hwalls

end PowerForensics.Sessions
