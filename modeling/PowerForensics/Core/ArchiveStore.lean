import PowerForensics.Core.ArchiveTable
import PowerForensics.Core.Envelope

/-! # The store of a loaded archive

The records of a session are read back one after another, and every one of them belongs to a
series of the table. The store that comes out holds each sample under its millisecond and
series, with the evidence that the record could carry.
-/

namespace PowerForensics.Archive

open Json Session FirstSeen Lookup

/-! ## The stream of records -/

theorem putRec_ne_nil (r : Rec) (rest : List UInt8) : putRec r ++ rest ≠ [] := by
  intro h
  have hlength := congrArg List.length h
  rw [putRec, List.length_append, List.length_append, length_header, headerLen,
    List.length_nil] at hlength
  omega

/-- A stream of whole records is read as the records that it was written from. -/
theorem loadRecords_putRec (table : List (UInt16 × Key)) (records : List Rec) {fuel : Nat}
    (hfuel : records.length ≤ fuel) (store : Store) :
    loadRecords table fuel (records.flatMap putRec) store =
      (records.map Rec.kept).foldlM (Store.add table) store := by
  induction records generalizing fuel store with
  | nil => cases fuel <;> rfl
  | cons r records ih =>
      obtain ⟨fuel, rfl⟩ := Nat.exists_eq_add_of_le' (Nat.one_le_of_lt hfuel)
      rw [List.flatMap_cons, loadRecords, if_neg (putRec_ne_nil r _), getRec_putRec,
        List.map_cons, List.foldlM_cons]
      dsimp only
      apply bind_congr
      intro store
      exact ih (by simpa using hfuel) store

theorem length_le_flatMap_putRec (records : List Rec) :
    records.length ≤ (records.flatMap putRec).length := by
  induction records with
  | nil => exact Nat.le_refl _
  | cons r records ih =>
      rw [List.flatMap_cons, List.length_append, List.length_cons, putRec, List.length_append,
        length_header, headerLen]
      omega

/-! ## Readings that come back -/

/-- The clocks of a record. -/
def Sample.stamp (wallBase : UInt64) (x : Sample) : ClockStamp :=
  ⟨wallBase + recMillis x.t, recMillis x.t⟩

/-- The front of a reason that comes back. -/
def reasonFront (reason : String) : Option (List Char) :=
  truncate reasonLimit (keptReason reason).toList

/-- The reason of an absent value can be kept. -/
def KeepableReading (value : Reading Binary64) : Prop :=
  ∀ reason, value = .unavailable reason → (reasonFront reason).isSome

/-- The value that comes back. -/
def restoredValue : Reading Binary64 → Reading Binary64
  | .unavailable reason => .unavailable (.ofList ((reasonFront reason).getD []))
  | value => value

/-- The reading that comes back. -/
def restored (v : Telemetry Binary64) (source : String) (stamp : ClockStamp) :
    Telemetry Binary64 :=
  match v.value with
  | .unavailable _ =>
      ⟨restoredValue v.value, source, stamp, v.quality, some (v.unavailKind.getD .notSampled)⟩
  | _ => ⟨v.value, source, stamp, freshUnlessKnown v.quality, none⟩

theorem tele_absent {r : Rec} (hval : r.val = none) (source : String) :
    tele r source = (internReason r.reason).bind fun reason =>
      .ok ⟨.unavailable reason, source, ⟨r.wall, r.mono⟩, SampleQuality.fromU8 r.quality,
        some (.fromU8 r.kind)⟩ := by
  rw [tele, hval]
  rfl

/-- A value comes back with its provenance. -/
theorem tele_present (wallBase : UInt64) (x : Sample) (source : String)
    (hvalue : ∀ reason, x.v.value ≠ .unavailable reason) :
    tele (x.toRec wallBase).kept source = .ok (restored x.v source (x.stamp wallBase)) := by
  obtain ⟨t, id, ⟨value, src, stamp, quality, kind⟩⟩ := x
  cases value with
  | unavailable reason => exact absurd rfl (hvalue reason)
  | measured y => cases quality <;> rfl
  | derived y => cases quality <;> rfl
  | estimated y => cases quality <;> rfl

theorem tele_sample (wallBase : UInt64) (x : Sample) (source : String)
    (v : Telemetry Binary64) :
    tele (x.toRec wallBase).kept source = .ok v ↔
      KeepableReading x.v.value ∧ v = restored x.v source (x.stamp wallBase) := by
  by_cases hpresent : ∀ reason, x.v.value ≠ .unavailable reason
  · have hkeepable : KeepableReading x.v.value := fun reason h => absurd h (hpresent reason)
    rw [tele_present wallBase x source hpresent]
    exact ⟨fun h => ⟨hkeepable, (Except.ok.inj h).symm⟩, fun h => congrArg Except.ok h.2.symm⟩
  · obtain ⟨t, id, ⟨value, src, stamp, quality, kind⟩⟩ := x
    obtain ⟨reason, rfl⟩ : ∃ reason, value = .unavailable reason := by
      simpa using hpresent
    have hkeepable : KeepableReading (.unavailable reason) ↔ (reasonFront reason).isSome :=
      ⟨fun h => h reason rfl, fun h r hr => by cases hr; exact h⟩
    have hkind : UnavailKind.fromU8 (kind.getD .notSampled).code = kind.getD .notSampled :=
      UnavailKind.fromU8_code _
    have hquality : SampleQuality.fromU8 quality.code = quality := SampleQuality.fromU8_code quality
    rw [tele_absent rfl, hkeepable]
    simp only [Sample.toRec, Rec.kept, absenceReason, hquality, hkind]
    cases hfront : reasonFront reason with
    | none =>
        have hfail : ∃ e, internReason (keptReason reason) = .error e := by
          have hok := internReason_isOk (keptReason reason)
          rw [reasonFront] at hfront
          rw [hfront] at hok
          cases hintern : internReason (keptReason reason) with
          | ok s => simp [hintern] at hok
          | error e => exact ⟨e, rfl⟩
        obtain ⟨e, he⟩ := hfail
        simp [he, Except.bind]
    | some cs =>
        rw [internReason_of_cut hfront]
        simp [Except.bind, restored, restoredValue, hfront, Sample.stamp, eq_comm]

/-! ## Samples and their series -/

/-- What holds of every sample of a list. -/
def Every (P : Sample → Prop) (l : List Sample) : Prop := ∀ x ∈ l, P x

section Every

variable {P : Sample → Prop}

@[simp] theorem every_nil : Every P [] := fun _ h => absurd h List.not_mem_nil

@[simp] theorem every_cons {x : Sample} {l : List Sample} : Every P (x :: l) ↔ P x ∧ Every P l :=
  List.forall_mem_cons

@[simp] theorem every_append {l l' : List Sample} : Every P (l ++ l') ↔ Every P l ∧ Every P l' :=
  List.forall_mem_append

@[simp] theorem every_flatMap {α : Type} {f : α → List Sample} {l : List α} :
    Every P (l.flatMap f) ↔ ∀ a ∈ l, Every P (f a) := List.forall_mem_flatMap

@[simp] theorem every_map {α : Type} {f : α → Sample} {l : List α} :
    Every P (l.map f) ↔ ∀ a ∈ l, P (f a) := List.forall_mem_map

end Every

/-- The fixed numbers. -/
def staticIds : List UInt16 := (List.range 50).map UInt16.ofNat

/-- A sample of a series with a fixed number. -/
def Static (x : Sample) : Prop := x.id ∈ staticIds

/-- A sample of a series of the table. -/
def Dynamic (tbl : DynTable) (x : Sample) : Prop :=
  ∃ collector metric extra, tbl.idOf collector metric extra = some x.id

section Series

variable {tbl : DynTable} {P : Sample → Prop} {ids : List UInt16}

theorem every_sampleAt (hdynamic : ∀ x, Dynamic tbl x → P x) (t : Binary64)
    (collector metric extra : String) (v : Telemetry Binary64) :
    Every P (sampleAt tbl t collector metric extra v) := by
  intro x hx
  obtain ⟨id, hid, rfl⟩ := Option.map_eq_some_iff.mp (Option.mem_toList.mp hx)
  exact hdynamic _ ⟨_, _, _, hid⟩

theorem every_windowSamples (hstatic : ∀ x : Sample, x.id ∈ ids → P x) (t : Binary64)
    {startId endId : UInt16} (w : Window) (hstart : startId ∈ ids) (hend : endId ∈ ids) :
    Every P (windowSamples t startId endId w) := by
  intro x hx
  rcases List.mem_append.mp hx with h | h
  · obtain ⟨ms, -, rfl⟩ := Option.map_eq_some_iff.mp (Option.mem_toList.mp h)
    exact hstatic _ hstart
  · obtain ⟨ms, -, rfl⟩ := Option.map_eq_some_iff.mp (Option.mem_toList.mp h)
    exact hstatic _ hend

theorem every_usbClass (hstatic : ∀ x : Sample, x.id ∈ ids → P x)
    (hbuiltin : ∀ e ∈ builtinClasses, e.2 ∈ ids) (hdynamic : ∀ x, Dynamic tbl x → P x)
    (t : Binary64) (c : UsbClassCount) :
    Every P ((usbClassId tbl c.className).map fun id => (⟨t, id, c.evidence⟩ : Sample)).toList := by
  intro x hx
  obtain ⟨id, hid, rfl⟩ := Option.map_eq_some_iff.mp (Option.mem_toList.mp hx)
  unfold usbClassId at hid
  rcases Option.or_eq_some_iff.mp hid with h | ⟨-, h⟩
  · obtain ⟨front, back, hsplit, -⟩ := List.lookup_eq_some_iff.mp h
    exact hstatic _ (hbuiltin (c.className, id) (by simp [hsplit]))
  · exact hdynamic _ ⟨_, _, _, h⟩

/-- The fixed numbers but those of the battery's own series. -/
def otherIds : List UInt16 := staticIds.drop 4

/-- What holds of the battery's samples, of those of the other fixed series and of the series of
the table holds of every sample of a session. -/
theorem every_samples_battery {s : SessionData} (hbattery : Every P (batterySamples s))
    (hstatic : ∀ x : Sample, x.id ∈ otherIds → P x) (hdynamic : ∀ x, Dynamic tbl x → P x) :
    Every P (samples tbl s) := by
  have hid : ∀ (t : Binary64) {id : UInt16} (v : Telemetry Binary64), id ∈ otherIds →
    P ⟨t, id, v⟩ :=
    fun t _ v h => hstatic _ h
  have hwindow : ∀ (t : Binary64) {a b : UInt16} (w : Window), a ∈ otherIds → b ∈ otherIds →
      Every P (windowSamples t a b w) := fun t _ _ w => every_windowSamples hstatic t w
  have husb := every_usbClass hstatic (by decide) hdynamic
  simp (disch := decide) only [samples, windows, batteryWindows, cpuSamples,
    coreSamples, gpuSamples, gpuAdapterSamples, procSamples, procEntrySamples, displaySamples,
    displayEntrySamples, netSamples, netAdapterSamples, storageSamples, usbSamples, selfSamples,
    every_append, every_flatMap, every_cons, every_map, every_nil, hid, hwindow, hbattery,
    every_sampleAt hdynamic, husb, implies_true, and_true]

/-- What holds of the samples of fixed series and of the series of the table holds of every
sample of a session. -/
theorem every_samples (hstatic : ∀ x, Static x → P x) (hdynamic : ∀ x, Dynamic tbl x → P x)
    (s : SessionData) : Every P (samples tbl s) := by
  have hid : ∀ (t : Binary64) {id : UInt16} (v : Telemetry Binary64), id ∈ staticIds →
    P ⟨t, id, v⟩ :=
    fun t _ v h => hstatic _ h
  refine every_samples_battery ?_ (fun x hx => hstatic x (List.mem_of_mem_drop hx)) hdynamic
  simp (disch := decide) only [batterySamples, every_append, every_flatMap, every_cons, every_nil,
    hid, implies_true, and_true]

end Series

/-- Every sample of a session belongs to a series of its table. -/
theorem known_samples (tbl : DynTable) (s : SessionData) :
    Every (fun x => x.id ∈ (tableOf tbl).map Prod.fst) (samples tbl s) := by
  apply every_samples
  · intro x hx
    rw [tableOf, List.map_append, ids_staticTable]
    exact List.mem_append_left _ hx
  · rintro x ⟨collector, metric, extra, hid⟩
    obtain ⟨d, hd, heq⟩ := Option.map_eq_some_iff.mp hid
    rw [tableOf, List.map_append, List.map_map, ← heq]
    exact List.mem_append_right _ (List.mem_map_of_mem (List.mem_of_find?_eq_some hd))

/-! ## The store of a session -/

/-- The collector that a number stands for. -/
def sourceOf (table : List (UInt16 × Key)) (id : UInt16) : String :=
  collectorSource (((table.lookup id).map Key.collector).getD "")

/-- What the sample is read back as. -/
def Sample.restored (table : List (UInt16 × Key)) (wallBase : UInt64) (x : Sample) :
    Telemetry Binary64 :=
  Archive.restored x.v (sourceOf table x.id) (x.stamp wallBase)

/-- The store that holds the samples in order. -/
def storeOf (table : List (UInt16 × Key)) (wallBase : UInt64) (l : List Sample) : Store where
  scalar := l.map fun x => ((recMillis x.t, x.id), x.restored table wallBase)
  times := firstSeen Prod.fst (l.map fun x => (recMillis x.t, wallBase + recMillis x.t))

theorem add_sample {table : List (UInt16 × Key)} {wallBase : UInt64} {x : Sample}
    (hknown : x.id ∈ table.map Prod.fst) (l : List Sample) (store : Store) :
    (storeOf table wallBase l).add table (x.toRec wallBase).kept = .ok store ↔
      KeepableReading x.v.value ∧ store = storeOf table wallBase (l ++ [x]) := by
  obtain ⟨series, hseries⟩ : ∃ series, table.lookup x.id = some series :=
    Option.isSome_iff_exists.mp (lookup_isSome.mpr hknown)
  have hstore : storeOf table wallBase (l ++ [x]) =
      ⟨(storeOf table wallBase l).scalar ++ [((recMillis x.t, x.id), x.restored table wallBase)],
        see Prod.fst (storeOf table wallBase l).times (recMillis x.t, wallBase + recMillis x.t)⟩ := by
    simp [storeOf, firstSeen]
  have hrestored : x.restored table wallBase =
      Archive.restored x.v (collectorSource series.collector) (x.stamp wallBase) := by
    rw [Sample.restored, sourceOf, hseries]
    rfl
  have hmetric : (x.toRec wallBase).kept.metric = x.id := rfl
  rw [Store.add, hmetric, hseries, hstore, hrestored]
  dsimp only
  rw [bind_eq_ok]
  simp only [tele_sample]
  constructor
  · rintro ⟨v, ⟨hkeepable, rfl⟩, hadd⟩
    exact ⟨hkeepable, (Except.ok.inj hadd).symm⟩
  · rintro ⟨hkeepable, rfl⟩
    exact ⟨_, ⟨hkeepable, rfl⟩, rfl⟩

/-- Samples of known series are loaded exactly if every reason among them can be kept. -/
theorem foldlM_add {table : List (UInt16 × Key)} {wallBase : UInt64} {l : List Sample}
    (hknown : Every (fun x => x.id ∈ table.map Prod.fst) l) (before : List Sample) (store : Store) :
    ((l.map fun x => (x.toRec wallBase).kept).foldlM (Store.add table)
        (storeOf table wallBase before)) = .ok store ↔
      Every (fun x => KeepableReading x.v.value) l ∧
        store = storeOf table wallBase (before ++ l) := by
  induction l generalizing before with
  | nil => simp [pure, Except.pure, eq_comm]
  | cons x l ih =>
      obtain ⟨hx, hl⟩ := every_cons.mp hknown
      rw [List.map_cons, List.foldlM_cons, bind_eq_ok, every_cons, List.append_cons]
      simp only [add_sample hx]
      constructor
      · rintro ⟨_, ⟨hkeepable, rfl⟩, hrest⟩
        obtain ⟨hall, hstore⟩ := (ih hl (before ++ [x])).mp hrest
        exact ⟨⟨hkeepable, hall⟩, hstore⟩
      · rintro ⟨⟨hkeepable, hall⟩, hstore⟩
        exact ⟨_, ⟨hkeepable, rfl⟩, (ih hl (before ++ [x])).mpr ⟨hall, hstore⟩⟩

/-- The records of a session are loaded exactly if every reason among them can be kept. -/
theorem loadRecords_samples (s : SessionData) (store : Store) :
    loadRecords (tableOf (dynTable s))
        ((samples (dynTable s) s).flatMap fun x => putRec (x.toRec s.wallBaseMs)).length
        ((samples (dynTable s) s).flatMap fun x => putRec (x.toRec s.wallBaseMs)) ⟨[], []⟩ =
        .ok store ↔
      Every (fun x => KeepableReading x.v.value) (samples (dynTable s) s) ∧
        store = storeOf (tableOf (dynTable s)) s.wallBaseMs (samples (dynTable s) s) := by
  have hflat : ((samples (dynTable s) s).flatMap fun x => putRec (x.toRec s.wallBaseMs)) =
      ((samples (dynTable s) s).map (Sample.toRec s.wallBaseMs)).flatMap putRec := by
    rw [List.flatMap_map]
  rw [hflat, loadRecords_putRec _ _ (length_le_flatMap_putRec _), List.map_map]
  exact foldlM_add (known_samples _ s) [] store

end PowerForensics.Archive
