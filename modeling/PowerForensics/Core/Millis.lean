import PowerForensics.Binary64.Quotient
import PowerForensics.Core.SessionLoader

/-! # Milliseconds through the loader

The milliseconds of a record are divided by a thousand and multiplied again before they
are truncated, in the stamp of its readings and once more in the keys that migration
writes for its points. Both times the quotient is the same.
-/

namespace PowerForensics.Session

open Json Binary64

/-- The millisecond key that migration writes for a point. -/
def recMillis (t : Binary64) : UInt64 := asU64 (t * 1000.0)

/-! ## Points that a record adds -/

/-- The times of every series that migration writes by its milliseconds. -/
def seriesTimes (s : SessionData) : List (List Binary64) :=
  [s.battery.map BatteryPoint.t, s.batteryExtra.map BatteryExtraPoint.t, s.cpu.map CpuPoint.t,
    s.gpu.map GpuPoint.t, s.procs.map ProcPoint.t, s.display.map DisplayPoint.t,
    s.net.map NetPoint.t, s.storage.map StoragePoint.t, s.usb.map UsbPoint.t,
    s.selfmon.map SelfPoint.t]

/-- The time of a point that a series has behind its former points. -/
def LoadedTime (s s' : SessionData) (t : Binary64) : Prop :=
  ∃ times ∈ (seriesTimes s).zip (seriesTimes s'), ∃ added, times.2 = times.1 ++ added ∧ t ∈ added

/-- Points that were added have the given time. -/
def AddsAt (t : Binary64) (s s' : SessionData) : Prop := ∀ t', LoadedTime s s' t' → t' = t

section Calls

variable {α β : Type}

/-- What the call returns, if it does, has the property. -/
def Gives (P : β → Prop) (x : Except Fault β) : Prop := ∀ b, x = .ok b → P b

theorem Gives.bind {P : β → Prop} {x : Except Fault α} {f : α → Except Fault β}
    (hf : ∀ a, Gives P (f a)) : Gives P (x >>= f) := by
  cases x with
  | ok a => exact hf a
  | error fault => exact nofun

theorem gives_pure {P : β → Prop} {b : β} (hb : P b) : Gives P (pure b : Except Fault β) := by
  intro b' heq
  obtain rfl := Except.ok.inj heq
  exact hb

end Calls

theorem addsAt_of_follows {t : Binary64} {s s' : SessionData}
    (hfollows : ∀ times ∈ (seriesTimes s).zip (seriesTimes s'),
      times.2 = times.1 ∨ times.2 = times.1 ++ [t]) : AddsAt t s s' := by
  rintro t' ⟨times, htimes, added, hadded, ht'⟩
  rcases hfollows times htimes with h | h
  · rw [h, List.self_eq_append_right] at hadded
    rw [hadded] at ht'
    cases ht'
  · rw [h, List.append_cancel_left_eq] at hadded
    rw [← hadded] at ht'
    exact List.mem_singleton.mp ht'

theorem AddsAt.of_times {t : Binary64} {s s₁ s' : SessionData} (hadds : AddsAt t s₁ s')
    (htimes : seriesTimes s₁ = seriesTimes s) : AddsAt t s s' := by
  unfold AddsAt LoadedTime at *
  rwa [htimes] at hadds

theorem addsAt_self (t : Binary64) (s : SessionData) : AddsAt t s s := by
  apply addsAt_of_follows
  rintro ⟨old, new⟩ htimes
  rw [List.zip_eq_zipWith, List.zipWith_self, List.mem_map] at htimes
  obtain ⟨times, -, heq⟩ := htimes
  obtain ⟨rfl, rfl⟩ := Prod.mk.inj heq
  exact Or.inl rfl

/-- The points that a loader adds have the milliseconds of the stamp for their time. -/
theorem collectorLoader_addsAt (v : JVal) (stamp : ClockStamp) (s : SessionData)
    {collector : String} {load : JVal → ClockStamp → SessionData → Except Fault SessionData}
    (hload : collectorLoader collector = some load) :
    Gives (AddsAt (seconds stamp.monoMillis) s) (load v stamp s) := by
  cases hload using collectorLoader_cases with
  | battery =>
      unfold loadBattery
      repeat refine Gives.bind fun _ => ?_
      exact gives_pure (addsAt_of_follows (by simp [seriesTimes]))
  | cpu =>
      unfold loadCpu
      repeat refine Gives.bind fun _ => ?_
      exact gives_pure (addsAt_of_follows (by simp [seriesTimes]))
  | gpu =>
      unfold loadGpu
      exact Gives.bind fun _ => gives_pure (addsAt_of_follows (by simp [seriesTimes]))
  | procs =>
      unfold loadProcs
      exact Gives.bind fun _ => gives_pure (addsAt_of_follows (by simp [seriesTimes]))
  | display =>
      unfold loadDisplay
      exact Gives.bind fun _ => gives_pure (addsAt_of_follows (by simp [seriesTimes]))
  | net =>
      unfold loadNet
      repeat refine Gives.bind fun _ => ?_
      exact gives_pure (addsAt_of_follows (by simp [seriesTimes]))
  | storage =>
      unfold loadStorage
      repeat refine Gives.bind fun _ => ?_
      exact gives_pure (addsAt_of_follows (by simp [seriesTimes]))
  | usb =>
      unfold loadUsb
      exact Gives.bind fun _ => gives_pure (addsAt_of_follows (by simp [seriesTimes]))
  | selfmon =>
      unfold loadSelfmon
      repeat refine Gives.bind fun _ => ?_
      exact gives_pure (addsAt_of_follows (by simp [seriesTimes]))
  | policy =>
      unfold loadPolicy
      repeat refine Gives.bind fun _ => ?_
      exact gives_pure (addsAt_of_follows (by simp [seriesTimes, addPolicy]))

theorem loadRecord_addsAt (v : JVal) (s : SessionData) :
    Gives (AddsAt (seconds (stampOf v).monoMillis) s) (loadRecord v s) := by
  have hwall : seriesTimes (if s.wallBaseMs = 0 then { s with wallBaseMs := wallMs v } else s) =
      seriesTimes s := by
    split <;> rfl
  have hself := (addsAt_self (seconds (stampOf v).monoMillis)
    (if s.wallBaseMs = 0 then { s with wallBaseMs := wallMs v } else s)).of_times hwall
  unfold loadRecord
  dsimp only
  split
  next load hload =>
    obtain ⟨collector, -, hcollector⟩ := Option.bind_eq_some_iff.mp hload
    intro s' hs'
    exact (collectorLoader_addsAt v _ _ hcollector s' hs').of_times hwall
  · split
    · exact gives_pure hself
    · split
      · exact gives_pure hself
      · exact gives_pure hself

/-! ## Milliseconds that are kept -/

/-- The stamp of the record has its milliseconds, and so has the key of every point that is
loaded from it. -/
def KeepsMillis (v : JVal) (m : Nat) : Prop :=
  (stampOf v).monoMillis = UInt64.ofNat m ∧
    ∀ s s', loadRecord v s = .ok s' → ∀ t, LoadedTime s s' t → recMillis t = UInt64.ofNat m

theorem ofNat_toNat_thousand {m : Nat} (hlt : m < 2 ^ 53) :
    asU64 (ofNat m / 1000.0 * 1000.0) = UInt64.ofNat m ↔ ThousandSurvives m := by
  have htrunc : (ofNat m / 1000.0 * 1000.0).toUnsigned 64 < 2 ^ 64 := toUnsigned_lt 64 _
  rw [← toUnsigned_thousand_iff hlt, asU64]
  constructor
  · intro heq
    have hnat := congrArg UInt64.toNat heq
    rwa [UInt64.toNat_ofNat_of_lt' htrunc,
      UInt64.toNat_ofNat_of_lt' (hlt.trans (by decide))] at hnat
  · exact congrArg UInt64.ofNat

/-- The milliseconds of a record below `2 ^ 53` are kept exactly if they survive the division by
a thousand, and records that keep different ones have different stamps. -/
theorem keepsMillis_iff (v : JVal) (m : Nat) (hmillis : v.numAt "mono_ms" = some (ofNat m))
    (hlt : m < 2 ^ 53) :
    (KeepsMillis v m ↔ ThousandSurvives m) ∧
      ∀ v' m', v'.numAt "mono_ms" = some (ofNat m') → m' < 2 ^ 53 → ThousandSurvives m →
        ThousandSurvives m' → m ≠ m' → (stampOf v).monoMillis ≠ (stampOf v').monoMillis := by
  have hstamp : ∀ v m, v.numAt "mono_ms" = some (ofNat m) →
      (stampOf v).monoMillis = asU64 (ofNat m / 1000.0 * 1000.0) := by
    intro v m hmillis
    rw [stampOf, monoS, hmillis, Option.getD_some]
  have hsize : ∀ {n : Nat}, n < 2 ^ 53 → (UInt64.ofNat n).toNat = n := fun hn =>
    UInt64.toNat_ofNat_of_lt' (hn.trans (by decide))
  constructor
  · rw [← ofNat_toNat_thousand hlt, ← hstamp v m hmillis]
    refine ⟨And.left, fun hkept => ⟨hkept, fun s s' hload t ht => ?_⟩⟩
    -- the key of a point is computed from the kept milliseconds as the stamp is
    rw [loadRecord_addsAt v s s' hload t ht, hkept, recMillis, seconds, ofU64, hsize hlt,
      ← hstamp v m hmillis, hkept]
  · intro v' m' hmillis' hlt' hm hm' hne heq
    rw [hstamp v m hmillis, hstamp v' m' hmillis', (ofNat_toNat_thousand hlt).mpr hm,
      (ofNat_toNat_thousand hlt').mpr hm'] at heq
    have hnat := congrArg UInt64.toNat heq
    rw [hsize hlt, hsize hlt'] at hnat
    exact hne hnat

/-- A record of a given number of milliseconds. -/
def millisRecord (m : Nat) : JVal := .obj [("collector", .str "storage"), ("mono_ms", .num (ofNat m))]

theorem keepsMillis_iff_sample : (millisRecord 1000).numAt "mono_ms" = some (ofNat 1000) ∧
    KeepsMillis (millisRecord 1000) 1000 :=
  ⟨rfl, (keepsMillis_iff (millisRecord 1000) 1000 rfl (by decide)).1.mpr (by decide)⟩

/-- The stamp of the record at 1001 milliseconds is the one of the record at 1000. -/
theorem millis_lost : ¬ KeepsMillis (millisRecord 1001) 1001 ∧
    (stampOf (millisRecord 1001)).monoMillis = (stampOf (millisRecord 1000)).monoMillis := by
  have hstamp : (stampOf (millisRecord 1001)).monoMillis = 1000 := by decide +kernel
  have hstamp' : (stampOf (millisRecord 1000)).monoMillis = 1000 := by decide +kernel
  refine ⟨fun hkeeps => ?_, hstamp.trans hstamp'.symm⟩
  have hkept := hkeeps.1
  rw [hstamp] at hkept
  exact absurd hkept (by decide)

end PowerForensics.Session
