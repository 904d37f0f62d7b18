import PowerForensics.Binary64.Halves
import PowerForensics.Core.ArchiveIdentity
import PowerForensics.Core.ArchiveReload
import PowerForensics.Core.Capture

/-! # The battery series of an archive

The points of a collector are loaded at the milliseconds of its records, each millisecond
once and in order, with the readings of the latest records. The wall clock of a record is
the base of the session and its milliseconds; a stamp of the battery that says anything
else does not come back, and with it the evidence that a clock was stepped is lost.
-/

namespace PowerForensics.Archive

open Session FirstSeen Merging Lookup Binary64 Stats

/-! ## Milliseconds in order -/

/-- A number of milliseconds that is read back from a point. -/
def rekeyed (m : UInt64) : UInt64 := recMillis (seconds m)

/-- What the conversions do at a thousand and at the ends of the range. -/
theorem thousand_fields : (Plus (1000.0 : Binary64) ∧ (1000.0 : Binary64).isFinite = true ∧
      (0.0 : Binary64) < (1000.0 : Binary64) ∧ (1000.0 : Binary64) ≤ (1000.0 : Binary64)) ∧
    ((rekeyed 0).toNat = 0 ∧ (0.0 : Binary64) < seconds 1 ∧
      (seconds (.ofNat (2 ^ 64 - 1))).isFinite = true) ∧
    recMillis (seconds 0) = 0 ∧ recMillis (seconds 1000) = 1000 := by
  unfold Plus
  decide +kernel

theorem thousand_plus : Plus (1000.0 : Binary64) ∧ (1000.0 : Binary64).isFinite = true ∧
    (0.0 : Binary64) < (1000.0 : Binary64) ∧ (1000.0 : Binary64) ≤ (1000.0 : Binary64) :=
  thousand_fields.1

theorem seconds_mono {m n : UInt64} (hle : m.toNat ≤ n.toNat) :
    Plus (seconds m) ∧ seconds m ≤ seconds n := by
  obtain ⟨-, hfinite, hpos, hself⟩ := thousand_plus
  exact div_le_div_number (plus_ofUnits _ _) (plus_ofUnits _ _) (ofNat_mono hle) hpos hfinite hself

theorem rekeyed_mono {m n : UInt64} (hle : m.toNat ≤ n.toNat) :
    (rekeyed m).toNat ≤ (rekeyed n).toNat := by
  obtain ⟨hkey, hfirst, hlast⟩ := thousand_fields.2.1
  by_cases hzero : m = 0
  · subst hzero
    rw [hkey]
    exact Nat.zero_le _
  · have hone : (1 : UInt64).toNat ≤ m.toNat :=
      Nat.one_le_iff_ne_zero.mpr fun h => hzero (UInt64.toNat_inj.mp h)
    have hpos : (0.0 : Binary64) < seconds m :=
      lt_of_lt_of_le_number hfirst (seconds_mono hone).2
    have hfinite : (seconds n).isFinite = true := by
      have hmax : (UInt64.ofNat (2 ^ 64 - 1)).toNat = 2 ^ 64 - 1 := by decide
      have hlt := n.toNat_lt
      exact finite_of_le (seconds_mono (le_refl n.toNat)).1 (seconds_mono (by omega)).2 hlast
    obtain ⟨hplus, hproduct⟩ :=
      mul_le_mul_left_number thousand_plus.1 hpos hfinite (seconds_mono hle).2
    obtain ⟨hplus', -⟩ := mul_le_mul_left_number thousand_plus.1
      (lt_of_lt_of_le_number hpos (seconds_mono hle).2) hfinite (seconds_mono (le_refl n.toNat)).2
    have htrunc := toUnsigned_mono hplus hproduct hplus' 64
    rw [rekeyed, rekeyed, recMillis, recMillis, asU64, asU64,
      UInt64.toNat_ofNat_of_lt' (toUnsigned_lt 64 _), UInt64.toNat_ofNat_of_lt' (toUnsigned_lt 64 _),
      mul_comm_number (seconds m), mul_comm_number (seconds n)]
    exact htrunc

/-! ## Points of an archive -/

theorem mem_of_latest {κ α : Type} [DecidableEq κ] {entries : List (κ × α)} {key : κ} {value : α}
    (hlatest : latest entries key = some value) : (key, value) ∈ entries := by
  rw [latest, List.lookup_eq_some_iff] at hlatest
  obtain ⟨front, back, hsplit, -⟩ := hlatest
  rw [← List.mem_reverse, hsplit]
  exact List.mem_append_right _ List.mem_cons_self

theorem filterMap_ite {α β : Type} (p : α → Bool) (f : α → β) (l : List α) :
    l.filterMap (fun a => if p a then some (f a) else none) = (l.filter p).map f := by
  induction l with
  | nil => rfl
  | cons a l ih =>
      cases hp : p a with
      | true => simp [hp, ih]
      | false => simp [hp, ih]

section Points

variable (order : MapOrder) (host : Host) (label source : String) (s : SessionData)

/-- The milliseconds at which points are loaded. -/
def monos : List UInt64 := (sessionView order host label source s).store.times.map Prod.fst

variable {order host label source s}

theorem times_perm : ((sessionView order host label source s).store.times).Perm
    (sessionStore s).times := stableSort_perm _ _

theorem monos_ordered :
    (monos order host label source s).Pairwise fun m n => m.toNat < n.toNat := by
  have hsorted : (monos order host label source s).Pairwise fun m n => m.toNat ≤ n.toNat :=
    List.pairwise_map.mpr (ascending_stableSort _ _)
  have hnodup : (monos order host label source s).Nodup :=
    (times_perm.map Prod.fst).nodup_iff.mpr (nodup_map_firstSeen Prod.fst _)
  refine (List.Pairwise.and hsorted hnodup).imp fun {m n} h => ?_
  exact lt_of_le_of_ne h.1 fun heq => h.2 (UInt64.toNat_inj.mp heq)

theorem mem_monos {m : UInt64} : m ∈ monos order host label source s ↔
    ∃ x ∈ samples (dynTable s) s, recMillis x.t = m := by
  rw [monos, (times_perm.map Prod.fst).mem_iff, sessionStore, storeOf, mem_map_firstSeen,
    List.map_map, List.mem_map]
  rfl

theorem scalar_isSome {m : UInt64} {id : UInt16} :
    ((sessionView order host label source s).scalar m id).isSome = true ↔
      ∃ x ∈ samples (dynTable s) s, recMillis x.t = m ∧ x.id = id := by
  rw [View.scalar, latest, lookup_isSome, List.map_reverse, List.mem_reverse]
  have hscalar : (sessionView order host label source s).store.scalar.map Prod.fst =
      (samples (dynTable s) s).map fun x => (recMillis x.t, x.id) := List.map_map
  rw [hscalar, List.mem_map]
  simp only [Prod.mk.injEq]

/-- A millisecond and a series with one record have its reading. -/
theorem scalar_of_only {x : Sample} (hx : x ∈ samples (dynTable s) s)
    (honly : ∀ y ∈ samples (dynTable s) s, recMillis y.t = recMillis x.t → y.id = x.id → y = x) :
    (sessionView order host label source s).scalar (recMillis x.t) x.id =
      some (x.restored (tableOf (dynTable s)) s.wallBaseMs) := by
  have hsome : ((sessionView order host label source s).scalar (recMillis x.t) x.id).isSome = true :=
    scalar_isSome.mpr ⟨x, hx, rfl, rfl⟩
  obtain ⟨v, hv⟩ := Option.isSome_iff_exists.mp hsome
  have hmem := mem_of_latest hv
  obtain ⟨y, hy, heq⟩ := List.mem_map.mp hmem
  obtain ⟨hkey, rfl⟩ := Prod.mk.inj heq
  obtain ⟨hmillis, hid⟩ := Prod.mk.inj hkey
  rw [hv, honly y hy hmillis hid]

end Points

/-! ## Records of the battery -/

/-- The numbers of the battery's own series. -/
def batteryIds : List UInt16 := [0, 1, 2, 3]

/-- The samples of a battery point. -/
def pointSamples (b : BatteryPoint) : List Sample :=
  [⟨b.t, 0, b.discharge⟩, ⟨b.t, 1, b.charge⟩, ⟨b.t, 2, b.remainingWh⟩, ⟨b.t, 3, b.pct⟩]

section Battery

variable {s : SessionData}

theorem pointSamples_mem {b : BatteryPoint} (hb : b ∈ s.battery) :
    ∀ x ∈ pointSamples b, x ∈ samples (dynTable s) s := by
  intro x hx
  obtain ⟨i, hi⟩ := List.mem_iff_getElem?.mp hb
  have hzip : (b, i) ∈ s.battery.zipIdx := List.mem_zipIdx_iff_getElem?.mpr hi
  have hbattery : x ∈ batterySamples s :=
    List.mem_flatMap.mpr ⟨(b, i), hzip, List.mem_append_left _ hx⟩
  simp only [samples, List.mem_append, hbattery, true_or]

theorem dynamic_not_static (hfits : Fits s) {x : Sample} (hx : Dynamic (dynTable s) x) :
    x.id ∉ staticIds := by
  obtain ⟨collector, metric, extra, hid⟩ := hx
  obtain ⟨d, hd, heq⟩ := Option.map_eq_some_iff.mp hid
  have hnodup : ((tableOf (dynTable s)).map Prod.fst).Nodup :=
    (nodup_ids_iff (numbered_dynTable s)).mpr (by rwa [length_entries])
  rw [tableOf, List.map_append, ids_staticTable] at hnodup
  intro hstatic
  refine List.disjoint_of_nodup_append hnodup hstatic ?_
  rw [List.map_map, ← heq]
  exact List.mem_map_of_mem (List.mem_of_find?_eq_some hd)

/-- A record of the battery's own series is of one of its points. -/
theorem battery_origin (hfits : Fits s) {x : Sample} (hx : x ∈ samples (dynTable s) s)
    (hid : x.id ∈ batteryIds) : ∃ b ∈ s.battery, x ∈ pointSamples b := by
  have hbattery : Every (fun x => x.id ∈ batteryIds → ∃ b ∈ s.battery, x ∈ pointSamples b)
      (batterySamples s) := by
    intro y hy hyid
    obtain ⟨⟨b, i⟩, hb, hy⟩ := List.mem_flatMap.mp hy
    rcases List.mem_append.mp hy with h | h
    · exact ⟨b, List.fst_mem_of_mem_zipIdx hb, h⟩
    · obtain ⟨extra, -, h⟩ := List.mem_flatMap.mp h
      have hother : ∀ z ∈ [(⟨extra.t, 23, extra.ac⟩ : Sample), ⟨extra.t, 24, extra.rateMw⟩,
          ⟨extra.t, 25, extra.health⟩, ⟨extra.t, 26, extra.temperatureRaw⟩],
          z.id ∉ batteryIds := by
        simp only [List.forall_mem_cons, List.not_mem_nil, false_imp_iff, implies_true, and_true]
        decide
      exact absurd hyid (hother y h)
  have hstatic : ∀ y : Sample, y.id ∈ otherIds →
      y.id ∈ batteryIds → ∃ b ∈ s.battery, y ∈ pointSamples b := by
    have hdisjoint : (otherIds.all fun id => id ∉ batteryIds) = true := by decide
    exact fun y hy hyid =>
      absurd hyid (of_decide_eq_true (List.all_eq_true.mp hdisjoint y.id hy))
  have hdynamic : ∀ y, Dynamic (dynTable s) y →
      y.id ∈ batteryIds → ∃ b ∈ s.battery, y ∈ pointSamples b := by
    have hsub : (batteryIds.all fun id => id ∈ staticIds) = true := by decide
    exact fun y hy hyid =>
      absurd (of_decide_eq_true (List.all_eq_true.mp hsub y.id hyid))
        (dynamic_not_static hfits hy)
  exact every_samples_battery hbattery hstatic hdynamic x hx hid

/-- The milliseconds of the points. -/
def batteryKeys (s : SessionData) : List UInt64 := s.battery.map fun b => recMillis b.t

/-- The points are at later and later milliseconds. -/
def Ordered (s : SessionData) : Prop := (batteryKeys s).Pairwise fun m n => m.toNat < n.toNat

theorem Ordered.nodup (hordered : Ordered s) : (batteryKeys s).Nodup := by
  refine hordered.imp fun {m n} hlt heq => ?_
  rw [heq] at hlt
  exact absurd hlt (lt_irrefl _)

/-- A record is the only one at its millisecond and series. -/
theorem sample_only (hfits : Fits s) (hordered : Ordered s) {b : BatteryPoint}
    (hb : b ∈ s.battery) {x : Sample} (hx : x ∈ pointSamples b) {y : Sample}
    (hy : y ∈ samples (dynTable s) s) (hmillis : recMillis y.t = recMillis x.t)
    (hid : y.id = x.id) : y = x := by
  have htime : ∀ b : BatteryPoint, ∀ z ∈ pointSamples b, z.t = b.t ∧ z.id ∈ batteryIds := by
    intro b
    simp only [pointSamples, List.forall_mem_cons, List.not_mem_nil, false_imp_iff, implies_true,
      and_true, true_and]
    decide
  obtain ⟨b', hb', hy'⟩ := battery_origin hfits hy (hid ▸ (htime b x hx).2)
  rw [(htime b' y hy').1, (htime b x hx).1] at hmillis
  obtain rfl := List.inj_on_of_nodup_map hordered.nodup hb' hb hmillis
  have hids : ((pointSamples b').map Sample.id).Nodup := by
    change [(0 : UInt16), 1, 2, 3].Nodup
    decide
  exact List.inj_on_of_nodup_map hids hy' hx hid

end Battery

/-! ## The battery that comes back -/

section Reload

variable {order : MapOrder} {host : Host} {label source : String} {s : SessionData}

/-- The milliseconds at which a battery point is loaded. -/
def loadedKeys (order : MapOrder) (host : Host) (label source : String) (s : SessionData) :
    List UInt64 :=
  (monos order host label source s).filter fun m =>
    (sessionView order host label source s).has m batteryIds

/-- The point that is loaded at a millisecond. -/
def pointAt (view : View) (m : UInt64) : BatteryPoint :=
  ⟨seconds m, view.g m 0, view.g m 1, view.g m 2, view.g m 3⟩

theorem battery_reloaded (name : String) (history : List (Binary64 × Policy)) :
    (reloaded order host name label source s history).battery =
      (loadedKeys order host label source s).map
        (pointAt (sessionView order host label source s)) := by
  rw [reloaded, loadedKeys, monos, ← filterMap_ite]
  generalize sessionView order host label source s = view
  rfl

theorem times_points (view : View) (keys : List UInt64) :
    (keys.map (pointAt view)).map BatteryPoint.t = keys.map seconds := by
  rw [List.map_map]
  refine List.map_congr_left fun m _ => ?_
  rw [Function.comp_apply, pointAt]

theorem has_battery (hfits : Fits s) {m : UInt64} :
    (sessionView order host label source s).has m batteryIds = true ↔ m ∈ batteryKeys s := by
  rw [View.has, List.any_eq_true, batteryKeys, List.mem_map]
  constructor
  · rintro ⟨id, hid, hsome⟩
    obtain ⟨x, hx, rfl, rfl⟩ := scalar_isSome.mp hsome
    obtain ⟨b, hb, hxb⟩ := battery_origin hfits hx hid
    have htime : ∀ z ∈ pointSamples b, z.t = b.t := by simp [pointSamples]
    exact ⟨b, hb, by rw [htime x hxb]⟩
  · rintro ⟨b, hb, rfl⟩
    have hx := pointSamples_mem hb ⟨b.t, 0, b.discharge⟩ List.mem_cons_self
    exact ⟨0, by decide, scalar_isSome.mpr ⟨_, hx, rfl, rfl⟩⟩

theorem loadedKeys_ordered :
    (loadedKeys order host label source s).Pairwise fun m n => m.toNat < n.toNat :=
  monos_ordered.filter _

theorem mem_loadedKeys (hfits : Fits s) {m : UInt64} :
    m ∈ loadedKeys order host label source s ↔ m ∈ batteryKeys s := by
  rw [loadedKeys, List.mem_filter, has_battery hfits]
  refine and_iff_right_of_imp fun hm => ?_
  obtain ⟨b, hb, rfl⟩ := List.mem_map.mp hm
  exact mem_monos.mpr ⟨_, pointSamples_mem hb _ List.mem_cons_self, rfl⟩

theorem nodup_of_ordered {l : List UInt64} (hl : l.Pairwise fun m n => m.toNat < n.toNat) :
    l.Nodup := by
  refine hl.imp fun {m n} hlt heq => ?_
  rw [heq] at hlt
  exact absurd hlt (lt_irrefl _)

/-- The points are loaded at their own milliseconds if these are in order. -/
theorem loadedKeys_eq (hfits : Fits s) (hordered : Ordered s) :
    loadedKeys order host label source s = batteryKeys s := by
  have hperm : (loadedKeys order host label source s).Perm (batteryKeys s) :=
    (List.perm_ext_iff_of_nodup (nodup_of_ordered loadedKeys_ordered)
      (nodup_of_ordered hordered)).mpr fun m => mem_loadedKeys hfits
  refine hperm.eq_of_pairwise ?_ loadedKeys_ordered hordered
  intro m n _ _ hlt hgt
  exact absurd hlt (Nat.lt_asymm hgt)

/-- Points that come back at their own times were in order. -/
theorem ordered_of_times (hfits : Fits s)
    (htimes : (loadedKeys order host label source s).map seconds = s.battery.map BatteryPoint.t) :
    Ordered s := by
  have hkeys : batteryKeys s = (loadedKeys order host label source s).map rekeyed := by
    have hmap : batteryKeys s = (s.battery.map BatteryPoint.t).map recMillis := by
      rw [List.map_map]
      rfl
    rw [hmap, ← htimes, List.map_map]
    rfl
  have hlength : (loadedKeys order host label source s).length = (batteryKeys s).length := by
    rw [hkeys, List.length_map]
  have hsub : (loadedKeys order host label source s).Subperm (batteryKeys s) :=
    List.subperm_of_subset (nodup_of_ordered loadedKeys_ordered) fun m hm =>
      (mem_loadedKeys hfits).mp hm
  have hnodup : (batteryKeys s).Nodup :=
    (hsub.perm_of_length_le hlength.ge).nodup_iff.mp (nodup_of_ordered loadedKeys_ordered)
  have hsorted : (batteryKeys s).Pairwise fun m n => m.toNat ≤ n.toNat := by
    rw [hkeys, List.pairwise_map]
    exact loadedKeys_ordered.imp fun hlt => rekeyed_mono hlt.le
  refine (List.Pairwise.and hsorted hnodup).imp fun {m n} h => ?_
  exact lt_of_le_of_ne h.1 fun heq => h.2 (UInt64.toNat_inj.mp heq)

theorem restored_fields (v : Telemetry Binary64) (collector : String) (stamp : ClockStamp) :
    (restored v collector stamp).value = restoredValue v.value ∧
      (restored v collector stamp).stamp = stamp := by
  obtain ⟨value, src, st, quality, kind⟩ := v
  cases value <;> exact ⟨rfl, rfl⟩

/-- A point is loaded with the readings of its records. -/
theorem g_of_only (order : MapOrder) (host : Host) (label source : String) (hfits : Fits s)
    (hordered : Ordered s) {b : BatteryPoint} (hb : b ∈ s.battery) {x : Sample}
    (hx : x ∈ pointSamples b) :
    ((sessionView order host label source s).g (recMillis x.t) x.id).value =
        restoredValue x.v.value ∧
      ((sessionView order host label source s).g (recMillis x.t) x.id).stamp =
        x.stamp s.wallBaseMs := by
  have hscalar : (sessionView order host label source s).scalar (recMillis x.t) x.id =
      some (x.restored (tableOf (dynTable s)) s.wallBaseMs) :=
    scalar_of_only (pointSamples_mem hb x hx)
      fun y hy hmillis hid => sample_only hfits hordered hb hx hy hmillis hid
  rw [View.g, hscalar, Option.getD_some]
  exact restored_fields _ _ _

theorem readings_reloaded (order : MapOrder) (host : Host) (label source : String)
    (hfits : Fits s) (hordered : Ordered s) {b : BatteryPoint} (hb : b ∈ s.battery) :
    ((sessionView order host label source s).g (recMillis b.t) 0).value =
        restoredValue b.discharge.value ∧
      ((sessionView order host label source s).g (recMillis b.t) 0).stamp =
        ⟨s.wallBaseMs + recMillis b.t, recMillis b.t⟩ ∧
      ((sessionView order host label source s).g (recMillis b.t) 1).value =
        restoredValue b.charge.value := by
  have hdischarge : (⟨b.t, 0, b.discharge⟩ : Sample) ∈ pointSamples b := List.mem_cons_self
  have hcharge : (⟨b.t, 1, b.charge⟩ : Sample) ∈ pointSamples b :=
    List.mem_cons_of_mem _ List.mem_cons_self
  obtain ⟨hvalue, hstamp⟩ := g_of_only order host label source hfits hordered hb hdischarge
  obtain ⟨hvalue', -⟩ := g_of_only order host label source hfits hordered hb hcharge
  exact ⟨hvalue, hstamp, hvalue'⟩

end Reload

/-! ## Reasons that come back whole -/

/-- A cut text is not longer than the cut. -/
theorem length_truncate {n : Nat} {cs front : List Char} (hcut : truncate n cs = some front) :
    (Utf8.encode front).length ≤ n := by
  induction cs generalizing n front with
  | nil =>
      obtain rfl : [] = front := by cases n <;> exact Option.some.inj hcut
      exact Nat.zero_le _
  | cons c cs ih =>
      cases n with
      | zero =>
          obtain rfl := Option.some.inj hcut
          exact Nat.le_refl _
      | succ n =>
          rw [truncate] at hcut
          split at hcut
          next hfits =>
            obtain ⟨rest, hrest, rfl⟩ := Option.map_eq_some_iff.mp hcut
            have hle := ih hrest
            rw [Utf8.encode_cons, List.length_append, String.length_utf8EncodeChar]
            omega
          next => cases hcut

theorem truncate_whole {n : Nat} {cs : List Char} (hle : (Utf8.encode cs).length ≤ n) :
    truncate n cs = some cs := by
  induction cs generalizing n with
  | nil => cases n <;> rfl
  | cons c cs ih =>
      rw [Utf8.encode_cons, List.length_append, String.length_utf8EncodeChar] at hle
      have hpos := c.utf8Size_pos
      cases n with
      | zero => omega
      | succ n =>
          rw [truncate, if_pos (by omega), ih (by omega)]
          rfl

/-- An absent value has a reason that is kept whole. -/
def ShortReason (value : Reading Binary64) : Prop :=
  ∀ reason, value = .unavailable reason → (Utf8.bytes reason).length ≤ reasonLimit

theorem restoredValue_eq_iff (value : Reading Binary64) :
    restoredValue value = value ↔ ShortReason value := by
  cases value with
  | measured x => exact iff_of_true rfl nofun
  | derived x => exact iff_of_true rfl nofun
  | estimated x => exact iff_of_true rfl nofun
  | unavailable reason =>
      have hshort : ShortReason (.unavailable reason) ↔
          (Utf8.bytes reason).length ≤ reasonLimit :=
        ⟨fun h => h reason rfl, fun h r hr => by cases hr; exact h⟩
      rw [hshort, restoredValue, Reading.unavailable.injEq]
      constructor
      · intro heq
        rw [← heq, Utf8.bytes, String.toList_ofList]
        cases hfront : reasonFront reason with
        | none => exact Nat.zero_le _
        | some front => exact length_truncate hfront
      · intro hle
        have hkept : keptReason reason = reason :=
          keptReason_of_short (hle.trans (by decide))
        rw [reasonFront, hkept, truncate_whole hle, Option.getD_some, String.ofList_toList]

/-! ## The energy verdict -/

/-- A point as energy is integrated over it: its time, its stamp of the wall clock, and what is
drawn and stored. -/
def batteryEntry (b : BatteryPoint) : Binary64 × UInt64 × Reading Binary64 × Reading Binary64 :=
  (b.t, b.discharge.stamp.wallMillis, b.discharge.value, b.charge.value)

def batterySequence (s : SessionData) :
    List (Binary64 × UInt64 × Reading Binary64 × Reading Binary64) := s.battery.map batteryEntry

theorem times_sequence (s : SessionData) :
    (batterySequence s).map Prod.fst = s.battery.map BatteryPoint.t := by
  rw [batterySequence, List.map_map]
  exact List.map_congr_left fun b _ => rfl

/-- The steps of the battery's clocks. -/
def clockSteps (s : SessionData) (intervalMs : UInt64) : List (Discontinuity Binary64) :=
  discontinuities (s.battery.map BatteryPoint.t)
    (s.battery.map fun b => seconds b.discharge.stamp.wallMillis)
    (energyMaxGapSecs intervalMs.toNat) Analysis.maxClockSkewSecs

/-- The energy of a reading of the battery over the session. -/
def clockedEnergy (reading : BatteryPoint → Telemetry Binary64) (s : SessionData)
    (intervalMs : UInt64) : SegmentEnergy Binary64 :=
  integrateSegmentedClocks (s.battery.map BatteryPoint.t)
    (s.battery.map fun b => seconds b.discharge.stamp.wallMillis)
    (s.battery.map fun b => (reading b).val) (energyMaxGapSecs intervalMs.toNat)
    Analysis.maxClockSkewSecs

/-- Two sessions with the same battery series and the same energy. -/
structure SameVerdict (s s' : SessionData) : Prop where
  sequence : batterySequence s' = batterySequence s
  steps : ∀ intervalMs : UInt64, clockSteps s' intervalMs = clockSteps s intervalMs
  discharged : ∀ intervalMs : UInt64,
    clockedEnergy BatteryPoint.discharge s' intervalMs =
      clockedEnergy BatteryPoint.discharge s intervalMs
  charged : ∀ intervalMs : UInt64,
    clockedEnergy BatteryPoint.charge s' intervalMs =
      clockedEnergy BatteryPoint.charge s intervalMs

/-- The steps and the energy depend on the series alone. -/
theorem sameVerdict_of_sequence {s s' : SessionData}
    (hsequence : batterySequence s' = batterySequence s) : SameVerdict s s' := by
  have htimes : s'.battery.map BatteryPoint.t = s.battery.map BatteryPoint.t := by
    rw [← times_sequence, ← times_sequence, hsequence]
  have hwalls : (s'.battery.map fun b => seconds b.discharge.stamp.wallMillis) =
      s.battery.map fun b => seconds b.discharge.stamp.wallMillis := by
    have h := congrArg (List.map fun e => seconds e.2.1) hsequence
    rwa [batterySequence, batterySequence, List.map_map, List.map_map] at h
  have hdischarge : (s'.battery.map fun b => b.discharge.val) =
      s.battery.map fun b => b.discharge.val := by
    have h := congrArg (List.map fun e => e.2.2.1.value) hsequence
    rwa [batterySequence, batterySequence, List.map_map, List.map_map] at h
  have hcharge : (s'.battery.map fun b => b.charge.val) = s.battery.map fun b => b.charge.val := by
    have h := congrArg (List.map fun e => e.2.2.2.value) hsequence
    rwa [batterySequence, batterySequence, List.map_map, List.map_map] at h
  constructor
  · exact hsequence
  · intro intervalMs
    rw [clockSteps, clockSteps, htimes, hwalls]
  · intro intervalMs
    rw [clockedEnergy, clockedEnergy, htimes, hwalls, hdischarge]
  · intro intervalMs
    rw [clockedEnergy, clockedEnergy, htimes, hwalls, hcharge]

/-- The clocks of the battery say what an archive can keep: later and later whole milliseconds,
and the wall clock of the session's base at them. -/
structure KeepsClocks (s : SessionData) : Prop where
  ordered : Ordered s
  whole : ∀ b ∈ s.battery, seconds (recMillis b.t) = b.t
  derived : ∀ b ∈ s.battery, s.wallBaseMs + recMillis b.t = b.discharge.stamp.wallMillis
  reasons : ∀ b ∈ s.battery, ShortReason b.discharge.value ∧ ShortReason b.charge.value

/-- What comes back of a point. -/
def restoredEntry (wallBase : UInt64) (b : BatteryPoint) :
    Binary64 × UInt64 × Reading Binary64 × Reading Binary64 :=
  (seconds (recMillis b.t), wallBase + recMillis b.t, restoredValue b.discharge.value,
    restoredValue b.charge.value)

section Verdict

variable {order : MapOrder} {host : Host} {name label source : String} {s s' : SessionData}

/-- A series in order comes back point by point. -/
theorem sequence_reloaded (hfits : Fits s) (hordered : Ordered s)
    (history : List (Binary64 × Policy)) :
    batterySequence (reloaded order host name label source s history) =
      s.battery.map (restoredEntry s.wallBaseMs) := by
  have hentry : ∀ b ∈ s.battery,
      batteryEntry (pointAt (sessionView order host label source s) (recMillis b.t)) =
        restoredEntry s.wallBaseMs b := by
    intro b hb
    obtain ⟨hdischarge, hstamp, hcharge⟩ :=
      readings_reloaded order host label source hfits hordered hb
    rw [batteryEntry, pointAt, restoredEntry, hdischarge, hstamp, hcharge]
  rw [batterySequence, battery_reloaded, loadedKeys_eq hfits hordered, batteryKeys, List.map_map,
    List.map_map]
  apply List.map_congr_left
  intro b hb
  rw [Function.comp_apply, Function.comp_apply]
  exact hentry b hb

theorem restoredEntry_eq_iff (b : BatteryPoint) :
    restoredEntry s.wallBaseMs b = batteryEntry b ↔ seconds (recMillis b.t) = b.t ∧
      s.wallBaseMs + recMillis b.t = b.discharge.stamp.wallMillis ∧
      ShortReason b.discharge.value ∧ ShortReason b.charge.value := by
  rw [restoredEntry, batteryEntry, Prod.mk.injEq, Prod.mk.injEq, Prod.mk.injEq,
    restoredValue_eq_iff, restoredValue_eq_iff]

/-- A series that comes back as it was has clocks that an archive can keep. -/
theorem keepsClocks_of_sequence (hfits : Fits s) (history : List (Binary64 × Policy))
    (hsequence : batterySequence (reloaded order host name label source s history) =
      batterySequence s) : KeepsClocks s := by
  have htimes : (loadedKeys order host label source s).map seconds =
      s.battery.map BatteryPoint.t := by
    rw [← times_points (sessionView order host label source s), ← battery_reloaded name history,
      ← times_sequence, ← times_sequence, hsequence]
  have hordered := ordered_of_times hfits htimes
  rw [sequence_reloaded hfits hordered, batterySequence] at hsequence
  have hall := fun b hb => (restoredEntry_eq_iff b).mp (List.map_inj_left.mp hsequence b hb)
  exact ⟨hordered, fun b hb => (hall b hb).1, fun b hb => (hall b hb).2.1,
    fun b hb => (hall b hb).2.2⟩

/-- Archiving keeps the energy verdict exactly if the archive can keep the battery's clocks. -/
theorem sameVerdict_iff (hload : loadArchiveV2 order name (migrate host label source s).manifest
      (migrate host label source s).samples (migrate host label source s).events = .ok s') :
    SameVerdict s s' ↔ KeepsClocks s := by
  obtain ⟨-, hfits, -, history, -, rfl⟩ := (load_migrate order host name label source s s').mp hload
  refine ⟨fun h => keepsClocks_of_sequence hfits history h.sequence, fun h => ?_⟩
  apply sameVerdict_of_sequence
  rw [sequence_reloaded hfits h.ordered, batterySequence]
  refine List.map_inj_left.mpr fun b hb => ?_
  exact (restoredEntry_eq_iff b).mpr ⟨h.whole b hb, h.derived b hb, h.reasons b hb⟩

end Verdict

/-! ## Two readings -/

/-- Four readings at a millisecond, stamped with a wall clock. -/
def measuredPoint (ms wall : UInt64) : BatteryPoint :=
  let v : Telemetry Binary64 := .measured 5.0 "battery" ⟨wall, ms⟩
  ⟨seconds ms, v, v, v, v⟩

/-- Two readings a second apart, the second one with a stamp of its own. -/
def twoReadings (wall : UInt64) : SessionData :=
  { (default : SessionData) with
    wallBaseMs := 1000
    battery := [measuredPoint 0 1000, measuredPoint 1000 wall] }

def workstation : Host := ⟨"workstation", fun _ _ _ => 0⟩

theorem samples_twoReadings (wall : UInt64) :
    samples (dynTable (twoReadings wall)) (twoReadings wall) =
      pointSamples (measuredPoint 0 1000) ++ pointSamples (measuredPoint 1000 wall) := by
  -- no sample of the battery is looked up in the table
  generalize dynTable (twoReadings wall) = tbl
  rfl

theorem printable_default : PrintableBattery default :=
  ⟨by decide, by decide, List.forall_mem_nil _⟩

theorem loadable_twoReadings (wall : UInt64) :
    Loadable workstation "run" "logs" (twoReadings wall) where
  printable :=
    { machineId := by decide
      label := by decide
      source := by decide
      names := by constructor <;> exact List.forall_mem_nil _
      adapters := List.forall_mem_nil _
      wifi := List.forall_mem_nil _
      policies := List.forall_mem_nil _
      battery := printable_default
      footer := nofun }
  fits := by
    change ((dynSeries (default : SessionData)).map Prod.fst).dedup.length ≤ 64536
    decide
  reasons := by
    rw [samples_twoReadings]
    simp [pointSamples, measuredPoint, KeepableReading, Telemetry.measured]
  policies := List.forall_mem_nil _

theorem keys_twoReadings : recMillis (seconds 0) = 0 ∧ recMillis (seconds 1000) = 1000 :=
  thousand_fields.2.2

/-- A session whose clocks go together. -/
theorem sameVerdict_iff_together : ∃ s', loadArchiveV2 asFilled "run"
      (migrate workstation "run" "logs" (twoReadings 2000)).manifest
      (migrate workstation "run" "logs" (twoReadings 2000)).samples
      (migrate workstation "run" "logs" (twoReadings 2000)).events = .ok s' ∧
    SameVerdict (twoReadings 2000) s' := by
  obtain ⟨s', hload⟩ := (load_migrate_isOk asFilled workstation "run" "run" "logs" _).mpr
    (loadable_twoReadings 2000)
  obtain ⟨hfirst, hsecond⟩ := keys_twoReadings
  refine ⟨s', hload, (sameVerdict_iff hload).mpr ⟨?_, ?_, ?_, ?_⟩⟩
  · simp [Ordered, batteryKeys, twoReadings, measuredPoint, hfirst, hsecond]
  · simp [twoReadings, measuredPoint, hfirst, hsecond]
  · simp [twoReadings, measuredPoint, hfirst, hsecond, Telemetry.measured]
  · simp [twoReadings, measuredPoint, ShortReason, Telemetry.measured]

/-- The wall clock is set forward by a hundred seconds between two readings, and the archive does
not show it. -/
theorem step_lost : ∃ s', loadArchiveV2 asFilled "run"
      (migrate workstation "run" "logs" (twoReadings 102000)).manifest
      (migrate workstation "run" "logs" (twoReadings 102000)).samples
      (migrate workstation "run" "logs" (twoReadings 102000)).events = .ok s' ∧
    ¬ SameVerdict (twoReadings 102000) s' := by
  obtain ⟨s', hload⟩ := (load_migrate_isOk asFilled workstation "run" "run" "logs" _).mpr
    (loadable_twoReadings 102000)
  refine ⟨s', hload, fun h => ?_⟩
  obtain ⟨-, hfits, -, history, -, rfl⟩ := (load_migrate _ _ _ _ _ _ _).mp hload
  have hkeeps := keepsClocks_of_sequence hfits history h.sequence
  have hderived := hkeeps.derived (measuredPoint 1000 102000) (by simp [twoReadings])
  simp [twoReadings, measuredPoint, keys_twoReadings.2, Telemetry.measured] at hderived

end PowerForensics.Archive
