import PowerForensics.Core.EnvelopeDoc

/-! # Records that can be loaded

The loader keeps the front of every reason that it reads, and cutting one inside a character is a
panic. It only reads reasons of values inside the record. So a record is loaded if no reason
inside it is cut there, whatever its collector is.
-/

namespace PowerForensics.Json.JVal

open Session

/-! ## Values inside a value -/

/-- A value is found inside another one. -/
inductive Inside : JVal → JVal → Prop
  | here (v : JVal) : Inside v v
  | item {items : List JVal} {v w : JVal} : v ∈ items → Inside v w → Inside (.arr items) w
  | member {pairs : List (String × JVal)} {p : String × JVal} {w : JVal} :
      p ∈ pairs → Inside p.2 w → Inside (.obj pairs) w

/-- The front of a reason that is kept ends between two characters. -/
def Cut (reason : String) : Prop := (truncate reasonLimit reason.toList).isSome

instance (reason : String) : Decidable (Cut reason) :=
  inferInstanceAs (Decidable ((truncate reasonLimit reason.toList).isSome = true))

theorem cut_of_short {reason : String} (hshort : reason.utf8ByteSize ≤ reasonLimit) :
    Cut reason := truncate_reason_isSome hshort

/-- Every reason inside a value can be cut. -/
def Fits (v : JVal) : Prop := ∀ w, Inside v w → ∀ reason ∈ w.strAt "reason", Cut reason

variable {v w : JVal}

theorem fits_of_leaf (hleaf : ∀ w, Inside v w → w = v) (hget : v.get "reason" = none) :
    v.Fits := by
  intro w hw reason hreason
  rw [hleaf w hw, strAt, hget] at hreason
  cases hreason

theorem fits_null : Fits .null := fits_of_leaf (fun _ h => by cases h; rfl) rfl

theorem fits_bool (b : Bool) : Fits (.bool b) := fits_of_leaf (fun _ h => by cases h; rfl) rfl

theorem fits_num (n : Binary64) : Fits (.num n) := fits_of_leaf (fun _ h => by cases h; rfl) rfl

theorem fits_str (s : String) : Fits (.str s) := fits_of_leaf (fun _ h => by cases h; rfl) rfl

theorem fits_arr {items : List JVal} (hitems : ∀ v ∈ items, v.Fits) : Fits (.arr items) := by
  intro w hw reason hreason
  cases hw with
  | here => cases hreason
  | item hmem hinside => exact hitems _ hmem _ hinside reason hreason

theorem fits_obj {pairs : List (String × JVal)} (hpairs : ∀ p ∈ pairs, p.2.Fits)
    (hreason : ∀ reason ∈ strAt (.obj pairs) "reason", Cut reason) : Fits (.obj pairs) := by
  intro w hw reason hfound
  cases hw with
  | here => exact hreason reason hfound
  | member hmem hinside => exact hpairs _ hmem _ hinside reason hfound

theorem Fits.get {key : String} (hv : v.Fits) (hget : v.get key = some w) : w.Fits := by
  cases v with
  | obj pairs =>
      obtain ⟨p, hp, rfl⟩ := Option.map_eq_some_iff.mp hget
      exact fun u hu => hv u (.member (List.mem_of_find?_eq_some hp) hu)
  | null => cases hget
  | bool b => cases hget
  | num n => cases hget
  | str s => cases hget
  | arr items => cases hget

theorem Fits.item {items : List JVal} (hv : Fits (.arr items)) (hw : w ∈ items) : w.Fits :=
  fun u hu => hv u (.item hw hu)

theorem Fits.items {key : String} (hv : v.Fits) (hw : w ∈ Session.items v key) : w.Fits := by
  unfold Session.items arrAt at hw
  cases hget : v.get key with
  | none =>
      rw [hget] at hw
      cases hw
  | some u =>
      rw [hget] at hw
      cases u with
      | arr items => exact (hv.get hget).item hw
      | null => cases hw
      | bool b => cases hw
      | num n => cases hw
      | str s => cases hw
      | obj pairs => cases hw

/-! ## Envelopes of a record -/

theorem Fits.keepable (hv : v.Fits) : Keepable (some v) := by
  intro reason hreason
  unfold absentReason storedReason at hreason
  split at hreason
  next => cases hreason
  next =>
    obtain rfl := Option.some.inj hreason
    change (truncate reasonLimit ((v.strAt "reason").getD "no reason recorded").toList).isSome
    cases hstr : v.strAt "reason" with
    | none => exact knownReasons_cut _ (by decide)
    | some reason => exact hv v (.here v) reason hstr

theorem keepable_of_fits {o : Option JVal} (ho : ∀ v ∈ o, v.Fits) : Keepable o := by
  cases o with
  | none => exact keepable_none
  | some v => exact (ho v rfl).keepable

theorem Fits.keepable_get (hv : v.Fits) (key : String) : Keepable (v.get key) :=
  keepable_of_fits fun _ hget => hv.get hget

theorem Fits.keepable_bind {o : Option JVal} (ho : ∀ v ∈ o, v.Fits) (key : String) :
    Keepable (o.bind (·.get key)) := by
  cases o with
  | none => exact keepable_none
  | some v => exact (ho v rfl).keepable_get key

theorem Fits.keyed (hv : v.Fits) (keys : List String) :
    ∀ inner ∈ Session.keyed keys v, Keepable inner := by
  intro inner hinner
  obtain ⟨key, -, rfl⟩ := List.mem_map.mp hinner
  exact hv.keepable_get key

theorem Fits.keyed_items (hv : v.Fits) (key : String) (keys : List String) :
    ∀ inner ∈ (Session.items v key).flatMap (Session.keyed keys), Keepable inner := by
  intro inner hinner
  obtain ⟨item, hitem, hinner⟩ := List.mem_flatMap.mp hinner
  exact (hv.items hitem).keyed keys inner hinner

theorem Fits.battery (hv : v.Fits) : ∀ inner ∈ batteryEnvelopes v, Keepable inner := by
  have hac : ∀ inner ∈ boolEnvelope v "ac", Keepable inner := by
    intro inner hinner
    unfold boolEnvelope at hinner
    split at hinner
    next o hget =>
      split at hinner
      · cases hinner
      · obtain rfl := List.mem_singleton.mp hinner
        exact (hv.get hget).keepable
    next => cases hinner
  simp only [batteryEnvelopes, List.forall_mem_append]
  exact ⟨⟨hv.keyed _, hac⟩, hv.keyed _⟩

theorem Fits.cpu (hv : v.Fits) : ∀ inner ∈ cpuEnvelopes v, Keepable inner := by
  have hbelow : ∀ parent : String, ∀ keys : List String,
      ∀ inner ∈ keys.map fun key => (v.get parent).bind (·.get key), Keepable inner := by
    intro parent keys inner hinner
    obtain ⟨key, -, rfl⟩ := List.mem_map.mp hinner
    exact Fits.keepable_bind (fun _ hget => hv.get hget) key
  simp only [cpuEnvelopes, List.forall_mem_append]
  exact ⟨⟨⟨⟨hbelow _ _, hv.keyed_items _ _⟩, hbelow _ _⟩, hbelow _ _⟩, hbelow _ _⟩

theorem Fits.adapter (hv : v.Fits) : ∀ inner ∈ adapterEnvelopes v, Keepable inner := by
  simp only [adapterEnvelopes, List.forall_mem_append]
  exact ⟨hv.keyed_items _ _, hv.keyed _⟩

theorem Fits.net (hv : v.Fits) : ∀ inner ∈ netEnvelopes v, Keepable inner := by
  simp only [netEnvelopes, List.forall_mem_append]
  exact ⟨⟨⟨hv.keyed_items _ _, hv.keyed_items _ _⟩, hv.keyed_items _ _⟩, hv.keyed _⟩

theorem Fits.policy (hv : v.Fits) : ∀ inner ∈ policyEnvelopes v, Keepable inner := by
  simp only [policyEnvelopes, List.forall_mem_append]
  refine ⟨?_, hv.keyed _⟩
  intro inner hinner
  obtain ⟨key, -, hinner⟩ := List.mem_flatMap.mp hinner
  obtain ⟨which, -, rfl⟩ := List.mem_map.mp hinner
  exact Fits.keepable_bind (fun _ hget => hv.get hget) which

theorem Fits.totalDisk (hv : v.Fits) : (Session.totalDisk v).Fits := by
  unfold Session.totalDisk
  cases hfind : ((v.arrAt "disks").getD []).find? fun d =>
      (d.boolAt "total").getD false ∨ d.strAt "instance" = some "_Total" with
  | none => exact fits_null
  | some d => exact hv.items (List.mem_of_find?_eq_some hfind)

theorem forall_mem_ite {p : Prop} [Decidable p] {es es' : List (Option JVal)}
    (hes : ∀ inner ∈ es, Keepable inner) (hes' : ∀ inner ∈ es', Keepable inner) :
    ∀ inner ∈ (if p then es else es'), Keepable inner := by
  split
  · exact hes
  · exact hes'

/-- A record is loaded if every reason inside it can be cut. -/
theorem Fits.reasonsKeepable (hv : v.Fits) : ReasonsKeepable v := by
  intro collector _
  have hgpu : ∀ inner ∈ (Session.items v "adapters").flatMap adapterEnvelopes, Keepable inner := by
    intro inner hinner
    obtain ⟨adapter, hadapter, hinner⟩ := List.mem_flatMap.mp hinner
    exact (hv.items hadapter).adapter inner hinner
  unfold collectorEnvelopes
  -- one case per collector, in the order of the definition
  apply forall_mem_ite hv.battery
  apply forall_mem_ite hv.cpu
  apply forall_mem_ite hgpu
  apply forall_mem_ite (hv.keyed_items _ _)
  apply forall_mem_ite (hv.keyed_items _ _)
  apply forall_mem_ite hv.net
  apply forall_mem_ite (hv.totalDisk.keyed _)
  apply forall_mem_ite (hv.keyed_items _ _)
  apply forall_mem_ite (hv.keyed _)
  apply forall_mem_ite hv.policy
  intro inner hinner
  cases hinner

end PowerForensics.Json.JVal

namespace PowerForensics.Json.Doc

open JVal (Fits Cut)

/-! ## Documents that can be loaded -/

/-- A document is read back, and every reason inside it can be cut. -/
def Stored (levels : Nat) (d : Doc) : Prop := d.Reads levels ∧ d.value.Fits

section Stored

variable {levels : Nat}

theorem stored_null : Stored (levels + 1) null := ⟨reads_null, JVal.fits_null⟩

theorem stored_bool (b : Bool) : Stored (levels + 1) (bool b) := ⟨reads_bool b, JVal.fits_bool b⟩

theorem stored_digits (n : Nat) : Stored (levels + 1) (digits n) :=
  ⟨reads_digits n, JVal.fits_num _⟩

theorem stored_shown {x : Binary64} (hx : x.isFinite = true) : Stored (levels + 1) (shown x) :=
  ⟨reads_shown hx, JVal.fits_num _⟩

theorem stored_fixed {places : Nat} {x : Binary64} (hx : x.isFinite = true) :
    Stored (levels + 1) (fixed places x) :=
  ⟨reads_fixed hx, JVal.fits_num _⟩

theorem stored_str (s : String) : Stored (levels + 1) (str s) := ⟨reads_str s, JVal.fits_str s⟩

theorem stored_arr {items : List Doc} (hitems : ∀ d ∈ items, d.Stored levels) :
    Stored (levels + 1) (arr items) := by
  refine ⟨reads_arr fun d hd => (hitems d hd).1, ?_⟩
  rw [value_arr]
  apply JVal.fits_arr
  intro v hv
  obtain ⟨d, hd, rfl⟩ := List.mem_map.mp hv
  exact (hitems d hd).2

theorem stored_map {α : Type} {write : α → Doc} {l : List α}
    (hwrite : ∀ a ∈ l, (write a).Stored levels) : Stored (levels + 1) (arr (l.map write)) := by
  apply stored_arr
  intro d hd
  obtain ⟨a, ha, rfl⟩ := List.mem_map.mp hd
  exact hwrite a ha

theorem mem_memberValues {members : List (String × Doc)} {p : String × JVal}
    (hp : p ∈ memberValues members) : ∃ m ∈ members, p = (m.1, m.2.value) := by
  induction members with
  | nil => cases hp
  | cons m members ih =>
      obtain rfl | hp := List.mem_cons.mp hp
      · exact ⟨m, List.mem_cons_self, rfl⟩
      · obtain ⟨m', hm', hp⟩ := ih hp
        exact ⟨m', List.mem_cons_of_mem _ hm', hp⟩

/-- An object is stored if its members are, and its own reason can be cut. -/
theorem stored_obj_of_reason {members : List (String × Doc)}
    (hmembers : ∀ m ∈ members, m.2.Stored levels)
    (hreason : ∀ reason ∈ (obj members).value.strAt "reason", Cut reason) :
    Stored (levels + 1) (obj members) := by
  refine ⟨reads_obj fun m hm => (hmembers m hm).1, ?_⟩
  apply JVal.fits_obj _ hreason
  intro p hp
  obtain ⟨m, hm, rfl⟩ := mem_memberValues hp
  exact (hmembers m hm).2

theorem get_of_not_mem {members : List (String × Doc)} {key : String}
    (hkey : key ∉ members.map Prod.fst) : (obj members).value.get key = none := by
  induction members with
  | nil => rfl
  | cons m members ih =>
      rw [List.map_cons, List.mem_cons, not_or] at hkey
      obtain ⟨k, d⟩ := m
      rw [get_obj, if_neg (Ne.symm hkey.1), ih hkey.2]

/-- An object that has no reason of its own. -/
theorem stored_obj {members : List (String × Doc)} (hmembers : ∀ m ∈ members, m.2.Stored levels)
    (hkeys : "reason" ∉ members.map Prod.fst) : Stored (levels + 1) (obj members) := by
  apply stored_obj_of_reason hmembers
  intro reason hreason
  rw [JVal.strAt, get_of_not_mem hkeys] at hreason
  cases hreason

theorem stored_present {d : Doc} (hd : d.Stored (levels + 1)) (prov : Provenance) :
    Stored (levels + 2) (present d prov) := by
  apply stored_obj
  · simp only [List.forall_mem_cons, List.not_mem_nil, false_imp_iff, implies_true, and_true]
    exact ⟨hd, stored_str _, stored_digits _⟩
  · simp

theorem stored_absent (kind : UnavailKind) {reason : String} (hreason : Cut reason) :
    Stored (levels + 2) (absent kind reason) := by
  apply stored_obj_of_reason
  · simp only [List.forall_mem_cons, List.not_mem_nil, false_imp_iff, implies_true, and_true]
    exact ⟨stored_null, stored_str _, stored_digits _, stored_digits _, stored_str _⟩
  · intro r hr
    obtain rfl := Option.some.inj hr
    exact hreason

theorem stored_envelope {v : Option Doc} (hv : ∀ d ∈ v, d.Stored (levels + 1)) (prov : Provenance)
    (kind : UnavailKind) {reason : String} (hreason : Cut reason) :
    Stored (levels + 2) (envelope v prov kind reason) := by
  cases v with
  | none => exact stored_absent kind hreason
  | some d => exact stored_present (hv d rfl) prov

theorem stored_jsonNum {v : Option Binary64} (hv : ∀ x ∈ v, x.isFinite = true)
    (prov : Provenance) (kind : UnavailKind) {reason : String} (hreason : Cut reason) :
    Stored (levels + 2) (jsonNum v prov kind reason) := by
  refine stored_envelope (fun d hd => ?_) prov kind hreason
  obtain ⟨x, hx, rfl⟩ := Option.mem_map.mp hd
  exact stored_shown (hv x hx)

/-- A reading that is present, or whose reason can be cut. -/
def Readable {α : Type} (r : Reading α) : Prop := ∀ reason, r = .unavailable reason → Cut reason

theorem stored_readingNum {α : Type} {write : α → Doc} {r : Reading α}
    (hr : ∀ x ∈ r.value, (write x).Stored (levels + 1)) (hreason : Readable r)
    (kind : UnavailKind) : Stored (levels + 2) (readingNum write r kind) := by
  cases r with
  | unavailable reason => exact stored_absent kind (hreason reason rfl)
  | measured x => exact stored_present (hr x rfl) _
  | derived x => exact stored_present (hr x rfl) _
  | estimated x => exact stored_present (hr x rfl) _

/-- The line of a stored object is loaded. -/
theorem loadable_of_stored {members : List (String × Doc)} (h : Stored levels (obj members))
    (hlevels : levels ≤ Parser.depthLimit + 1) : Session.Loadable (obj members).text :=
  (loadable_obj h.1 hlevels).mpr h.2.reasonsKeepable

end Stored

end PowerForensics.Json.Doc
