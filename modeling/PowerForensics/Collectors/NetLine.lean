import PowerForensics.Collectors.Network
import PowerForensics.Core.HeadedLine
import PowerForensics.Core.StoredDoc

/-! # Network collector: its line

A sample has the adapters and wireless networks of the inventory and the throughput of the
interfaces. Their states are written as words; a state without a word of its own comes back
as none.
-/

namespace PowerForensics.Collectors

open Json Session

/-! ## Words -/

inductive AdapterClass where
  | wifi
  | ethernet
  | bluetooth
  | loopback
  | other
  deriving DecidableEq

def AdapterClass.asStr : AdapterClass → String
  | wifi => "wifi"
  | ethernet => "ethernet"
  | bluetooth => "bluetooth"
  | loopback => "loopback"
  | other => "other"

def mediaName (media : UInt32) : String :=
  match media.toNat with
  | 0 => "Unknown"
  | 1 => "Connected"
  | 2 => "Disconnected"
  | n => s!"media-{n}"

def iftypeName (iftype : UInt32) : String :=
  match iftype.toNat with
  | 6 => "ethernet"
  | 24 => "loopback"
  | 71 => "wifi"
  | 131 => "tunnel"
  | n => s!"type-{n}"

def wlanStateName (state : UInt32) : PlainName :=
  match state.toNat with
  | 0 => ⟨"not-ready", by decide⟩
  | 1 => ⟨"connected", by decide⟩
  | 2 => ⟨"adhoc", by decide⟩
  | 3 => ⟨"disconnecting", by decide⟩
  | 4 => ⟨"disconnected", by decide⟩
  | 5 => ⟨"associating", by decide⟩
  | 6 => ⟨"discovering", by decide⟩
  | 7 => ⟨"authenticating", by decide⟩
  | _ => ⟨"unknown", by decide⟩

theorem plain_append {front back : String} (hfront : Plain front) (hback : Plain back) :
    Plain (front ++ back) := by
  intro c hc
  rw [String.toList_append, List.mem_append] at hc
  exact hc.elim (hfront c) (hback c)

theorem plain_toString (n : Nat) : Plain (toString n) := by
  intro c hc
  have hmem : c ∈ Nat.toDigits 10 n := by
    change c ∈ (String.ofList (Nat.toDigits 10 n)).toList at hc
    rwa [String.toList_ofList] at hc
  have hdigit := Nat.isDigit_of_mem_toDigits (by decide) (by decide) hmem
  have hne : ∀ d : Char, d.isDigit = false → c ≠ d := by
    rintro d hd rfl
    rw [hdigit] at hd
    cases hd
  have hlow : ¬c.toNat < 0x20 := by
    rw [Char.isDigit_iff_toNat] at hdigit
    simp only [Char.reduceToNat] at hdigit
    omega
  unfold escapeChar
  rw [if_neg (hne _ rfl), if_neg (hne _ rfl), if_neg (hne _ rfl), if_neg (hne _ rfl),
    if_neg (hne _ rfl), if_neg hlow]

/-- The words of an adapter have nothing to escape, also those that are made of a number. -/
theorem plain_words (adapterClass : AdapterClass) (iftype oper media : UInt32) :
    ∀ word ∈ [adapterClass.asStr, iftypeName iftype, operName oper, mediaName media],
      Plain word := by
  have hnumbered : ∀ (front : String) (n : Nat), Plain front → Plain (front ++ toString n) :=
    fun _ n hfront => plain_append hfront (plain_toString n)
  have hclass : Plain adapterClass.asStr := by
    cases adapterClass <;> decide
  have hiftype : Plain (iftypeName iftype) := by
    unfold iftypeName
    split <;> first | decide | exact hnumbered "type-" _ (by decide)
  have hoper : Plain (operName oper) := by
    unfold operName
    split <;> first | decide | exact hnumbered "oper-" _ (by decide)
  have hmedia : Plain (mediaName media) := by
    unfold mediaName
    split <;> first | decide | exact hnumbered "media-" _ (by decide)
  simpa using ⟨hclass, hiftype, hoper, hmedia⟩

/-! ## Samples -/

/-- An adapter of the table of interfaces. Its words are written as they are, since none of them
has anything to escape. -/
structure TableAdapter extends NetAdapter where
  words : ∀ word ∈ [adapterClass, iftype, operName, media], Plain word

structure Throughput where
  instanceName : String
  rxBps : Option Binary64
  txBps : Option Binary64

structure NetSample where
  adapters : List TableAdapter
  throughput : List Throughput
  wifi : List WifiNet
  totalRxBpsOpt : Option Binary64
  totalTxBpsOpt : Option Binary64
  changes : List String
  topologyStale : Bool
  topologyError : Option String

/-! ## The line -/

def hexByte (b : UInt8) : List Char := [hexChar (b.toNat / 16), hexChar (b.toNat % 16)]

def netAdapterDoc (a : TableAdapter) : Doc :=
  .obj [("alias", .str a.aliasName), ("descr", .str a.descr),
    ("guid", .str (String.ofList (a.guid.flatMap hexByte))),
    ("class", .name ⟨a.adapterClass, a.words _ (by simp)⟩),
    ("iftype", .name ⟨a.iftype, a.words _ (by simp)⟩), ("oper", .digits a.oper.toNat),
    ("oper_name", .name ⟨a.operName, a.words _ (by simp)⟩),
    ("media", .name ⟨a.media, a.words _ (by simp)⟩), ("admin_up", .bool a.adminUp),
    ("tx_mbps", .fixed 1 a.txMbps), ("rx_mbps", .fixed 1 a.rxMbps),
    ("in_octets", .digits a.inOctets.toNat), ("out_octets", .digits a.outOctets.toNat)]

def counterNotReady (v : Option Binary64) : Doc :=
  .jsonNum v .measured .notSampled "counter not ready"

def throughputDoc (t : Throughput) : Doc :=
  .obj [("instance", .str t.instanceName), ("rx_bps", counterNotReady t.rxBps),
    ("tx_bps", counterNotReady t.txBps)]

/-- The signal has an envelope of its own form. -/
def signalDoc (signal : Option UInt8) : Doc :=
  match signal with
  | some s => .obj [("v", .digits s.toNat), ("p", .str "measured")]
  | none => .obj [("v", .null), ("p", .str "unavailable"), ("reason", .str "not connected")]

def wifiDoc (w : WifiNet) : Doc :=
  .obj [("descr", .str w.descr), ("state", .name (wlanStateName w.state)), ("ssid", .str w.ssid),
    ("signal_pct", signalDoc w.signalPct)]

def netTotal (v : Option Binary64) : Doc :=
  .jsonNum v .derived .notSampled "no interface counters available"

def netMembers (sample : NetSample) (stamp : ClockStamp) (tStartMs tEndMs : UInt64) :
    List (String × Doc) :=
  [("collector", .str "net"), ("wall_ms", .digits stamp.wallMillis.toNat),
    ("mono_ms", .digits stamp.monoMillis.toNat), ("t_start_ms", .digits tStartMs.toNat),
    ("t_end_ms", .digits tEndMs.toNat), ("adapters", .arr (sample.adapters.map netAdapterDoc)),
    ("throughput", .arr (sample.throughput.map throughputDoc)),
    ("wifi", .arr (sample.wifi.map wifiDoc)), ("total_rx_bps", netTotal sample.totalRxBpsOpt),
    ("total_tx_bps", netTotal sample.totalTxBpsOpt),
    ("changes", .arr (sample.changes.map .str)), ("topology_stale", .bool sample.topologyStale),
    ("topology_error", sample.topologyError.elim .null .str)]

def netJson (sample : NetSample) (stamp : ClockStamp) (tStartMs tEndMs : UInt64) : Doc :=
  .obj (netMembers sample stamp tStartMs tEndMs)

/-! ## The line is read -/

structure NetSample.Finite (sample : NetSample) : Prop where
  adapters : ∀ a ∈ sample.adapters, a.txMbps.isFinite = true ∧ a.rxMbps.isFinite = true
  throughput : ∀ t ∈ sample.throughput, ∀ v ∈ [t.rxBps, t.txBps], ∀ x ∈ v, x.isFinite = true
  totals : ∀ v ∈ [sample.totalRxBpsOpt, sample.totalTxBpsOpt], ∀ x ∈ v, x.isFinite = true

section Reads

variable {levels : Nat}

theorem stored_netAdapterDoc {a : TableAdapter}
    (ha : a.txMbps.isFinite = true ∧ a.rxMbps.isFinite = true) :
    (netAdapterDoc a).Stored (levels + 2) := by
  refine Doc.stored_obj ?_ (by simp)
  simp only [List.forall_mem_cons, List.not_mem_nil, false_imp_iff, implies_true, and_true]
  exact ⟨Doc.stored_str _, Doc.stored_str _, Doc.stored_str _, Doc.stored_str _, Doc.stored_str _,
    Doc.stored_digits _, Doc.stored_str _, Doc.stored_str _, Doc.stored_bool _,
    Doc.stored_fixed ha.1, Doc.stored_fixed ha.2, Doc.stored_digits _, Doc.stored_digits _⟩

theorem stored_throughputDoc {t : Throughput}
    (ht : ∀ v ∈ [t.rxBps, t.txBps], ∀ x ∈ v, x.isFinite = true) :
    (throughputDoc t).Stored (levels + 3) := by
  refine Doc.stored_obj ?_ (by simp)
  simp only [List.forall_mem_cons, List.not_mem_nil, false_imp_iff, implies_true, and_true]
  exact ⟨Doc.stored_str _, Doc.stored_jsonNum (ht _ (by simp)) _ _ (JVal.cut_of_short (by decide)),
    Doc.stored_jsonNum (ht _ (by simp)) _ _ (JVal.cut_of_short (by decide))⟩

theorem stored_signalDoc (signal : Option UInt8) : (signalDoc signal).Stored (levels + 2) := by
  cases signal with
  | some s =>
      refine Doc.stored_obj ?_ (by simp)
      simp only [List.forall_mem_cons, List.not_mem_nil, false_imp_iff, implies_true, and_true]
      exact ⟨Doc.stored_digits _, Doc.stored_str _⟩
  | none =>
      apply Doc.stored_obj_of_reason
      · simp only [List.forall_mem_cons, List.not_mem_nil, false_imp_iff, implies_true, and_true]
        exact ⟨Doc.stored_null, Doc.stored_str _, Doc.stored_str _⟩
      · intro reason hreason
        obtain rfl : "not connected" = reason := Option.some.inj hreason
        exact JVal.cut_of_short (by decide)

theorem stored_wifiDoc (w : WifiNet) : (wifiDoc w).Stored (levels + 3) := by
  refine Doc.stored_obj ?_ (by simp)
  simp only [List.forall_mem_cons, List.not_mem_nil, false_imp_iff, implies_true, and_true]
  exact ⟨Doc.stored_str _, Doc.stored_str _, Doc.stored_str _, stored_signalDoc _⟩

theorem stored_netJson {sample : NetSample} (hsample : sample.Finite) (stamp : ClockStamp)
    (tStartMs tEndMs : UInt64) : (netJson sample stamp tStartMs tEndMs).Stored 5 := by
  have hadapters : (Doc.arr (sample.adapters.map netAdapterDoc)).Stored 4 :=
    Doc.stored_map fun a ha => stored_netAdapterDoc (hsample.adapters a ha)
  have hthroughput : (Doc.arr (sample.throughput.map throughputDoc)).Stored 4 :=
    Doc.stored_map fun t ht => stored_throughputDoc (hsample.throughput t ht)
  have hwifi : (Doc.arr (sample.wifi.map wifiDoc)).Stored 4 :=
    Doc.stored_map fun w _ => stored_wifiDoc w
  have hchanges : (Doc.arr (sample.changes.map .str)).Stored 4 :=
    Doc.stored_map fun c _ => Doc.stored_str c
  have hfault : (sample.topologyError.elim .null Doc.str).Stored 4 := by
    cases sample.topologyError with
    | none => exact Doc.stored_null
    | some e => exact Doc.stored_str e
  refine Doc.stored_obj ?_ (by simp [netMembers])
  simp only [netMembers, List.forall_mem_cons, List.not_mem_nil, false_imp_iff, implies_true,
    and_true]
  exact ⟨Doc.stored_str _, Doc.stored_digits _, Doc.stored_digits _, Doc.stored_digits _,
    Doc.stored_digits _, hadapters, hthroughput, hwifi,
    Doc.stored_jsonNum (hsample.totals _ (by simp)) _ _ (JVal.cut_of_short (by decide)),
    Doc.stored_jsonNum (hsample.totals _ (by simp)) _ _ (JVal.cut_of_short (by decide)),
    hchanges, Doc.stored_bool _, hfault⟩

theorem reads_netJson {sample : NetSample} (hsample : sample.Finite) (stamp : ClockStamp)
    (tStartMs tEndMs : UInt64) : (netJson sample stamp tStartMs tEndMs).Reads 5 :=
  (stored_netJson hsample stamp tStartMs tEndMs).1

end Reads

/-! ## The line is loaded -/

def loadedWord (code : UInt32) (last : UInt32) : Option Binary64 :=
  if code ≤ last then some (ofU32 code) else none

theorem loadedWord_of_le {code last : UInt32} {n : Nat} (hcode : code.toNat = n)
    (hle : n ≤ last.toNat) : loadedWord code last = some (.ofNat n) := by
  subst hcode
  exact if_pos (UInt32.le_iff_toNat_le.mpr hle)

theorem loadedWord_of_lt {code last : UInt32} (hlt : last.toNat < code.toNat) :
    loadedWord code last = none :=
  if_neg fun hle => Nat.not_le.mpr hlt (UInt32.le_iff_toNat_le.mp hle)

/-- The words of media and of wireless states, by their codes. -/
theorem code_words : (mediaCode "Unknown" = some (.ofNat 0) ∧
      mediaCode "Connected" = some (.ofNat 1) ∧ mediaCode "Disconnected" = some (.ofNat 2)) ∧
    (∀ n : Fin 8, wifiStateCode (wlanStateName (.ofNat n)).text = some (.ofNat n)) ∧
    wifiStateCode "unknown" = none := by
  decide +kernel

theorem mediaCode_numbered (n : Nat) : mediaCode s!"media-{n}" = none := by
  have hhead : (s!"media-{n}").toList.head? = some 'm' := by
    have htext : s!"media-{n}" = "media-" ++ toString n := rfl
    have hfront : "media-".toList = 'm' :: "edia-".toList := by decide
    rw [htext, String.toList_append, hfront]
    rfl
  have hne : ∀ word : String, word.toList.head? ≠ some 'm' → s!"media-{n}" ≠ word := by
    intro word hword heq
    exact hword (heq ▸ hhead)
  unfold mediaCode
  rw [if_neg (hne _ (by decide)), if_neg (hne _ (by decide)), if_neg (hne _ (by decide))]

/-- The states of media with a word of their own come back. -/
theorem mediaCode_mediaName (media : UInt32) :
    mediaCode (mediaName media) = loadedWord media 2 := by
  obtain ⟨hunknown, hconnected, hdisconnected⟩ := code_words.1
  unfold mediaName
  split
  next hcode => rw [hunknown, loadedWord_of_le hcode (by decide)]
  next hcode => rw [hconnected, loadedWord_of_le hcode (by decide)]
  next hcode => rw [hdisconnected, loadedWord_of_le hcode (by decide)]
  next h0 h1 h2 =>
    have hne : media.toNat ≠ 0 ∧ media.toNat ≠ 1 ∧ media.toNat ≠ 2 := ⟨h0, h1, h2⟩
    have hlt : (2 : UInt32).toNat < media.toNat := by
      change 2 < media.toNat
      omega
    rw [mediaCode_numbered, loadedWord_of_lt hlt]

theorem wifiStateCode_wlanStateName (state : UInt32) :
    wifiStateCode (wlanStateName state).text = loadedWord state 7 := by
  by_cases hlt : state.toNat < 8
  · have hword := code_words.2.1 ⟨state.toNat, hlt⟩
    rw [UInt32.ofNat_toNat] at hword
    rw [hword, loadedWord_of_le rfl (Nat.lt_succ_iff.mp hlt)]
  · have hunknown : (wlanStateName state).text = "unknown" := by
      unfold wlanStateName
      split <;> first | omega | rfl
    rw [hunknown, code_words.2.2, loadedWord_of_lt (Nat.not_lt.mp hlt)]

/-- An adapter as the loader has it. -/
def loadedNetAdapter (stamp : ClockStamp) (a : TableAdapter) : NetAdapterRec where
  aliasName := a.aliasName
  descr := a.descr
  className := a.adapterClass
  iftype := a.iftype
  oper := some (ofU32 a.oper)
  media := mediaCode a.media
  adminUp := a.adminUp
  txMbps := bareNumber (a.txMbps.toPlaces 1) "net" stamp
  rxMbps := bareNumber (a.rxMbps.toPlaces 1) "net" stamp
  inOctets := bareNumber (ofU64 a.inOctets) "net" stamp
  outOctets := bareNumber (ofU64 a.outOctets) "net" stamp

def loadedCounter (stamp : ClockStamp) (v : Option Binary64) : Telemetry Binary64 :=
  loadedReading (optReading .measured "counter not ready" v) .notSampled "net" stamp

def loadedThroughput (stamp : ClockStamp) (t : Throughput) :
    String × Telemetry Binary64 × Telemetry Binary64 :=
  (t.instanceName, loadedCounter stamp t.rxBps, loadedCounter stamp t.txBps)

def loadedSignal (stamp : ClockStamp) (signal : Option UInt8) : Telemetry Binary64 :=
  loadedReading (optReading .measured "not connected" (signal.map fun s => .ofNat s.toNat))
    .notSampled "net" stamp

def loadedWifi (stamp : ClockStamp) (w : WifiNet) : WifiRec where
  descr := w.descr
  state := loadedWord w.state 7
  ssid := w.ssid
  signalPct := loadedSignal stamp w.signalPct

def loadedTotal (stamp : ClockStamp) (v : Option Binary64) : Telemetry Binary64 :=
  loadedReading (optReading .derived "no interface counters available" v) .notSampled "net" stamp

theorem loadNetAdapter_doc (stamp : ClockStamp) (a : TableAdapter) :
    loadNetAdapter stamp (netAdapterDoc a).value = .ok (loadedNetAdapter stamp a) := by
  rfl

theorem loadThroughput_doc (stamp : ClockStamp) (t : Throughput) :
    loadThroughput stamp (throughputDoc t).value = .ok (loadedThroughput stamp t) := by
  have hcounter : ∀ (key : String) (v : Option Binary64),
      (throughputDoc t).value.get key = some (counterNotReady v).value →
        ev (throughputDoc t).value key "net" stamp = .ok (loadedCounter stamp v) :=
    fun key v hget => ev_jsonNum hget nofun (truncate_reason (by decide)) "net" stamp
  rw [loadThroughput, hcounter "rx_bps" t.rxBps rfl, hcounter "tx_bps" t.txBps rfl]
  rfl

theorem ev_signalDoc {obj : JVal} {key : String} {signal : Option UInt8}
    (hget : obj.get key = some (signalDoc signal).value) (stamp : ClockStamp) :
    ev obj key "net" stamp = .ok (loadedSignal stamp signal) := by
  rw [ev, hget]
  cases signal with
  | some s => rfl
  | none =>
      have hcut : truncate reasonLimit "not connected".toList = some "not connected".toList :=
        truncate_reason (by decide)
      have hreason : internReason "not connected" = .ok (String.ofList "not connected".toList) :=
        internReason_of_cut hcut
      rw [String.ofList_toList] at hreason
      have hvalue : (signalDoc none).value = .obj [("v", .null), ("p", .str "unavailable"),
          ("reason", .str "not connected")] := rfl
      simp only [evInner, hvalue, Option.bind_some, JVal.num?, JVal.numAt, JVal.strAt,
        get_obj_cons, get_obj_nil, JVal.asStr, reduceIte, String.reduceEq, Option.map_none,
        Option.getD_none, Option.getD_some, Option.bind_none, storedReason, hreason]
      rfl

theorem loadWifi_doc (stamp : ClockStamp) (w : WifiNet) :
    loadWifi stamp (wifiDoc w).value = .ok (loadedWifi stamp w) := by
  have hsignal : ev (wifiDoc w).value "signal_pct" "net" stamp =
      .ok (loadedSignal stamp w.signalPct) := ev_signalDoc rfl stamp
  have hstate : (wifiDoc w).value.strAt "state" = some (wlanStateName w.state).text := rfl
  rw [loadWifi, hsignal, hstate, Option.bind_some, wifiStateCode_wlanStateName]
  rfl

section Line

variable (sample : NetSample) (stamp : ClockStamp) (tStartMs tEndMs : UInt64)

/-- A sample as the loader has it. -/
def loadedNet (at_ : ClockStamp) (window : Window) : NetPoint where
  t := seconds at_.monoMillis
  window := window
  totalRx := loadedTotal at_ sample.totalRxBpsOpt
  totalTx := loadedTotal at_ sample.totalTxBpsOpt
  adapters := sample.adapters.map (loadedNetAdapter at_)
  throughput := sample.throughput.map (loadedThroughput at_)
  wifi := sample.wifi.map (loadedWifi at_)
  changes := sample.changes
  topologyStale := sample.topologyStale

theorem loadNet_netJson (s : SessionData) (at_ : ClockStamp) :
    loadNet (netJson sample stamp tStartMs tEndMs).value at_ s =
      .ok { s with net := s.net ++ [loadedNet sample at_
        (windowOf (netJson sample stamp tStartMs tEndMs).value)] } := by
  have hadapters : ((netJson sample stamp tStartMs tEndMs).value.arrAt "adapters").getD [] =
      (sample.adapters.map netAdapterDoc).map Doc.value := arrAt_arr rfl
  have hthroughput : ((netJson sample stamp tStartMs tEndMs).value.arrAt "throughput").getD [] =
      (sample.throughput.map throughputDoc).map Doc.value := arrAt_arr rfl
  have hwifi : ((netJson sample stamp tStartMs tEndMs).value.arrAt "wifi").getD [] =
      (sample.wifi.map wifiDoc).map Doc.value := arrAt_arr rfl
  have hchanges : strList (netJson sample stamp tStartMs tEndMs).value "changes" =
      sample.changes := by
    have harr : ((netJson sample stamp tStartMs tEndMs).value.arrAt "changes").getD [] =
        (sample.changes.map Doc.str).map Doc.value := arrAt_arr rfl
    rw [strList, harr, List.map_map, List.filterMap_map]
    exact List.filterMap_some
  have htotal : ∀ (key : String) (v : Option Binary64),
      (netJson sample stamp tStartMs tEndMs).value.get key = some (netTotal v).value →
        ev (netJson sample stamp tStartMs tEndMs).value key "net" at_ = .ok (loadedTotal at_ v) :=
    fun key v hget => ev_jsonNum hget nofun (truncate_reason (by decide)) "net" at_
  have hload : ∀ {α β : Type} (l : List α) (write : α → Doc) (load : JVal → Except Fault β)
      (loaded : α → β), (∀ a, load (write a).value = .ok (loaded a)) →
        ((l.map write).map Doc.value).mapM load = .ok (l.map loaded) := by
    intro α β l write load loaded hall
    rw [List.map_map]
    exact mapM_map_ok fun a _ => hall a
  rw [loadNet, hadapters, hthroughput, hwifi, hchanges,
    hload _ _ _ _ (loadNetAdapter_doc at_), hload _ _ _ _ (loadThroughput_doc at_),
    hload _ _ _ _ (loadWifi_doc at_), htotal "total_rx_bps" sample.totalRxBpsOpt rfl,
    htotal "total_tx_bps" sample.totalTxBpsOpt rfl]
  rfl

end Line

end PowerForensics.Collectors
