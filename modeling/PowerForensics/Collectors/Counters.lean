import PowerForensics.System.Responses
import PowerForensics.Text.Search

/-! # Counter sets of the rate collectors

The graphics, network and storage collectors keep a query with their counters. It is built on
the first read, with a warm-up that ends in a collection, and built anew every so many reads.
A rate is computed over the two most recent collections of the query.
-/

namespace PowerForensics.Collectors

open Responses

/-! ## Retries of the initialization -/

inductive InitClass where
  | permanentUnsupported
  | permissionElevation
  | transientProvider
  | temporaryDeviceGone
  deriving DecidableEq

def InitClass.retryable : InitClass → Bool
  | transientProvider | temporaryDeviceGone => true
  | _ => false

def mentions (words : List String) (m : List Char) : Bool :=
  words.any fun word => (Search.behind word.toList m).isSome

def classifyInitError (msg : String) : InitClass :=
  let m := msg.toList.map Char.toLower
  if mentions ["0x80070005", "0xc0000bdb", "access is denied", "access denied", "denied",
      "privilege", "elevat"] m then .permissionElevation
  else if mentions ["windows required", "no representative", "unsupported", "not supported",
      "no such object"] m then .permanentUnsupported
  else if mentions ["0x800007d5", "0xc0000bbf", "no data", "not found", "no instance", "no such",
      "device", "unplug", "no instances enumerated"] m then .temporaryDeviceGone
  else .transientProvider

/-- Ticks to wait after so many failures: 5, 10, 20 and so on, up to 320. -/
def backoffTicks (attempts : Nat) : Nat := min (5 * 2 ^ min (attempts - 1) 6) 320

structure InitRetry where
  error : Option String
  initClass : InitClass
  attempts : Nat
  retryAtTick : Nat

namespace InitRetry

def new : InitRetry := ⟨none, .permanentUnsupported, 0, 0⟩

def mayAttempt (r : InitRetry) (tick : UInt64) : Bool :=
  match r.error with
  | none => true
  | some _ => r.initClass.retryable && r.retryAtTick ≤ tick.toNat

/-- The count and the deadline stay within their types. -/
def noteFailure (r : InitRetry) (tick : UInt64) (msg : String) : InitRetry :=
  let attempts := min (r.attempts + 1) (2 ^ 32 - 1)
  { error := some msg
    initClass := classifyInitError msg
    attempts
    retryAtTick := min (tick.toNat + backoffTicks attempts) (2 ^ 64 - 1) }

def noteSuccess (r : InitRetry) : InitRetry :=
  { r with error := none, attempts := 0, retryAtTick := 0 }

end InitRetry

/-! ## Queries -/

/-- When a collection is taken: in which read, and behind how many warm-up sleeps. -/
structure Moment where
  read : Nat
  sleeps : Nat
  deriving DecidableEq

/-- A sleep or the boundary between two reads lies in between. -/
def Moment.Apart (a b : Moment) : Prop := a.read ≠ b.read ∨ a.sleeps ≠ b.sleeps

instance decidableApart (a b : Moment) : Decidable (a.Apart b) :=
  inferInstanceAs (Decidable (_ ∨ _))

/-- A query by its collections, the last one first. -/
structure PdhQuery where
  collections : List Moment

def PdhQuery.collect (q : PdhQuery) (now : Moment) : PdhQuery := ⟨now :: q.collections⟩

/-- The collections that a rate is computed over. -/
def PdhQuery.window (q : PdhQuery) : Option (Moment × Moment) :=
  match q.collections with
  | last :: previous :: _ => some (last, previous)
  | _ => none

/-! ## Building the counters -/

/-- How an attempt to build the counters goes: whether the query opens, which instances an object
has, which handle adding a counter gives (0 for a failure) and whether the two collections of the
warm-up succeed. -/
structure Build where
  opened : Except String Unit
  enumInstances : String → Except String (List String)
  add : String → Nat
  first : Except String Unit
  second : Except String Unit

/-- The instances of an object, none where they cannot be enumerated. -/
def Build.instances (b : Build) (object : String) : List String :=
  match b.enumInstances object with
  | .ok insts => insts
  | .error _ => []

/-- What sets a collector apart from the others: its counters, what it says when it has none, and
how often it builds them anew. -/
structure CounterKind (κ : Type) where
  rebuildEvery : UInt64
  counters : Build → κ
  empty : κ
  isEmpty : κ → Bool
  noCounters : String

section Machine

variable {κ : Type} (kind : CounterKind κ)

/-- The warm-up sleeps between two collections. -/
def buildCounters (b : Build) (now : Moment) : Except String (PdhQuery × κ) × Moment :=
  let slept := { now with sleeps := now.sleeps + 1 }
  match b.opened with
  | .error e => (.error e, now)
  | .ok () =>
      if kind.isEmpty (kind.counters b) then (.error kind.noCounters, now)
      else
        match b.first with
        | .error e => (.error e, now)
        | .ok () =>
            match b.second with
            | .error e => (.error e, slept)
            | .ok () => (.ok (⟨[slept, now]⟩, kind.counters b), slept)

/-- The attempt leaves a query with counters. -/
def Build.Succeeds (b : Build) : Prop :=
  b.opened.isOk ∧ kind.isEmpty (kind.counters b) = false ∧ b.first.isOk ∧ b.second.isOk

structure Counters (κ : Type) where
  pdh : Option PdhQuery
  table : κ
  initRetry : InitRetry
  /-- The warm-up has just ended with a collection. -/
  fresh : Bool
  tick : UInt64

def Counters.new : Counters κ := ⟨none, kind.empty, .new, false, 0⟩

/-- How the calls of one read go. -/
structure Surroundings where
  init : Build
  rebuild : Build
  collect : Except String Unit

/-- The counters that values are read from, and the collections their rates are computed over. -/
structure Rates (κ : Type) where
  table : κ
  window : Option (Moment × Moment)

def ensureInit (b : Build) (now : Moment) (c : Counters κ) :
    Except String Unit × Counters κ × Moment :=
  if c.pdh.isSome then (.ok (), c, now)
  else if !c.initRetry.mayAttempt c.tick then
    (.error (c.initRetry.error.getD "initialization retry pending"), c, now)
  else
    match buildCounters kind b now with
    | (.ok (q, table), now) =>
        (.ok (),
          { c with pdh := some q, table, fresh := true, initRetry := c.initRetry.noteSuccess }, now)
    | (.error e, now) =>
        (.error e, { c with initRetry := c.initRetry.noteFailure c.tick e }, now)

/-- The periodic rebuild works on a collector of its own. Query and table are taken over from
it, and what came of it is reported. -/
def rebuild (b : Build) (now : Moment) (c : Counters κ) :
    Option (Except String Unit) × Counters κ × Moment :=
  if c.tick % kind.rebuildEvery = 0 then
    match buildCounters kind b now with
    | (.ok (q, table), now) => (some (.ok ()), { c with pdh := some q, table }, now)
    | (.error e, now) => (some (.error e), c, now)
  else (none, c, now)

/-- The rates of a read. Counters fresh from the warm-up are not collected again. -/
def sampleRates (collect : Except String Unit) (now : Moment) (c : Counters κ) :
    Except String (Rates κ) × Counters κ :=
  match c.pdh with
  | none => (.error "PDH query not initialized", c)
  | some q =>
      if c.fresh then (.ok ⟨c.table, q.window⟩, { c with fresh := false })
      else
        match collect with
        | .error e => (.error e, c)
        | .ok () => (.ok ⟨c.table, (q.collect now).window⟩, { c with pdh := some (q.collect now) })

/-- A collector and the clock of its collections. -/
structure Clocked (κ : Type) where
  counters : Counters κ
  now : Moment

def Clocked.new : Clocked κ := ⟨.new kind, ⟨0, 0⟩⟩

/-- What a read finds: the rates, and the outcome of a rebuild if there was one. -/
structure Found (κ : Type) where
  rates : Except String (Rates κ)
  rebuilt : Option (Except String Unit)

/-- A read begins with the next tick, so that a failed attempt counts down its backoff. -/
def Clocked.beginRead (s : Clocked κ) : Clocked κ :=
  { counters := { s.counters with tick := s.counters.tick + 1 }
    now := { s.now with read := s.now.read + 1 } }

def readCounters (s : Clocked κ) (env : Surroundings) : Found κ × Clocked κ :=
  match ensureInit kind env.init s.beginRead.now s.beginRead.counters with
  | (.error e, c, now) => (⟨.error e, none⟩, ⟨c, now⟩)
  | (.ok (), c, now) =>
      let (rebuilt, c, now) := rebuild kind env.rebuild now c
      let (rates, c) := sampleRates env.collect now c
      (⟨rates, rebuilt⟩, ⟨c, now⟩)

/-! ## Windows of the samples -/

/-- The collections that the rates are computed over are apart. -/
def Rates.Spans (r : Rates κ) : Prop := ∀ w ∈ r.window, w.1.Apart w.2

def Found.Spans (f : Found κ) : Prop := ∀ r, f.rates = .ok r → r.Spans

/-- The read builds counters anew that it has been reading, and goes on to collect. -/
def Overbuilds (s : Clocked κ) (env : Surroundings) : Prop :=
  s.counters.pdh.isSome ∧ (s.counters.tick + 1) % kind.rebuildEvery = 0 ∧
    env.rebuild.Succeeds kind ∧ env.collect.isOk

/-- Between reads no counters are fresh, and none were collected later than in the last read. -/
structure Settled (s : Clocked κ) : Prop where
  used : s.counters.fresh = false
  collected : ∀ q ∈ s.counters.pdh, ∃ last before, q.collections = last :: before ∧
    last.read ≤ s.now.read

theorem settled_new : Settled (Clocked.new kind) := ⟨rfl, nofun⟩

/-- A successful build leaves the two collections of its warm-up. -/
theorem buildCounters_ok {b : Build} {now later : Moment} {q : PdhQuery} {table : κ}
    (hbuild : buildCounters kind b now = (.ok (q, table), later)) :
    q.collections = [later, now] ∧ later = { now with sleeps := now.sleeps + 1 } := by
  unfold buildCounters at hbuild
  dsimp only at hbuild
  split at hbuild
  · cases hbuild
  split at hbuild
  · cases hbuild
  split at hbuild
  · cases hbuild
  split at hbuild
  · cases hbuild
  cases hbuild
  exact ⟨rfl, rfl⟩

theorem buildCounters_read (b : Build) (now : Moment) :
    (buildCounters kind b now).2.read = now.read := by
  unfold buildCounters
  repeat' split
  all_goals rfl

theorem buildCounters_isOk (b : Build) (now : Moment) :
    (buildCounters kind b now).1.isOk ↔ b.Succeeds kind := by
  unfold buildCounters Build.Succeeds
  cases b.opened with
  | error e => simp [Except.isOk, Except.toBool]
  | ok _ =>
      cases kind.isEmpty (kind.counters b) with
      | true => simp [Except.isOk, Except.toBool]
      | false =>
          cases b.first with
          | error e => simp [Except.isOk, Except.toBool]
          | ok _ => cases b.second <;> simp [Except.isOk, Except.toBool]

/-- Counters that were there are left as they are, others are fresh from their warm-up. -/
theorem ensureInit_ok {b : Build} {now later : Moment} {c c' : Counters κ}
    (hinit : ensureInit kind b now c = (.ok (), c', later)) :
    c'.tick = c.tick ∧ ((c.pdh.isSome ∧ c' = c ∧ later = now) ∨
      (c.pdh = none ∧ c'.fresh = true ∧ ∃ q, c'.pdh = some q ∧ q.collections = [later, now] ∧
        later = { now with sleeps := now.sleeps + 1 })) := by
  unfold ensureInit at hinit
  split at hinit
  next hsome =>
    cases hinit
    exact ⟨rfl, Or.inl ⟨hsome, rfl, rfl⟩⟩
  next hnone =>
    split at hinit
    · cases hinit
    split at hinit
    next q table _ hbuild =>
      cases hinit
      exact ⟨rfl, Or.inr ⟨by simpa using hnone, rfl, q, rfl, buildCounters_ok kind hbuild⟩⟩
    · cases hinit

/-- Without counters there is no sample, and nothing fresh. -/
theorem ensureInit_error {b : Build} {now later : Moment} {c c' : Counters κ} {e : String}
    (hinit : ensureInit kind b now c = (.error e, c', later)) :
    c.pdh = none ∧ c'.pdh = none ∧ c'.fresh = c.fresh := by
  unfold ensureInit at hinit
  split at hinit
  · cases hinit
  next hnone =>
    have hpdh : c.pdh = none := by simpa using hnone
    split at hinit
    · cases hinit
      exact ⟨hpdh, hpdh, rfl⟩
    split at hinit
    · cases hinit
    · cases hinit
      exact ⟨hpdh, hpdh, rfl⟩

/-- A rebuild either succeeds and replaces the query, or leaves the counters alone. -/
theorem rebuild_cases (b : Build) (now : Moment) (c : Counters κ) :
    (∃ q table later, (rebuild kind b now c).2 = ({ c with pdh := some q, table }, later) ∧
      c.tick % kind.rebuildEvery = 0 ∧ b.Succeeds kind ∧
      q.collections = [later, now] ∧ later = { now with sleeps := now.sleeps + 1 }) ∨
    (∃ later, (rebuild kind b now c).2 = (c, later) ∧ later.read = now.read ∧
      ¬ (c.tick % kind.rebuildEvery = 0 ∧ b.Succeeds kind)) := by
  unfold rebuild
  split
  next htick =>
    have hread := buildCounters_read kind b now
    have hisOk := buildCounters_isOk kind b now
    split
    next q table later hbuild =>
      rw [hbuild] at hisOk
      exact Or.inl ⟨q, table, later, rfl, htick, hisOk.1 rfl, buildCounters_ok kind hbuild⟩
    next e later hbuild =>
      rw [hbuild] at hread hisOk
      exact Or.inr ⟨later, rfl, hread, fun h => nomatch hisOk.2 h.2⟩
  next htick => exact Or.inr ⟨now, rfl, rfl, fun h => htick h.1⟩

/-- Fresh counters are read as they are. -/
theorem sampleRates_fresh (collect : Except String Unit) (now : Moment) {c : Counters κ}
    {q : PdhQuery} (hpdh : c.pdh = some q) (hfresh : c.fresh = true) :
    sampleRates collect now c = (.ok ⟨c.table, q.window⟩, { c with fresh := false }) := by
  simp [sampleRates, hpdh, hfresh]

/-- Others are collected first. -/
theorem sampleRates_collect (collect : Except String Unit) (now : Moment) {c : Counters κ}
    {q : PdhQuery} (hpdh : c.pdh = some q) (hfresh : c.fresh = false) :
    (collect.isOk ∧ sampleRates collect now c =
      (.ok ⟨c.table, (q.collect now).window⟩, { c with pdh := some (q.collect now) })) ∨
    (collect.isOk = false ∧ ∃ e, sampleRates collect now c = (.error e, c)) := by
  unfold sampleRates
  rw [hpdh]
  cases collect with
  | ok u => exact Or.inl ⟨rfl, by simp [hfresh]⟩
  | error e => exact Or.inr ⟨rfl, e, by simp [hfresh]⟩

/-- A read with counters samples them behind the rebuild. -/
theorem readCounters_eq {s : Clocked κ} {env : Surroundings} {c c' : Counters κ}
    {now later : Moment}
    (hinit : ensureInit kind env.init s.beginRead.now s.beginRead.counters = (.ok (), c, now))
    (hrebuild : (rebuild kind env.rebuild now c).2 = (c', later)) :
    (readCounters kind s env).1.rates = (sampleRates env.collect later c').1 ∧
      (readCounters kind s env).2 = ⟨(sampleRates env.collect later c').2, later⟩ := by
  unfold readCounters
  simp only [hinit, hrebuild, and_self]

/-- A collection behind an earlier one of another read. -/
theorem sampleRates_spans {collect : Except String Unit} {now last : Moment} {before : List Moment}
    {c : Counters κ} {q : PdhQuery} (hpdh : c.pdh = some q) (hfresh : c.fresh = false)
    (hlast : q.collections = last :: before) {r : Rates κ}
    (hr : (sampleRates collect now c).1 = .ok r) : r.Spans ↔ now.Apart last := by
  rcases sampleRates_collect collect now hpdh hfresh with
    ⟨-, heq⟩ | ⟨-, e, heq⟩
  · rw [heq] at hr
    obtain rfl := Except.ok.inj hr
    simp [Rates.Spans, PdhQuery.window, PdhQuery.collect, hlast]
  · rw [heq] at hr
    cases hr

/-- What is collected last is not collected later than now. -/
theorem sampleRates_settled {collect : Except String Unit} {now last : Moment}
    {before : List Moment} {c : Counters κ} {q : PdhQuery} (hpdh : c.pdh = some q)
    (hfresh : c.fresh = false) (hlast : q.collections = last :: before)
    (hread : last.read ≤ now.read) : Settled ⟨(sampleRates collect now c).2, now⟩ := by
  rcases sampleRates_collect collect now hpdh hfresh with
    ⟨-, heq⟩ | ⟨-, e, heq⟩
  · rw [heq]
    refine ⟨hfresh, fun p hp => ?_⟩
    obtain rfl := Option.some.inj hp
    exact ⟨now, last :: before, congrArg (now :: ·) hlast, le_rfl⟩
  · rw [heq]
    refine ⟨hfresh, fun p hp => ?_⟩
    obtain rfl := Option.some.inj (hpdh.symm.trans hp)
    exact ⟨last, before, hlast, hread⟩

/-- A read of counters that are there. -/
theorem readCounters_built {s : Clocked κ} (env : Surroundings) (hs : Settled s) {q : PdhQuery}
    (hpdh : s.counters.pdh = some q) :
    Settled (readCounters kind s env).2 ∧
      ((readCounters kind s env).1.Spans ↔ ¬ Overbuilds kind s env) := by
  obtain ⟨last, before, hlast, hread⟩ := hs.collected q hpdh
  have hbegun : s.beginRead.counters.pdh = some q := hpdh
  have hfresh : s.beginRead.counters.fresh = false := hs.used
  have hnow : s.beginRead.now.read = s.now.read + 1 := rfl
  have hinit : ensureInit kind env.init s.beginRead.now s.beginRead.counters =
      (.ok (), s.beginRead.counters, s.beginRead.now) := by
    simp [ensureInit, hbegun]
  rcases rebuild_cases kind env.rebuild s.beginRead.now s.beginRead.counters with
    ⟨q', table, later, heq, htick, hok, hq', -⟩ | ⟨later, heq, hlater, hnot⟩
  · obtain ⟨hrates, hstate⟩ := readCounters_eq kind hinit heq
    refine ⟨hstate ▸ sampleRates_settled rfl hfresh hq' le_rfl, ?_⟩
    -- the new query ends with its warm-up, and nothing comes between that and the next collection
    have hapart : ¬ later.Apart later := by simp [Moment.Apart]
    unfold Found.Spans Overbuilds
    rw [hrates]
    rcases sampleRates_collect (c := { s.beginRead.counters with pdh := some q', table })
      env.collect later rfl hfresh with ⟨hcollect, hok'⟩ | ⟨hcollect, e, herr⟩
    · refine iff_of_false (fun hspans => hapart ?_)
        (not_not.2 ⟨by simp [hpdh], htick, hok, hcollect⟩)
      have hr := hspans _ (congrArg Prod.fst hok')
      exact (sampleRates_spans (c := { s.beginRead.counters with pdh := some q', table })
        rfl hfresh hq' (congrArg Prod.fst hok')).1 hr
    · rw [herr, hcollect]
      exact iff_of_true nofun (by simp)
  · obtain ⟨hrates, hstate⟩ := readCounters_eq kind hinit heq
    refine ⟨hstate ▸ sampleRates_settled hbegun hfresh hlast (by omega), ?_⟩
    refine iff_of_true (fun r hr => ?_) fun h => hnot ⟨h.2.1, h.2.2.1⟩
    rw [hrates] at hr
    exact (sampleRates_spans hbegun hfresh hlast hr).2 (Or.inl (by omega))

/-- A read that builds counters uses their warm-up. -/
theorem readCounters_fresh {s : Clocked κ} {env : Surroundings} {c : Counters κ} {now : Moment}
    (hpdh : s.counters.pdh = none)
    (hinit : ensureInit kind env.init s.beginRead.now s.beginRead.counters = (.ok (), c, now)) :
    Settled (readCounters kind s env).2 ∧ (readCounters kind s env).1.Spans := by
  obtain ⟨-, ⟨hsome, -, -⟩ | ⟨-, hfresh, q, hq, hcollections, hnow⟩⟩ := ensureInit_ok kind hinit
  · rw [show s.beginRead.counters.pdh = none from hpdh] at hsome
    cases hsome
  · have hwarm : ∀ (q' : PdhQuery) (first last : Moment), q'.collections = [last, first] →
        last = { first with sleeps := first.sleeps + 1 } → ∀ table : κ,
          Rates.Spans ⟨table, q'.window⟩ := by
      intro q' first last hq' hlast table w hw
      simp only [PdhQuery.window, hq', Option.mem_some_iff] at hw
      subst hw hlast
      exact Or.inr (by simp)
    rcases rebuild_cases kind env.rebuild now c with
      ⟨q', table, later, heq, -, -, hq', hlater⟩ | ⟨later, heq, hread, -⟩
    · obtain ⟨hrates, hstate⟩ := readCounters_eq kind hinit heq
      have hsample := sampleRates_fresh env.collect later
        (c := { c with pdh := some q', table }) rfl hfresh
      rw [hsample] at hrates hstate
      refine ⟨hstate ▸ ⟨rfl, fun p hp => ?_⟩, fun r hr => ?_⟩
      · obtain rfl := Option.some.inj hp
        exact ⟨later, [now], hq', le_rfl⟩
      · obtain rfl := Except.ok.inj (hrates.symm.trans hr)
        exact hwarm q' now later hq' hlater table
    · obtain ⟨hrates, hstate⟩ := readCounters_eq kind hinit heq
      have hsample := sampleRates_fresh env.collect later hq hfresh
      rw [hsample] at hrates hstate
      refine ⟨hstate ▸ ⟨rfl, fun p hp => ?_⟩, fun r hr => ?_⟩
      · obtain rfl := Option.some.inj (hq.symm.trans hp)
        exact ⟨now, [s.beginRead.now], hcollections, hread.ge⟩
      · obtain rfl := Except.ok.inj (hrates.symm.trans hr)
        exact hwarm q s.beginRead.now now hcollections hnow c.table

/-- What one read does to the windows. -/
theorem readCounters_spec {s : Clocked κ} (env : Surroundings) (hs : Settled s) :
    Settled (readCounters kind s env).2 ∧
      ((readCounters kind s env).1.Spans ↔ ¬ Overbuilds kind s env) := by
  cases hpdh : s.counters.pdh with
  | some q => exact readCounters_built kind env hs hpdh
  | none =>
      have hnot : ¬ Overbuilds kind s env := by
        rintro ⟨hsome, -⟩
        rw [hpdh] at hsome
        cases hsome
      rcases hinit : ensureInit kind env.init s.beginRead.now s.beginRead.counters with
        ⟨e | _, c, now⟩
      · obtain ⟨-, hnone, hfresh⟩ := ensureInit_error kind hinit
        have hread : readCounters kind s env = (⟨.error e, none⟩, ⟨c, now⟩) := by
          unfold readCounters
          rw [hinit]
        rw [hread]
        refine ⟨⟨hfresh.trans hs.used, ?_⟩, iff_of_true nofun hnot⟩
        simp [hnone]
      · obtain ⟨hsettled, hspans⟩ := readCounters_fresh kind hpdh hinit
        exact ⟨hsettled, iff_of_true hspans hnot⟩

/-! ## Collectors -/

section Collector

variable {σ ι Sample : Type}

/-- What a collector returns was read over a window. -/
def SampleSpans (rates : Sample → Rates κ) (o : Except String Sample) : Prop :=
  ∀ sample, o = .ok sample → (rates sample).Spans

/-- Of a collector that reads its counters so, all samples span a window if and only if no read
builds counters anew that it goes on to collect. -/
theorem forall_spans {kind : CounterKind κ} {step : σ → ι → Except String Sample × σ}
    {clocked : σ → Clocked κ} {calls : ι → Surroundings} {rates : Sample → Rates κ}
    (hstate : ∀ s i, clocked (step s i).2 = (readCounters kind (clocked s) (calls i)).2)
    (hrates : ∀ s i, (step s i).1.map rates = (readCounters kind (clocked s) (calls i)).1.rates)
    {start : σ} (hstart : Settled (clocked start)) (inputs : List ι) :
    (∀ o ∈ responses step start inputs, SampleSpans rates o) ↔
      ∀ before i after, inputs = before ++ i :: after →
        ¬ Overbuilds kind (clocked (stateAfter step start before)) (calls i) := by
  rw [forall_responses]
  have hsettled : ∀ before, Settled (clocked (stateAfter step start before)) :=
    @invariant _ _ _ step (fun s => Settled (clocked s))
      (fun s i hs => hstate s i ▸ (readCounters_spec kind (calls i) hs).1) start hstart
  have hspans : ∀ s i, SampleSpans rates (step s i).1 ↔
      (readCounters kind (clocked s) (calls i)).1.Spans := by
    intro s i
    unfold SampleSpans Found.Spans
    rw [← hrates]
    cases (step s i).1 with
    | error e => exact iff_of_true nofun nofun
    | ok sample =>
        constructor
        · rintro h r hr
          obtain rfl := Except.ok.inj hr
          exact h sample rfl
        · rintro h x hx
          obtain rfl := Except.ok.inj hx
          exact h _ rfl
  refine forall_congr' fun before => forall_congr' fun i => forall_congr' fun after => ?_
  rw [hspans, (readCounters_spec kind (calls i) (hsettled before)).2]

end Collector

end Machine

end PowerForensics.Collectors
