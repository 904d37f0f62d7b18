import Mathlib.Data.UInt
import PowerForensics.Agent.TimeoutEpisodes

/-! # The bound of a recording

A recording with a limit ends with the sample of the bounding collector that reaches it. The primary
collector bounds the session until the loop takes it for silent, and the loop does so if no sample
of it has been recorded. Samples that were dropped in a pause are not recorded, so a collector that
was heard only in a pause is taken for silent too.
-/

namespace PowerForensics.Monitor

open Runs

/-! ## The bounding collector of a trace -/

/-- A collector, and how many of its samples were recorded since it bounds the session. -/
structure Bound where
  collector : String
  count : Nat
  deriving DecidableEq

def Bound.see (b : Bound) : Occurrence → Bound
  | .event _ (.primaryFallback _ new _) => ⟨new, 0⟩
  | .recorded c => if c = b.collector then ⟨b.collector, b.count + 1⟩ else b
  | _ => b

def boundOf (cfg : Config) (seen : List Occurrence) : Bound := seen.foldl Bound.see ⟨cfg.primary, 0⟩

def isFallback : Occurrence → Bool
  | .event _ (.primaryFallback ..) => true
  | _ => false

/-- The primary collector is replaced only while nothing of it has arrived. -/
def OnlySilent (cfg : Config) (seen : List Occurrence) : Prop :=
  ∀ before stamp old new grace after,
    seen = before ++ Occurrence.event stamp (.primaryFallback old new grace) :: after →
      Occurrence.arrived cfg.primary ∉ before

/-- The recording is the one that was asked for. -/
structure AsAsked (cfg : Config) (limit : UInt64) (st : WriterState) : Prop where
  within : (boundOf cfg st.trace).count ≤ limit.toNat
  exactly : st.ended = some .limitReached ↔ (boundOf cfg st.trace).count = limit.toNat
  once : st.trace.countP isFallback ≤ 1
  silent : OnlySilent cfg st.trace

/-- The next pass takes the primary collector for silent, of which a message was dropped in a
pause. -/
def WriterState.Overlooks (cfg : Config) (st : WriterState) (pass : Pass) : Prop :=
  pass.interrupted = false ∧ pass.stopRequested = false ∧
    ∃ msg, pass.received = .message msg false ∧ st.fallsBack cfg msg = true ∧
      Occurrence.dropped cfg.primary ∈ st.trace

/-! ## Occurrences that the bound does not see -/

def quiet : Occurrence → Bool
  | .event _ (.primaryFallback ..) => false
  | .recorded _ => false
  | _ => true

theorem of_quiet {o : Occurrence} (ho : quiet o = true) :
    isFallback o = false ∧ ∀ b : Bound, b.see o = b := by
  match o with
  | .event _ (.collectorTimeout ..) => exact ⟨rfl, fun _ => rfl⟩
  | .event _ (.collectorRecovered _) => exact ⟨rfl, fun _ => rfl⟩
  | .event _ (.primaryFallback ..) => cases ho
  | .arrived _ => exact ⟨rfl, fun _ => rfl⟩
  | .dropped _ => exact ⟨rfl, fun _ => rfl⟩
  | .recorded _ => cases ho

theorem boundOf_concat (cfg : Config) (seen : List Occurrence) (o : Occurrence) :
    boundOf cfg (seen ++ [o]) = (boundOf cfg seen).see o := by
  rw [boundOf, List.foldl_append]
  rfl

/-- Where an occurrence stands in a trace with one more at the end. -/
theorem concat_eq_iff {seen before after : List Occurrence} {o x : Occurrence} :
    seen ++ [o] = before ++ x :: after ↔
      (seen = before ∧ o = x ∧ after = []) ∨
        ∃ rest, after = rest ++ [o] ∧ seen = before ++ x :: rest := by
  constructor
  · intro heq
    rcases List.eq_nil_or_concat after with rfl | ⟨rest, last, rfl⟩
    · obtain ⟨rfl, hlast⟩ := List.append_inj' heq rfl
      exact Or.inl ⟨rfl, List.cons.inj hlast |>.1, rfl⟩
    · rw [List.concat_eq_append, ← List.cons_append, ← List.append_assoc] at heq
      obtain ⟨rfl, hlast⟩ := List.append_inj' heq rfl
      obtain ⟨rfl, -⟩ := List.cons.inj hlast
      exact Or.inr ⟨rest, List.concat_eq_append, rfl⟩
  · rintro (⟨rfl, rfl, rfl⟩ | ⟨rest, rfl, rfl⟩)
    · rfl
    · simp

theorem onlySilent_concat {cfg : Config} {seen : List Occurrence} {o : Occurrence}
    (ho : isFallback o = false) : OnlySilent cfg (seen ++ [o]) ↔ OnlySilent cfg seen := by
  constructor
  · intro h before stamp old new grace after hsplit
    exact h before stamp old new grace (after ++ [o]) (by simp [hsplit])
  · intro h before stamp old new grace after hsplit
    rcases concat_eq_iff.mp hsplit with ⟨-, rfl, -⟩ | ⟨rest, -, hrest⟩
    · cases ho
    · exact h before stamp old new grace rest hrest

/-- A replacement is right if nothing of the primary collector has arrived by then. -/
theorem onlySilent_fallback {cfg : Config} {seen : List Occurrence} {stamp : ClockStamp}
    {old new : String} {grace : UInt64} :
    OnlySilent cfg (seen ++ [.event stamp (.primaryFallback old new grace)]) ↔
      OnlySilent cfg seen ∧ Occurrence.arrived cfg.primary ∉ seen := by
  constructor
  · intro h
    refine ⟨?_, h seen stamp old new grace [] rfl⟩
    intro before stamp' old' new' grace' after hsplit
    refine h before stamp' old' new' grace'
      (after ++ [Occurrence.event stamp (.primaryFallback old new grace)]) ?_
    rw [hsplit, List.append_assoc, List.cons_append]
  · rintro ⟨h, hnone⟩ before stamp' old' new' grace' after hsplit
    rcases concat_eq_iff.mp hsplit with ⟨rfl, -, -⟩ | ⟨rest, -, hrest⟩
    · exact hnone
    · exact h before stamp' old' new' grace' rest hrest

/-! ## Parts of a pass that only write to the trace -/

/-- The state moves by occurrences that the bound does not see. -/
structure Writes (st : WriterState) (more : List Occurrence) (next : WriterState) : Prop where
  trace : next.trace = st.trace ++ more
  quiet : ∀ o ∈ more, quiet o = true
  tickCollector : next.tickCollector = st.tickCollector
  tick : next.tick = st.tick
  primaryFallbackDone : next.primaryFallbackDone = st.primaryFallbackDone
  ended : next.ended = st.ended

namespace Writes

variable {cfg : Config} {st middle next : WriterState} {more later : List Occurrence}

theorem nothing (st : WriterState) : Writes st [] st :=
  ⟨(List.append_nil _).symm, by simp, rfl, rfl, rfl, rfl⟩

theorem one (st : WriterState) {o : Occurrence} (ho : Monitor.quiet o = true) :
    Writes st [o] (st.log o) :=
  ⟨rfl, by simpa using ho, rfl, rfl, rfl, rfl⟩

theorem append (h : Writes st more middle) (h' : Writes middle later next) :
    Writes st (more ++ later) next where
  trace := by rw [h'.trace, h.trace, List.append_assoc]
  quiet o ho := (List.mem_append.mp ho).elim (h.quiet o) (h'.quiet o)
  tickCollector := h'.tickCollector.trans h.tickCollector
  tick := h'.tick.trans h.tick
  primaryFallbackDone := h'.primaryFallbackDone.trans h.primaryFallbackDone
  ended := h'.ended.trans h.ended

theorem fallsBack (h : Writes st more next) (msg : Message) :
    next.fallsBack cfg msg = st.fallsBack cfg msg := by
  unfold WriterState.fallsBack
  rw [h.tick, h.primaryFallbackDone, h.tickCollector]

theorem boundOf (h : Writes st more next) :
    Monitor.boundOf cfg next.trace = Monitor.boundOf cfg st.trace := by
  have hsame : ∀ later : List Occurrence, (∀ o ∈ later, Monitor.quiet o = true) →
      ∀ b : Bound, later.foldl Bound.see b = b := by
    intro later hlater
    induction later with
    | nil => exact fun _ => rfl
    | cons o later ih =>
        intro b
        rw [List.foldl_cons, (of_quiet (hlater o List.mem_cons_self)).2 b]
        exact ih (fun o ho => hlater o (List.mem_cons_of_mem _ ho)) b
  rw [Monitor.boundOf, h.trace, List.foldl_append, hsame more h.quiet]
  rfl

theorem countP (h : Writes st more next) :
    next.trace.countP isFallback = st.trace.countP isFallback := by
  have hnone : more.countP isFallback = 0 := by
    rw [List.countP_eq_zero]
    intro o ho
    rw [(of_quiet (h.quiet o ho)).1]
    exact Bool.false_ne_true
  rw [h.trace, List.countP_append, hnone, Nat.add_zero]

theorem onlySilent (h : Writes st more next) :
    OnlySilent cfg next.trace ↔ OnlySilent cfg st.trace := by
  rw [h.trace]
  have hquiet := h.quiet
  clear h
  induction more using List.reverseRecOn with
  | nil => rw [List.append_nil]
  | append_singleton more o ih =>
      rw [← List.append_assoc, onlySilent_concat (of_quiet (hquiet o (by simp))).1]
      exact ih fun o ho => hquiet o (List.mem_append_left _ ho)

/-- Polling writes timeouts only. -/
theorem pollCollectorTimeouts (cfg : Config) (now : ClockStamp) (st : WriterState) :
    ∃ more, Writes st more (st.pollCollectorTimeouts cfg now) ∧ ∀ o ∈ more, isTimeout o = true := by
  unfold WriterState.pollCollectorTimeouts
  induction cfg.active generalizing st with
  | nil => exact ⟨[], .nothing st, by simp⟩
  | cons name active ih =>
      have hpoll : ∃ more, Writes st more (st.pollCollector cfg now name) ∧
          ∀ o ∈ more, isTimeout o = true := by
        unfold WriterState.pollCollector
        split
        · exact ⟨[], .nothing st, by simp⟩
        · dsimp only
          split
          · exact ⟨[_], ⟨rfl, by simp [Monitor.quiet], rfl, rfl, rfl, rfl⟩, by simp [isTimeout]⟩
          · exact ⟨[], ⟨(List.append_nil _).symm, by simp, rfl, rfl, rfl, rfl⟩, by simp⟩
      obtain ⟨first, hfirst, htimeout⟩ := hpoll
      obtain ⟨rest, hrest, htimeouts⟩ := ih (st.pollCollector cfg now name)
      exact ⟨first ++ rest, hfirst.append hrest,
        fun o ho => (List.mem_append.mp ho).elim (htimeout o) (htimeouts o)⟩

/-- An arrival is written, and a recovery perhaps. -/
theorem noteArrival (st : WriterState) (msg : Message) :
    ∃ more, Writes st (.arrived msg.collector :: more) (st.noteArrival msg) ∧
      ∀ o ∈ more, o = .event msg.stamp (.collectorRecovered msg.collector) := by
  unfold WriterState.noteArrival
  dsimp only
  split
  · refine ⟨[.event msg.stamp (.collectorRecovered msg.collector)],
      ⟨?_, by simp [Monitor.quiet], rfl, rfl, rfl, rfl⟩, by simp⟩
    exact List.append_assoc ..
  · exact ⟨[], ⟨rfl, by simp [Monitor.quiet], rfl, rfl, rfl, rfl⟩, by simp⟩

end Writes


/-! ## What the bound keeps -/

/-- The state and its trace agree on the bound, and it is not yet reached unless the loop ended. -/
structure Bounded (cfg : Config) (limit : UInt64) (st : WriterState) : Prop where
  bound : boundOf cfg st.trace = ⟨st.tickCollector, st.tick.toNat⟩
  within : st.tick.toNat ≤ limit.toNat
  ended : st.ended = some .limitReached ↔ st.tick.toNat = limit.toNat
  fallbacks : st.trace.countP isFallback = if st.primaryFallbackDone then 1 else 0
  primary : st.primaryFallbackDone = false → st.tickCollector = cfg.primary

/-- Before its first sample, the primary collector was heard if it was dropped. -/
def Heard (cfg : Config) (st : WriterState) : Prop :=
  st.ended = none → st.tick = 0 → st.primaryFallbackDone = false →
    (Occurrence.arrived cfg.primary ∈ st.trace ↔ Occurrence.dropped cfg.primary ∈ st.trace)

namespace Bounded

variable {cfg : Config} {limit : { n : UInt64 // 0 < n }} {st next : WriterState}
  {more : List Occurrence}

theorem start (cfg : Config) (limit : { n : UInt64 // 0 < n }) :
    Bounded cfg limit.val (.start cfg) where
  bound := rfl
  within := Nat.zero_le _
  ended := by
    have hgoes : (WriterState.start cfg).ended ≠ some .limitReached := by simp [WriterState.start]
    exact iff_of_false hgoes (UInt64.lt_iff_toNat_lt.mp limit.property).ne
  fallbacks := rfl
  primary _ := rfl

theorem writes (h : Bounded cfg limit.val st) (hw : Writes st more next) :
    Bounded cfg limit.val next where
  bound := by rw [hw.boundOf, h.bound, hw.tickCollector, hw.tick]
  within := by rw [hw.tick]; exact h.within
  ended := by rw [hw.ended, hw.tick]; exact h.ended
  fallbacks := by rw [hw.countP, h.fallbacks, hw.primaryFallbackDone]
  primary := by rw [hw.primaryFallbackDone, hw.tickCollector]; exact h.primary

/-- A loop that goes on has not reached the limit. -/
theorem tick_lt (h : Bounded cfg limit.val st) (hgoes : st.ended = none) :
    st.tick.toNat < limit.val.toNat := by
  refine lt_of_le_of_ne h.within fun heq => ?_
  have hended := h.ended.mpr heq
  rw [hgoes] at hended
  cases hended

theorem finish (h : Bounded cfg limit.val st) (hgoes : st.ended = none) {e : Ending}
    (he : e ≠ .limitReached) : Bounded cfg limit.val (st.finish e) where
  bound := h.bound
  within := h.within
  ended := iff_of_false (fun hended => he (Option.some.inj hended)) (h.tick_lt hgoes).ne
  fallbacks := h.fallbacks
  primary := h.primary

theorem fallBack (h : Bounded cfg limit.val st) (msg : Message) :
    Bounded cfg limit.val (st.fallBack cfg msg) := by
  unfold WriterState.fallBack
  split
  next hfalls =>
    simp only [WriterState.fallsBack, Bool.and_eq_true, decide_eq_true_eq,
      Bool.not_eq_true'] at hfalls
    obtain ⟨⟨⟨⟨-, hzero⟩, hfirst⟩, -⟩, -⟩ := hfalls
    constructor
    · change boundOf cfg (st.trace ++ [_]) = _
      rw [boundOf_concat, hzero]
      rfl
    · exact h.within
    · exact h.ended
    · change (st.trace ++ [_]).countP isFallback = 1
      rw [List.countP_append, h.fallbacks, hfirst]
      rfl
    · exact fun hnot => Bool.noConfusion hnot
  next => exact h

/-- A recorded sample counts if it is of the bounding collector, and ends the loop at the limit. -/
theorem sample (h : Bounded cfg limit.val st) (hlimit : cfg.samples = some limit)
    (hgoes : st.ended = none) (c : String) :
    Bounded cfg limit.val ((st.log (.recorded c)).countTick cfg c) := by
  have hlt := h.tick_lt hgoes
  have hnext : (st.tick + 1).toNat = st.tick.toNat + 1 := by
    have := limit.val.toNat_lt
    rw [UInt64.toNat_add, UInt64.toNat_one]
    omega
  have hfallbacks : (st.trace ++ [Occurrence.recorded c]).countP isFallback =
      if st.primaryFallbackDone then 1 else 0 := by
    rw [List.countP_append, h.fallbacks]
    rfl
  have hcounted : boundOf cfg (st.trace ++ [.recorded c]) =
      if c = st.tickCollector then ⟨st.tickCollector, st.tick.toNat + 1⟩
      else ⟨st.tickCollector, st.tick.toNat⟩ := by
    rw [boundOf_concat, h.bound]
    rfl
  -- the counter and the limit are 64-bit numbers, and the counter is below the limit
  have hspec : (st.log (.recorded c)).countTick cfg c =
      if c = st.tickCollector then
        if limit.val ≤ st.tick + 1 then
          { st.log (.recorded c) with tick := st.tick + 1, ended := some .limitReached }
        else { st.log (.recorded c) with tick := st.tick + 1 }
      else st.log (.recorded c) := by
    rw [WriterState.countTick, hlimit]
    rfl
  rw [hspec]
  split
  next hc =>
    rw [if_pos hc, ← hnext] at hcounted
    split
    next hreached =>
      have heq : (st.tick + 1).toNat = limit.val.toNat := by
        rw [UInt64.le_iff_toNat_le] at hreached
        omega
      exact ⟨hcounted, heq.le, iff_of_true rfl heq, hfallbacks, h.primary⟩
    next hreached =>
      rw [UInt64.le_iff_toNat_le, Nat.not_le] at hreached
      have hne : (st.tick + 1).toNat ≠ limit.val.toNat := hreached.ne
      have hended : st.ended ≠ some .limitReached := by simp [hgoes]
      exact ⟨hcounted, hreached.le, iff_of_false hended hne, hfallbacks, h.primary⟩
  next hc =>
    rw [if_neg hc] at hcounted
    exact ⟨hcounted, h.within, h.ended, hfallbacks, h.primary⟩

end Bounded


/-! ## Passes -/

theorem Heard.writes {cfg : Config} {st : WriterState} {more : List Occurrence}
    {next : WriterState} (h : Heard cfg st) (hw : Writes st more next)
    (hmore : Occurrence.arrived cfg.primary ∈ more ↔ Occurrence.dropped cfg.primary ∈ more) :
    Heard cfg next := by
  intro hgoes hzero hfirst
  rw [hw.trace, List.mem_append, List.mem_append, hmore]
  exact or_congr_left (h (hw.ended ▸ hgoes) (hw.tick ▸ hzero) (hw.primaryFallbackDone ▸ hfirst))

namespace WriterState

variable {cfg : Config} {limit : { n : UInt64 // 0 < n }} {st : WriterState}

/-- What the loop does before the pause matters: it writes the arrival, and drops nothing. -/
theorem noteArrival_writes (cfg : Config) (now : ClockStamp) (st : WriterState) (msg : Message) :
    ∃ more, Writes st more ((st.pollCollectorTimeouts cfg now).noteArrival msg) ∧
      (∀ c, .arrived c ∈ more ↔ c = msg.collector) ∧ ∀ c, .dropped c ∉ more := by
  obtain ⟨polls, hpolls, htimeouts⟩ := Writes.pollCollectorTimeouts cfg now st
  obtain ⟨more, hnoted, hrecovered⟩ := Writes.noteArrival (st.pollCollectorTimeouts cfg now) msg
  refine ⟨_, hpolls.append hnoted, ?_, ?_⟩
  · intro c
    rw [List.mem_append, List.mem_cons, Occurrence.arrived.injEq]
    constructor
    · rintro (hpoll | rfl | hmore)
      · cases htimeouts _ hpoll
      · rfl
      · cases hrecovered _ hmore
    · exact fun hc => Or.inr (Or.inl hc)
  · intro c hmem
    rcases List.mem_append.mp hmem with hpoll | hnote
    · cases htimeouts _ hpoll
    · rcases List.mem_cons.mp hnote with heq | hmore
      · cases heq
      · cases hrecovered _ hmore

theorem fallBack_ended (msg : Message) : (st.fallBack cfg msg).ended = st.ended := by
  unfold fallBack
  split <;> rfl

theorem fallBack_of_not (msg : Message) (hnot : st.fallsBack cfg msg = false) :
    st.fallBack cfg msg = st := by
  rw [fallBack, hnot]
  rfl

theorem onlySilent_fallBack (msg : Message) :
    OnlySilent cfg (st.fallBack cfg msg).trace ↔
      OnlySilent cfg st.trace ∧
        (st.fallsBack cfg msg = true → Occurrence.arrived cfg.primary ∉ st.trace) := by
  cases hfalls : st.fallsBack cfg msg with
  | false =>
      rw [fallBack_of_not msg hfalls]
      simp
  | true =>
      rw [fallBack, hfalls, if_pos rfl, forall_prop_of_true rfl]
      exact onlySilent_fallback

theorem countTick_keeps (c : String) :
    (st.countTick cfg c).trace = st.trace ∧
      (st.countTick cfg c).primaryFallbackDone = st.primaryFallbackDone ∧
      (st.countTick cfg c).tick = if c = st.tickCollector then st.tick + 1 else st.tick := by
  unfold countTick
  split
  · dsimp only
    split
    · split <;> exact ⟨rfl, rfl, rfl⟩
    · exact ⟨rfl, rfl, rfl⟩
  · exact ⟨rfl, rfl, rfl⟩

/-- The cadence of the collector only moves what is expected next. -/
theorem record_eq (cfg : Config) (st : WriterState) (msg : Message) :
    ∃ s, Writes st [] s ∧ st.record cfg msg =
      if msg.written then
        ((s.fallBack cfg msg).log (.recorded msg.collector)).countTick cfg msg.collector
      else (s.fallBack cfg msg).finish .writeFailed := by
  refine ⟨if (cfg.schedIv msg.collector).isSome then st.expect msg else st, ?_, rfl⟩
  split
  · exact ⟨(List.append_nil _).symm, by simp, rfl, rfl, rfl, rfl⟩
  · exact .nothing st

theorem onlySilent_record (msg : Message) :
    OnlySilent cfg (st.record cfg msg).trace ↔
      OnlySilent cfg st.trace ∧
        (st.fallsBack cfg msg = true → Occurrence.arrived cfg.primary ∉ st.trace) := by
  obtain ⟨s, hs, heq⟩ := record_eq cfg st msg
  have hsame : OnlySilent cfg (st.record cfg msg).trace ↔
      OnlySilent cfg (s.fallBack cfg msg).trace := by
    rw [heq]
    split
    · rw [(countTick_keeps _).1]
      exact onlySilent_concat rfl
    · exact Iff.rfl
  rw [hsame, onlySilent_fallBack, hs.onlySilent, hs.fallsBack, hs.trace, List.append_nil]

theorem bounded_record (h : Bounded cfg limit.val st) (hlimit : cfg.samples = some limit)
    (hgoes : st.ended = none) (msg : Message) : Bounded cfg limit.val (st.record cfg msg) := by
  obtain ⟨s, hs, heq⟩ := record_eq cfg st msg
  have hfallen := (h.writes hs).fallBack msg
  have hstill : (s.fallBack cfg msg).ended = none := by rw [fallBack_ended, hs.ended, hgoes]
  rw [heq]
  split
  · exact hfallen.sample hlimit hstill msg.collector
  · exact hfallen.finish hstill (by decide)

/-- While the primary collector has no sample, the messages recorded are of others. -/
theorem heard_record (h : Bounded cfg limit.val st) (hgoes : st.ended = none) (msg : Message)
    (hheard : st.tick = 0 → st.primaryFallbackDone = false → msg.collector ≠ cfg.primary →
      (Occurrence.arrived cfg.primary ∈ st.trace ↔ Occurrence.dropped cfg.primary ∈ st.trace)) :
    Heard cfg (st.record cfg msg) := by
  obtain ⟨s, hs, heq⟩ := record_eq cfg st msg
  rw [heq]
  split
  · intro _ hzero hfirst
    obtain ⟨htrace, hdone, htick⟩ :=
      @countTick_keeps cfg ((s.fallBack cfg msg).log (.recorded msg.collector)) msg.collector
    rw [htick] at hzero
    rw [hdone] at hfirst
    rw [htrace]
    cases hfalls : s.fallsBack cfg msg with
    | true =>
        -- the collector that replaces the primary one bounds from now on
        rw [fallBack, hfalls, if_pos rfl] at hfirst
        cases hfirst
    | false =>
        rw [fallBack_of_not msg hfalls] at hzero hfirst ⊢
        have hprimary : s.tickCollector = cfg.primary := (h.writes hs).primary hfirst
        by_cases hc : msg.collector = cfg.primary
        · -- its own message would have counted
          have hcounts : s.tick + 1 = 0 := by
            rw [← hzero, if_pos]
            · rfl
            · exact hc.trans hprimary.symm
          have hlt := (h.writes hs).tick_lt (hs.ended.trans hgoes)
          have hzero' := congrArg UInt64.toNat hcounts
          have := limit.val.toNat_lt
          rw [UInt64.toNat_add, UInt64.toNat_one, UInt64.toNat_zero] at hzero'
          omega
        · have hfew : st.tick = 0 := by
            rw [← hs.tick, ← hzero, if_neg]
            · rfl
            · exact fun heq => hc (heq.trans hprimary)
          have hheard' := hheard hfew (hs.primaryFallbackDone ▸ hfirst) hc
          rw [← List.append_nil st.trace, ← hs.trace] at hheard'
          simpa [WriterState.log] using hheard'
  · intro hstill
    cases hstill

/-- What a pass takes from the channel. -/
theorem bounded_receive (h : Bounded cfg limit.val st) (hheard : Heard cfg st)
    (hlimit : cfg.samples = some limit) (hgoes : st.ended = none) (now : ClockStamp)
    (r : Received) :
    Bounded cfg limit.val ((st.pollCollectorTimeouts cfg now).receive cfg r) ∧
      Heard cfg ((st.pollCollectorTimeouts cfg now).receive cfg r) := by
  obtain ⟨polls, hpolls, htimeouts⟩ := Writes.pollCollectorTimeouts cfg now st
  have hnone : ∀ o, isTimeout o = false → o ∉ polls := by
    intro o ho hmem
    rw [htimeouts o hmem] at ho
    cases ho
  cases r with
  | timeout =>
      exact ⟨h.writes hpolls, hheard.writes hpolls (iff_of_false (hnone _ rfl) (hnone _ rfl))⟩
  | disconnected =>
      refine ⟨(h.writes hpolls).finish (hpolls.ended.trans hgoes) (by decide), ?_⟩
      intro hended
      cases hended
  | message msg paused =>
      obtain ⟨more, hnoted, harrived, hdropped⟩ := noteArrival_writes cfg now st msg
      cases paused with
      | true =>
          -- the message is written as an arrival and as dropped, which both sides say
          have hexpect : Writes ((st.pollCollectorTimeouts cfg now).noteArrival msg) []
              (((st.pollCollectorTimeouts cfg now).noteArrival msg).expect msg) :=
            ⟨(List.append_nil _).symm, by simp, rfl, rfl, rfl, rfl⟩
          have hdrop := (hnoted.append hexpect).append
            (Writes.one _ (show quiet (.dropped msg.collector) = true from rfl))
          refine ⟨h.writes hdrop, hheard.writes hdrop ?_⟩
          simp [harrived, hdropped]
      | false =>
          have hstill := hnoted.ended.trans hgoes
          refine ⟨bounded_record (h.writes hnoted) hlimit hstill msg,
            heard_record (h.writes hnoted) hstill msg ?_⟩
          intro hzero hfirst hother
          rw [hnoted.tick] at hzero
          rw [hnoted.primaryFallbackDone] at hfirst
          rw [hnoted.trace, List.mem_append, List.mem_append, harrived,
            or_iff_left (Ne.symm hother), or_iff_left (hdropped _)]
          exact hheard hgoes hzero hfirst

/-- Where the primary collector is taken for silent, it was heard if it was dropped. -/
theorem arrived_iff_dropped (h : Bounded cfg limit.val st) (hheard : Heard cfg st)
    (hgoes : st.ended = none) {msg : Message} (hfalls : st.fallsBack cfg msg = true) :
    msg.collector ≠ cfg.primary ∧
      (Occurrence.arrived cfg.primary ∈ st.trace ↔ Occurrence.dropped cfg.primary ∈ st.trace) := by
  simp only [fallsBack, Bool.and_eq_true, decide_eq_true_eq, Bool.not_eq_true'] at hfalls
  obtain ⟨⟨⟨⟨-, hzero⟩, hfirst⟩, hother⟩, -⟩ := hfalls
  exact ⟨h.primary hfirst ▸ hother, hheard hgoes hzero hfirst⟩

theorem onlySilent_receive (h : Bounded cfg limit.val st) (hheard : Heard cfg st)
    (hgoes : st.ended = none) (now : ClockStamp) (r : Received) :
    OnlySilent cfg ((st.pollCollectorTimeouts cfg now).receive cfg r).trace ↔
      OnlySilent cfg st.trace ∧ ¬ ∃ msg, r = .message msg false ∧ st.fallsBack cfg msg = true ∧
        Occurrence.dropped cfg.primary ∈ st.trace := by
  obtain ⟨polls, hpolls, -⟩ := Writes.pollCollectorTimeouts cfg now st
  have hcalm : (¬ ∃ msg, r = .message msg false) →
      ¬ ∃ msg, r = .message msg false ∧ st.fallsBack cfg msg = true ∧
        Occurrence.dropped cfg.primary ∈ st.trace :=
    fun hnone ⟨msg, hr, _⟩ => hnone ⟨msg, hr⟩
  cases r with
  | timeout =>
      rw [and_iff_left (hcalm (by simp))]
      exact hpolls.onlySilent
  | disconnected =>
      rw [and_iff_left (hcalm (by simp))]
      exact hpolls.onlySilent
  | message msg paused =>
      obtain ⟨more, hnoted, harrived, -⟩ := noteArrival_writes cfg now st msg
      cases paused with
      | true =>
          rw [and_iff_left (hcalm (by simp)), ← hnoted.onlySilent]
          exact onlySilent_concat rfl
      | false =>
          refine (onlySilent_record msg).trans (and_congr hnoted.onlySilent ?_)
          rw [hnoted.fallsBack, hnoted.trace, List.mem_append, harrived]
          constructor
          · rintro hsilent ⟨_, ⟨⟩, hfalls, hdropped⟩
            have hheard' := (arrived_iff_dropped h hheard hgoes hfalls).2.mpr hdropped
            exact hsilent hfalls (Or.inl hheard')
          · intro hnone hfalls hmem
            obtain ⟨hother, hiff⟩ := arrived_iff_dropped h hheard hgoes hfalls
            rcases hmem with hbefore | heq
            · exact hnone ⟨msg, rfl, hfalls, hiff.mp hbefore⟩
            · exact hother heq.symm

/-- A pass keeps the bound, and its replacement is right unless it overlooks a message. -/
theorem step_bounded {pass : Pass} {next : WriterState}
    (h : Bounded cfg limit.val st ∧ Heard cfg st) (hlimit : cfg.samples = some limit)
    (hstep : st.step cfg pass = some next) :
    (Bounded cfg limit.val next ∧ Heard cfg next) ∧
      (OnlySilent cfg next.trace ↔ OnlySilent cfg st.trace ∧ ¬ st.Overlooks cfg pass) := by
  obtain ⟨hbounded, hheard⟩ := h
  have hfinished : ∀ (s : WriterState) (e : Ending), Heard cfg (s.finish e) := by
    intro s e hended
    cases hended
  unfold step at hstep
  by_cases hended : st.ended.isSome
  · rw [if_pos hended] at hstep
    cases hstep
  have hgoes : st.ended = none := Option.not_isSome_iff_eq_none.mp hended
  rw [if_neg hended] at hstep
  dsimp only at hstep
  obtain ⟨polls, hpolls, -⟩ := Writes.pollCollectorTimeouts cfg pass.now st
  have hpolled := hbounded.writes hpolls
  have hstill := hpolls.ended.trans hgoes
  by_cases hinterrupted : pass.interrupted = true
  · rw [if_pos hinterrupted] at hstep
    obtain rfl := Option.some.inj hstep
    refine ⟨⟨hpolled.finish hstill (by decide), hfinished _ _⟩, ?_⟩
    rw [and_iff_left (fun ⟨hnot, _⟩ => by rw [hinterrupted] at hnot; cases hnot)]
    exact hpolls.onlySilent
  rw [if_neg hinterrupted] at hstep
  by_cases hstop : pass.stopRequested = true
  · rw [if_pos hstop] at hstep
    obtain rfl := Option.some.inj hstep
    refine ⟨⟨hpolled.finish hstill (by decide), hfinished _ _⟩, ?_⟩
    rw [and_iff_left (fun ⟨_, hnot, _⟩ => by rw [hstop] at hnot; cases hnot)]
    exact hpolls.onlySilent
  rw [if_neg hstop] at hstep
  obtain ⟨hreceived, hheard'⟩ := bounded_receive hbounded hheard hlimit hgoes pass.now pass.received
  have hsilent := onlySilent_receive hbounded hheard hgoes pass.now pass.received
  -- neither flag is set, so only the message decides what is overlooked
  rw [Bool.not_eq_true] at hinterrupted hstop
  have hoverlooks : st.Overlooks cfg pass ↔
      ∃ msg, pass.received = .message msg false ∧ st.fallsBack cfg msg = true ∧
        Occurrence.dropped cfg.primary ∈ st.trace := by
    rw [Overlooks, and_iff_right hinterrupted, and_iff_right hstop]
  rw [hoverlooks]
  split at hstep
  next hfile =>
    obtain rfl := Option.some.inj hstep
    rw [Bool.and_eq_true, Option.isNone_iff_eq_none] at hfile
    exact ⟨⟨hreceived.finish hfile.1 (by decide), hfinished _ _⟩, hsilent⟩
  next =>
    obtain rfl := Option.some.inj hstep
    exact ⟨⟨hreceived, hheard'⟩, hsilent⟩

end WriterState

/-- In every run of the loop with a limit, the recording is the one that was asked for exactly if no
pass takes the primary collector for silent after a message of it was dropped in a pause. -/
theorem sample_bound_iff {cfg : Config} {limit : { n : UInt64 // 0 < n }}
    (hlimit : cfg.samples = some limit) {passes : List Pass} {st : WriterState}
    (hrun : run (WriterState.step cfg) (.start cfg) passes = some st) :
    AsAsked cfg limit.val st ↔
      Meets (WriterState.step cfg) (fun s pass => ¬ s.Overlooks cfg pass) (.start cfg) passes := by
  have hstart : Bounded cfg limit.val (.start cfg) ∧ Heard cfg (.start cfg) :=
    ⟨.start cfg limit, fun _ _ _ => by simp [WriterState.start]⟩
  have hbounded : Bounded cfg limit.val st ∧ Heard cfg st :=
    invariant (fun s a t hs hstep => (WriterState.step_bounded hs hlimit hstep).1) hstart hrun
  have hsilent : OnlySilent cfg st.trace ↔ OnlySilent cfg (WriterState.start cfg).trace ∧
      Meets (WriterState.step cfg) (fun s pass => ¬ s.Overlooks cfg pass) (.start cfg) passes :=
    good_iff_meets (fun s a t hs hstep => WriterState.step_bounded hs hlimit hstep) hstart hrun
  have hnothing : OnlySilent cfg (WriterState.start cfg).trace := by
    intro before stamp old new grace after hsplit
    cases before <;> cases hsplit
  rw [and_iff_right hnothing] at hsilent
  rw [← hsilent]
  refine ⟨AsAsked.silent, fun h => ?_⟩
  constructor
  · rw [hbounded.1.bound]
    exact hbounded.1.within
  · rw [hbounded.1.bound]
    exact hbounded.1.ended
  · rw [hbounded.1.fallbacks]
    split <;> decide
  · exact h

/-- The battery and the processor, and one sample of the battery. -/
def oneSample : Config where
  active := ["battery", "cpu"]
  active_ne := by decide
  schedIv _ := some 1000
  startMonoMs := 0
  baseInterval := 1000
  samples := some ⟨1, by decide⟩

/-- The battery is heard in a pause, and the processor after it. -/
def heardInPause : List Pass :=
  [⟨⟨0, 1000⟩, false, false, .message ⟨"battery", ⟨0, 1000⟩, true⟩ true, false⟩,
    ⟨⟨0, 40000⟩, false, false, .message ⟨"cpu", ⟨0, 40000⟩, true⟩ false, false⟩]

/-- The pause is over before anything else is heard. -/
def heardAfterPause : List Pass :=
  [⟨⟨0, 1000⟩, false, false, .message ⟨"cpu", ⟨0, 1000⟩, true⟩ true, false⟩,
    ⟨⟨0, 1500⟩, false, false, .message ⟨"battery", ⟨0, 1500⟩, true⟩ false, false⟩]

theorem sample_bound_iff_heardAfterPause :
    ∃ st, run (WriterState.step oneSample) (.start oneSample) heardAfterPause = some st ∧
      (AsAsked oneSample 1 st ↔
        Meets (WriterState.step oneSample) (fun s pass => ¬ s.Overlooks oneSample pass)
          (.start oneSample) heardAfterPause) := by
  have hruns :
      (run (WriterState.step oneSample) (.start oneSample) heardAfterPause).isSome := by
    decide
  obtain ⟨st, hrun⟩ := Option.isSome_iff_exists.mp hruns
  exact ⟨st, hrun, @sample_bound_iff oneSample ⟨1, by decide⟩ rfl heardAfterPause st hrun⟩

/-- The battery was heard, and is replaced. -/
theorem heard_replaced :
    ¬ ∀ cfg (limit : { n : UInt64 // 0 < n }), cfg.samples = some limit → ∀ passes st,
      run (WriterState.step cfg) (.start cfg) passes = some st → AsAsked cfg limit.val st := by
  intro h
  have hruns : (run (WriterState.step oneSample) (.start oneSample) heardInPause).isSome := by
    decide
  obtain ⟨st, hrun⟩ := Option.isSome_iff_exists.mp hruns
  have hsilent := (h oneSample ⟨1, by decide⟩ rfl heardInPause st hrun).silent
  have htrace : (run (WriterState.step oneSample) (.start oneSample) heardInPause).map (·.trace) =
      some ([.arrived "battery", .dropped "battery",
        .event ⟨0, 40000⟩ (.collectorTimeout "battery" 39000 1000),
        .event ⟨0, 40000⟩ (.collectorTimeout "cpu" 40000 1000), .arrived "cpu",
        .event ⟨0, 40000⟩ (.collectorRecovered "cpu")] ++
          .event ⟨0, 40000⟩ (.primaryFallback "battery" "cpu" 30000) :: [.recorded "cpu"]) := by
    decide
  rw [hrun, Option.map_some, Option.some.injEq] at htrace
  exact hsilent _ _ _ _ _ _ htrace (by decide)

end PowerForensics.Monitor
