import PowerForensics.System.Runs
import PowerForensics.Text.Search
import PowerForensics.Text.Utf8

/-! # The poller of the elevated helper

A poll starts the helper and looks at it for a tenth of a second. A helper that is still running
then is kept for the next polls, until it has exited or its time is up; while one is kept, the
polls come in a fast cadence. What a helper printed is stored if it is a snapshot. A result is lost
while recording is paused, and where the session cannot be written; a line that cannot be written
ends the recording.
-/

namespace PowerForensics.ElevatedHelper

open Runs

/-! ## The poller -/

def elevatedPending : String := "helper pending (non-blocking poll)"

/-- What `try_wait` says of a helper. -/
inductive Look where
  /-- It has exited, with this status and this output. -/
  | exited (success : Bool) (status : String) (output : Except String (List UInt8))
  | running
  | failed (e : String)

/-- Times are in milliseconds. -/
structure ElevatedPoller where
  cmd : String
  timeout : Nat
  steadyMs : Nat
  /-- The interval that the scheduler reads, if it reads one. -/
  knob : Option Nat
  /-- The helper that is kept, by its number, and its deadline. -/
  child : Option (Nat × Nat)
  deriving DecidableEq

def ElevatedPoller.new (helper : String) (everyMs : Nat) (knob : Option Nat) : ElevatedPoller where
  cmd := helper
  timeout := 20000
  steadyMs := everyMs
  knob
  child := none

def ElevatedPoller.setKnob (p : ElevatedPoller) (ms : Nat) : ElevatedPoller :=
  { p with knob := p.knob.map fun _ => ms }

def ElevatedPoller.restore (p : ElevatedPoller) : ElevatedPoller := p.setKnob (max p.steadyMs 50)

/-- What happens to a helper. -/
inductive Incident where
  | spawned (id : Nat)
  | exited (id : Nat)
  | killed (id : Nat)
  deriving DecidableEq

/-- How a result gets to the writer loop. -/
inductive Arrival where
  /-- Recording is paused or over. -/
  | dropped
  /-- It is handled, and what the handler writes is written or not. -/
  | handled (written : Bool)
  deriving DecidableEq

/-- What the system gives to one poll and to its result. -/
structure Surroundings where
  spawn : Except String Unit
  /-- The time at which the helper was started. -/
  started : Nat
  /-- The looks at the helper, each with the time after it. -/
  looks : List (Look × Nat)
  arrival : Arrival

def mark : List Char := "\"collector\":\"elevated\"".toList

def holds (key line : List Char) : Bool := (Search.behind key line).isSome

/-- The first line of an output. -/
def firstLine (stdout : List UInt8) : List Char :=
  Lines.trim ((Lines.lines (Utf8.decodeLossy stdout)).head?.getD [])

/-- What an exited helper comes to. -/
def settleOutput (success : Bool) (status : String) (output : Except String (List UInt8)) :
    Except String (List Char) :=
  if !success then
    .error ("helper exited with status " ++ (status ++ " (admin? try elevated shell)"))
  else
    match output with
    | .error e => .error ("helper read failed: " ++ e)
    | .ok stdout =>
        let line := firstLine stdout
        if holds mark line then .ok line
        else if holds "\"error\"".toList line then
          .error ("helper reports: " ++ String.ofList line)
        else .error "helper returned unrecognized output"

/-- The looks of the first poll, until one says more than that the helper is running or the
time for looking is over. -/
def watch (deadlinePoll : Nat) : List (Look × Nat) → Option (Look × Nat)
  | [] => none
  | (.running, now) :: looks =>
      if deadlinePoll ≤ now then some (.running, now) else watch deadlinePoll looks
  | look :: _ => some look

/-- One poll, by the number that a helper it starts would have. There is none if the
surroundings give it less than it asks for. -/
def ElevatedPoller.poll (p : ElevatedPoller) (id : Nat) (env : Surroundings) :
    Option (ElevatedPoller × Except String (List Char) × List Incident) :=
  match p.child with
  | none =>
      match env.spawn with
      | .error e => some (p, .error ("helper spawn failed (" ++ (p.cmd ++ ("): " ++ e))), [])
      | .ok () =>
          (watch (env.started + 100) env.looks).map fun (look, now) =>
            match look with
            | .exited success status output =>
                (p.restore, settleOutput success status output, [.spawned id, .exited id])
            | .failed e =>
                (p.restore, .error ("helper wait failed: " ++ e), [.spawned id, .killed id])
            | .running =>
                ({ p.setKnob 250 with child := some (id, now + p.timeout) },
                  .error elevatedPending, [.spawned id])
  | some (kept, deadline) =>
      env.looks.head?.map fun (look, now) =>
        match look with
        | .exited success status output =>
            ({ p with child := none }.restore, settleOutput success status output, [.exited kept])
        | .failed e =>
            ({ p with child := none }.restore, .error ("helper wait failed: " ++ e),
              [.killed kept])
        | .running =>
            if deadline ≤ now then
              ({ p with child := none }.restore, .error "helper timed out after 20s",
                [.killed kept])
            else (p, .error elevatedPending, [])

/-! ## The recorder -/

/-- The poller and what the recorder has made of its polls. -/
structure State where
  poller : ElevatedPoller
  /-- The polls that tried to start a helper. -/
  attempts : Nat
  /-- The helpers that have neither exited nor been killed. -/
  running : List Nat
  /-- The lines that were stored in the session. -/
  lines : List (List Char)
  /-- The details of the events for failures of the helper. -/
  errors : List String
  /-- The results of which nothing was written. -/
  lost : List (Except String (List Char))
  /-- The writer loop goes on. -/
  recording : Bool

def State.start (p : ElevatedPoller) : State := ⟨p, 0, [], [], [], [], true⟩

def State.incident (running : List Nat) : Incident → List Nat
  | .spawned id => running ++ [id]
  | .exited id | .killed id => running.filter (· ≠ id)

def State.lose (s : State) (res : Except String (List Char)) : State :=
  { s with lost := s.lost ++ [res] }

/-- An event that cannot be written is lost without a word. -/
def State.event (s : State) (written : Bool) (detail : String) : State :=
  if written then { s with errors := s.errors ++ [detail] } else s.lose (.error detail)

/-- The state, and whether the recording goes on. -/
def State.handleElevated (s : State) (written : Bool) (res : Except String (List Char)) :
    State × Bool :=
  match res with
  | .ok line =>
      if !written then (s.lose res, false) else ({ s with lines := s.lines ++ [line] }, true)
  | .error e => if e = elevatedPending then (s, true) else (s.event written e, true)

/-- A result that is dropped is lost, unless it says only that the helper is still running. -/
def State.receive (s : State) (arrival : Arrival) (res : Except String (List Char)) : State :=
  match arrival, s.recording with
  | .handled written, true =>
      let handled := s.handleElevated written res
      { handled.1 with recording := handled.2 }
  | _, _ =>
      match res with
      | .ok _ => s.lose res
      | .error e => if e = elevatedPending then s else s.lose res

/-- A poll and what the recorder makes of it. -/
def step (s : State) (env : Surroundings) : Option State :=
  (s.poller.poll s.attempts env).map fun (poller, res, incidents) =>
    { s with
      poller
      attempts := s.attempts + if s.poller.child.isNone then 1 else 0
      running := incidents.foldl State.incident s.running }.receive env.arrival res

/-! ## What a poll comes to -/

/-- A helper was done with: its snapshot is a line of its own, or its failure is told apart from
one that is still running. -/
def Settled : Except String (List Char) → Prop
  | .ok line => holds mark line = true ∧ '\n' ∉ line
  | .error e => e ≠ elevatedPending

/-- The texts of failures differ from the sentinel in their first letters. -/
theorem ne_pending {front back : String} (hfront : 8 ≤ front.toList.length)
    (hne : front.toList.take 8 ≠ elevatedPending.toList.take 8) :
    front ++ back ≠ elevatedPending := by
  intro heq
  apply hne
  rw [← heq, String.toList_append, List.take_append_of_le_length hfront]

theorem newline_not_mem_firstLine (stdout : List UInt8) : '\n' ∉ firstLine stdout := by
  have hline : '\n' ∉ (Lines.lines (Utf8.decodeLossy stdout)).head?.getD [] := by
    cases hlines : Lines.lines (Utf8.decodeLossy stdout) with
    | nil => exact List.not_mem_nil
    | cons line lines =>
        exact Lines.not_mem_lines (hlines ▸ List.mem_cons_self ..)
  intro hmem
  have hdropped : '\n' ∈ ((Lines.lines (Utf8.decodeLossy stdout)).head?.getD []).dropWhile
      Lines.isWhitespace := (List.rdropWhile_prefix _ _).subset hmem
  exact hline ((List.dropWhile_suffix _).subset hdropped)

theorem settled_settleOutput (success : Bool) (status : String)
    (output : Except String (List UInt8)) : Settled (settleOutput success status output) := by
  unfold settleOutput
  split
  · exact ne_pending (by decide) (by decide)
  · split
    · exact ne_pending (by decide) (by decide)
    · dsimp only
      split
      next hmark => exact ⟨hmark, newline_not_mem_firstLine _⟩
      next =>
        split
        · exact ne_pending (by decide) (by decide)
        · exact (by decide : "helper returned unrecognized output" ≠ elevatedPending)

/-- What a poll can come to: the poller behind it, its result, and what has happened to helpers. -/
inductive Polled (p : ElevatedPoller) (id : Nat) (env : Surroundings) :
    ElevatedPoller → Except String (List Char) → List Incident → Prop
  | refused {res} : p.child = none → Settled res → Polled p id env p res []
  | finished {res incidents} : p.child = none → Settled res →
      (incidents = [.spawned id, .exited id] ∨ incidents = [.spawned id, .killed id]) →
      Polled p id env p.restore res incidents
  | started (deadline : Nat) : p.child = none →
      Polled p id env { p.setKnob 250 with child := some (id, deadline) } (.error elevatedPending)
        [.spawned id]
  | ended {kept deadline res incidents} : p.child = some (kept, deadline) → Settled res →
      (incidents = [.exited kept] ∨ incidents = [.killed kept]) →
      Polled p id env { p with child := none }.restore res incidents
  | waiting {kept deadline look now} : p.child = some (kept, deadline) →
      env.looks.head? = some (look, now) → now < deadline →
      Polled p id env p (.error elevatedPending) []

theorem polled_of_poll {p p' : ElevatedPoller} {id : Nat} {env : Surroundings}
    {res : Except String (List Char)} {incidents : List Incident}
    (hpoll : p.poll id env = some (p', res, incidents)) : Polled p id env p' res incidents := by
  have hwait : ∀ e, Settled (.error ("helper wait failed: " ++ e)) := fun e =>
    ne_pending (by decide) (by decide)
  unfold ElevatedPoller.poll at hpoll
  cases hchild : p.child with
  | none =>
      simp only [hchild] at hpoll
      cases hspawn : env.spawn with
      | error e =>
          simp only [hspawn, Option.some.injEq, Prod.mk.injEq] at hpoll
          obtain ⟨rfl, rfl, rfl⟩ := hpoll
          exact .refused hchild (ne_pending (by decide) (by decide))
      | ok =>
          simp only [hspawn] at hpoll
          obtain ⟨⟨look, now⟩, -, hpoll⟩ := Option.map_eq_some_iff.mp hpoll
          -- the new helper is looked at in the same call
          cases look with
          | exited success status output =>
              simp only [Prod.mk.injEq] at hpoll
              obtain ⟨rfl, rfl, rfl⟩ := hpoll
              exact .finished hchild (settled_settleOutput _ _ _) (Or.inl rfl)
          | failed e =>
              simp only [Prod.mk.injEq] at hpoll
              obtain ⟨rfl, rfl, rfl⟩ := hpoll
              exact .finished hchild (hwait e) (Or.inr rfl)
          | running =>
              simp only [Prod.mk.injEq] at hpoll
              obtain ⟨rfl, rfl, rfl⟩ := hpoll
              exact .started _ hchild
  | some child =>
      obtain ⟨kept, deadline⟩ := child
      simp only [hchild] at hpoll
      obtain ⟨⟨look, now⟩, hlook, hpoll⟩ := Option.map_eq_some_iff.mp hpoll
      cases look with
      | exited success status output =>
          simp only [Prod.mk.injEq] at hpoll
          obtain ⟨rfl, rfl, rfl⟩ := hpoll
          exact .ended hchild (settled_settleOutput _ _ _) (Or.inl rfl)
      | failed e =>
          simp only [Prod.mk.injEq] at hpoll
          obtain ⟨rfl, rfl, rfl⟩ := hpoll
          exact .ended hchild (hwait e) (Or.inr rfl)
      | running =>
          -- killed when its time is up, and kept until then
          dsimp only at hpoll
          split at hpoll <;> simp only [Prod.mk.injEq] at hpoll <;> obtain ⟨rfl, rfl, rfl⟩ := hpoll
          next =>
            exact .ended hchild (by decide : "helper timed out after 20s" ≠ elevatedPending)
              (Or.inr rfl)
          next hlate => exact .waiting hchild hlook (Nat.lt_of_not_le hlate)

/-! ## Runs -/

/-- Whether a helper is kept. -/
def State.pending (s : State) : Bool := s.poller.child.isSome

structure Accounted (everyMs : Nat) (s : State) : Prop where
  steady : s.poller.steadyMs = everyMs
  /-- Every attempt has come to a line or to an error or is lost, but for the helper that is
  kept. -/
  attempts : s.attempts = s.lines.length + s.errors.length + s.lost.length + s.pending.toNat
  running : s.running = (s.poller.child.map Prod.fst).toList
  knob : s.poller.knob = some (if s.pending then 250 else everyMs)
  lines : ∀ line ∈ s.lines, holds mark line = true ∧ '\n' ∉ line

/-- What a result leaves as it was. -/
theorem receive_frame (s : State) (arrival : Arrival) (res : Except String (List Char)) :
    (s.receive arrival res).poller = s.poller ∧ (s.receive arrival res).running = s.running ∧
      (s.receive arrival res).attempts = s.attempts := by
  unfold State.receive
  split
  next written _ =>
    unfold State.handleElevated State.event
    split
    next => cases written <;> exact ⟨rfl, rfl, rfl⟩
    next e =>
      split
      next => exact ⟨rfl, rfl, rfl⟩
      next => cases written <;> exact ⟨rfl, rfl, rfl⟩
  next =>
    split
    next => exact ⟨rfl, rfl, rfl⟩
    next => split <;> exact ⟨rfl, rfl, rfl⟩

/-- The results that left a trace, or none. -/
def State.results (s : State) : Nat := s.lines.length + s.errors.length + s.lost.length

/-- What was done with a helper is counted once. -/
theorem receive_settled {s : State} {arrival : Arrival} {res : Except String (List Char)}
    (hres : Settled res) :
    (s.receive arrival res).results = s.results + 1 ∧
      ((∀ line ∈ s.lines, holds mark line = true ∧ '\n' ∉ line) →
        ∀ line ∈ (s.receive arrival res).lines, holds mark line = true ∧ '\n' ∉ line) := by
  have hlost : (s.lose res).results = s.results + 1 := by
    simp only [State.results, State.lose, List.length_append, List.length_singleton]
    omega
  unfold State.receive
  split
  next written _ =>
    unfold State.handleElevated
    cases res with
    | ok line =>
        cases written with
        | false => exact ⟨hlost, id⟩
        | true =>
            refine ⟨?_, fun hlines => List.forall_mem_append.mpr ⟨hlines, ?_⟩⟩
            · simp only [State.results, Bool.not_true, Bool.false_eq_true, if_false,
                List.length_append, List.length_singleton]
              omega
            · exact List.forall_mem_singleton.mpr hres
    | error e =>
        have hne : e ≠ elevatedPending := hres
        simp only [if_neg hne]
        cases written with
        | false => exact ⟨hlost, id⟩
        | true =>
            refine ⟨?_, id⟩
            simp only [State.results, State.event, if_true, List.length_append,
              List.length_singleton]
            omega
  next =>
    cases res with
    | ok line => exact ⟨hlost, id⟩
    | error e =>
        have hne : e ≠ elevatedPending := hres
        simp only [if_neg hne]
        exact ⟨hlost, id⟩

theorem receive_pending (s : State) (arrival : Arrival) :
    s.receive arrival (.error elevatedPending) = s := by
  unfold State.receive
  split
  next written hrecording =>
    simp only [State.handleElevated, if_true]
    rw [← hrecording]
  next => simp

theorem Accounted.settle {everyMs : Nat} {s : State} {arrival : Arrival}
    {res : Except String (List Char)} (hsteady : s.poller.steadyMs = everyMs)
    (hchild : s.poller.child = none) (hattempts : s.attempts = s.results + 1)
    (hrunning : s.running = []) (hknob : s.poller.knob = some everyMs)
    (hlines : ∀ line ∈ s.lines, holds mark line = true ∧ '\n' ∉ line) (hres : Settled res) :
    Accounted everyMs (s.receive arrival res) := by
  obtain ⟨hpoller, hrun, hcount⟩ := receive_frame s arrival res
  obtain ⟨hsum, hall⟩ := @receive_settled s arrival _ hres
  have hpending : (s.receive arrival res).pending = false := by
    rw [State.pending, hpoller, hchild]
    rfl
  refine ⟨?_, ?_, ?_, ?_, hall hlines⟩
  · rw [hpoller, hsteady]
  · rw [hpending, hcount, hattempts, ← hsum]
    rfl
  · rw [hrun, hrunning, hpoller, hchild]
    rfl
  · rw [hpoller, hknob, hpending]
    rfl

theorem incidents_end (id : Nat) {incidents : List Incident}
    (hincidents : incidents = [.spawned id, .exited id] ∨ incidents = [.spawned id, .killed id]) :
    incidents.foldl State.incident [] = [] := by
  rcases hincidents with rfl | rfl <;> simp [State.incident]

theorem Accounted.of_none {everyMs : Nat} {s : State} (hs : Accounted everyMs s)
    (hchild : s.poller.child = none) :
    s.attempts = s.results ∧ s.running = [] ∧ s.poller.knob = some everyMs := by
  obtain ⟨-, hattempts, hrunning, hknob, -⟩ := hs
  simp only [State.pending, hchild] at hattempts hrunning hknob
  exact ⟨hattempts, hrunning, hknob⟩

theorem Accounted.of_some {everyMs kept deadline : Nat} {s : State} (hs : Accounted everyMs s)
    (hchild : s.poller.child = some (kept, deadline)) :
    s.attempts = s.results + 1 ∧ s.running = [kept] ∧ s.poller.knob = some 250 := by
  obtain ⟨-, hattempts, hrunning, hknob, -⟩ := hs
  simp only [State.pending, hchild] at hattempts hrunning hknob
  exact ⟨hattempts, hrunning, hknob⟩

theorem restore_knob {everyMs k : Nat} {p : ElevatedPoller} (hleast : 50 ≤ everyMs)
    (hsteady : p.steadyMs = everyMs) (hknob : p.knob = some k) :
    p.restore.knob = some everyMs := by
  rw [ElevatedPoller.restore, ElevatedPoller.setKnob, hknob, hsteady, max_eq_left hleast]
  rfl

theorem step_accounted {everyMs : Nat} (hleast : 50 ≤ everyMs) (s : State) (env : Surroundings)
    (t : State) (hs : Accounted everyMs s) (hstep : step s env = some t) :
    Accounted everyMs t := by
  obtain ⟨⟨p', res, incidents⟩, hpoll, rfl⟩ := Option.map_eq_some_iff.mp hstep
  clear hstep
  dsimp only
  cases polled_of_poll hpoll with
  | refused hchild hres =>
      obtain ⟨hattempts, hrunning, hknob⟩ := hs.of_none hchild
      refine .settle hs.steady hchild ?_ hrunning hknob hs.lines hres
      rw [hchild, hattempts]
      rfl
  | finished hchild hres hincidents =>
      obtain ⟨hattempts, hrunning, hknob⟩ := hs.of_none hchild
      refine .settle hs.steady hchild ?_ ?_ (restore_knob hleast hs.steady hknob) hs.lines hres
      · rw [hchild, hattempts]
        rfl
      · rw [hrunning]
        exact incidents_end _ hincidents
  | started deadline hchild =>
      obtain ⟨hattempts, hrunning, hknob⟩ := hs.of_none hchild
      rw [receive_pending]
      refine ⟨hs.steady, ?_, ?_, ?_, hs.lines⟩
      · rw [hattempts, hchild]
        rfl
      · rw [hrunning]
        rfl
      · rw [ElevatedPoller.setKnob, hknob]
        rfl
  | ended hchild hres hincidents =>
      obtain ⟨hattempts, hrunning, hknob⟩ := hs.of_some hchild
      refine .settle hs.steady rfl ?_ ?_ (restore_knob hleast hs.steady hknob) hs.lines hres
      · rw [hchild, hattempts]
        rfl
      · rw [hrunning]
        rcases hincidents with rfl | rfl <;> simp [State.incident]
  | waiting hchild =>
      obtain ⟨hattempts, hrunning, hknob⟩ := hs.of_some hchild
      rw [receive_pending]
      refine ⟨hs.steady, ?_, ?_, ?_, hs.lines⟩
      · rw [hchild, hattempts, State.pending, hchild]
        rfl
      · rw [hchild]
        exact hrunning
      · rw [State.pending, hchild]
        exact hknob

/-- A helper that is looked at when its time is up is not kept any longer. -/
theorem running_of_late {everyMs : Nat} (hleast : 50 ≤ everyMs) {s t : State} {env : Surroundings}
    {id deadline : Nat} (hs : Accounted everyMs s) (hchild : s.poller.child = some (id, deadline))
    (hlate : ∀ look now, env.looks.head? = some (look, now) → deadline ≤ now)
    (hstep : step s env = some t) : t.running = [] := by
  have ht := step_accounted hleast s env t hs hstep
  obtain ⟨⟨p', res, incidents⟩, hpoll, rfl⟩ := Option.map_eq_some_iff.mp hstep
  rw [ht.running, (receive_frame _ _ _).1]
  cases polled_of_poll hpoll with
  | refused hnone | finished hnone | started _ hnone =>
      rw [hnone] at hchild
      cases hchild
  | ended => rfl
  | waiting hkept hlook hearly =>
      obtain ⟨-, rfl⟩ := Prod.mk.inj (Option.some.inj (hkept.symm.trans hchild))
      exact absurd (hlate _ _ hlook) (Nat.not_le.mpr hearly)

/-- Nothing is lost as long as every result is handled and written. -/
theorem step_written (s : State) (env : Surroundings) (t : State)
    (hs : s.lost = [] ∧ s.recording = true) (harrival : env.arrival = .handled true)
    (hstep : step s env = some t) : t.lost = [] ∧ t.recording = true := by
  obtain ⟨⟨poller, res, incidents⟩, -, rfl⟩ := Option.map_eq_some_iff.mp hstep
  simp only [State.receive, harrival, hs.2]
  cases res with
  | ok line => exact ⟨hs.1, rfl⟩
  | error e =>
      simp only [State.handleElevated]
      split
      next => exact ⟨hs.1, rfl⟩
      next => exact ⟨hs.1, rfl⟩

/-- The interval that the command line gives the poller. -/
def helperInterval (helperEvery : Nat) : Nat := max helperEvery 10 * 1000

/-- A helper is kept over two polls and killed in the third; the failure of another one comes while
recording is paused, and a snapshot cannot be written. -/
def hangingHelper : List Surroundings :=
  [⟨.ok (), 0, [(.running, 40), (.running, 100)], .handled true⟩,
    ⟨.ok (), 0, [(.running, 9000)], .handled true⟩,
    ⟨.ok (), 0, [(.running, 20100)], .handled true⟩,
    ⟨.error "denied", 0, [], .dropped⟩,
    ⟨.ok (), 0, [(.exited true "0" (.ok "\x7b\"collector\":\"elevated\"\x7d".toUTF8.toList), 1)],
      .handled false⟩]

end PowerForensics.ElevatedHelper
