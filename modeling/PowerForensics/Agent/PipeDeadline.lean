import PowerForensics.Agent.PipeTransport

/-! # The deadline of a connection

The serving thread waits in every operation for what is left of the lifetime of a request at
most, and not at all once nothing is left. Only the handler takes as long as it likes.
-/

namespace PowerForensics.Pipe

open Ipc Runs

variable {σ : Type}

/-- The time of the serving thread, the handler's time apart, is within a millisecond of the
deadline. -/
structure Timely (io : Nat) (c : Connection) : Prop where
  within : c.clock ≤ c.deadline io + 10 ^ 6 + c.handled
  unhandled : ∀ r t, c.server = .reading r ∨ c.server = .handling t → c.handled = 0

/-- An operation is given no more than what is left, or one millisecond. -/
theorem clock_of_waits {c : Connection} {io took : Nat} (hwaits : c.waits io took = true) :
    c.clock + took ≤ c.deadline io + 10 ^ 6 := by
  unfold Connection.waits remainingMs at hwaits
  dsimp only at hwaits
  split at hwaits
  next t hleft =>
    split at hleft
    next => cases hleft
    next hrem =>
      obtain rfl := Except.ok.inj hleft
      have htook := of_decide_eq_true hwaits
      omega
  next => cases hwaits

/-- After an operation that was waited for. -/
theorem Timely.of_waits {c c' : Connection} {io took : Nat} (hwaits : c.waits io took = true)
    (haccepted : c'.accepted = c.accepted) (hclock : c'.clock = c.clock + took)
    (hunhandled : ∀ r t, c'.server = .reading r ∨ c'.server = .handling t → c'.handled = 0) :
    Timely io c' := by
  refine ⟨?_, hunhandled⟩
  have hbound := clock_of_waits hwaits
  have hdeadline : c'.deadline io = c.deadline io := by rw [Connection.deadline, haccepted]; rfl
  rw [hclock, hdeadline]
  omega

theorem serverStep_timely {handler : σ → String → Option String × σ} {io : Nat} {svc svc' : σ}
    {c c' : Connection} {e : ServerEvent} (hc : Timely io c)
    (hstep : serverStep handler io svc c e = some (svc', c')) : Timely io c' := by
  have hclosed : ∀ {d : Connection} {result : Except String Unit} {P : Prop} (r : Reading)
      (t : String), (d.close result).server = .reading r ∨ (d.close result).server = .handling t →
        P := by
    rintro d result P r t (h | h) <;> cases h
  unfold serverStep at hstep
  split at hstep
  next r k took hserver =>
    obtain ⟨⟨-, -, -, hwaits⟩, hstep⟩ := Option.ite_none_right_eq_some.mp hstep
    have hzero := hc.unhandled r "" (Or.inl hserver)
    dsimp only at hstep
    split at hstep <;> simp only [Option.some.injEq, Prod.mk.injEq] at hstep <;>
      obtain ⟨-, rfl⟩ := hstep
    · exact .of_waits hwaits rfl rfl fun _ _ _ => hzero
    · exact .of_waits hwaits rfl rfl fun _ _ _ => hzero
    · exact .of_waits hwaits rfl rfl hclosed
  next text took hserver =>
    simp only [Option.some.injEq, Prod.mk.injEq] at hstep
    obtain ⟨-, rfl⟩ := hstep
    -- the clock and the time in the handler move on together
    have hwithin := hc.within
    rw [hc.unhandled (.length []) text (Or.inr hserver), Nat.add_zero] at hwithin
    refine ⟨Nat.add_le_add_right hwithin took, ?_⟩
    rintro r t (h | h) <;> cases h
  next rest k took hserver =>
    obtain ⟨⟨-, -, -, hwaits⟩, hstep⟩ := Option.ite_none_right_eq_some.mp hstep
    simp only [Option.some.injEq, Prod.mk.injEq] at hstep
    obtain ⟨-, rfl⟩ := hstep
    refine .of_waits hwaits rfl rfl ?_
    rintro r t (h | h) <;> dsimp only at h <;> split at h <;> cases h
  next took hserver =>
    obtain ⟨hwaits, hstep⟩ := Option.ite_none_right_eq_some.mp hstep
    simp only [Option.some.injEq, Prod.mk.injEq] at hstep
    obtain ⟨-, rfl⟩ := hstep
    exact .of_waits hwaits rfl rfl hclosed
  next =>
    obtain ⟨d, hd, hsame⟩ := Option.map_eq_some_iff.mp hstep
    obtain ⟨-, rfl⟩ := Prod.mk.inj hsame
    obtain ⟨-, result, took, hwaits, rfl⟩ := serverAbort_cases hd
    rcases hwaits with rfl | hwaits
    · exact ⟨hc.within, hclosed⟩
    · exact .of_waits hwaits rfl rfl hclosed

/-- A client has no part in the times of its connection. -/
theorem clientStep_times {c c' : Connection} {e : ClientEvent} (hstep : clientStep c e = some c') :
    c'.server = c.server ∧ c'.accepted = c.accepted ∧ c'.clock = c.clock ∧
      c'.handled = c.handled := by
  unfold clientStep at hstep
  split at hstep
  · obtain ⟨-, rfl⟩ := of_guard hstep
    exact ⟨rfl, rfl, rfl, rfl⟩
  · obtain ⟨-, hstep⟩ := Option.ite_none_right_eq_some.mp hstep
    split at hstep <;> obtain rfl := Option.some.inj hstep <;> exact ⟨rfl, rfl, rfl, rfl⟩
  · obtain rfl := Option.some.inj hstep
    exact ⟨rfl, rfl, rfl, rfl⟩
  · obtain rfl := Option.some.inj hstep
    exact ⟨rfl, rfl, rfl, rfl⟩
  · cases hstep

theorem step_timely {handler : σ → String → Option String × σ} {io : Nat} (s : State σ)
    (a : Action) (t : State σ) (hs : ∀ c ∈ s.connections, Timely io c)
    (hstep : step handler io s a = some t) : ∀ c ∈ t.connections, Timely io c := by
  cases a with
  | accept request now =>
      obtain ⟨-, rfl⟩ := of_guard hstep
      refine List.forall_mem_cons.mpr ⟨⟨?_, fun _ _ _ => rfl⟩, hs⟩
      simp only [Connection.accept, Connection.deadline]
      omega
  | client i e =>
      obtain ⟨c', hc', rfl⟩ := Option.map_eq_some_iff.mp hstep
      obtain ⟨c, hc, hclient⟩ := Option.bind_eq_some_iff.mp hc'
      obtain ⟨hserver, haccepted, hclock, hhandled⟩ := clientStep_times hclient
      have htimely := hs c (List.mem_of_getElem? hc)
      intro d hd
      rcases List.mem_or_eq_of_mem_set hd with hd | rfl
      · exact hs d hd
      · refine ⟨?_, ?_⟩
        · have hwithin := htimely.within
          simp only [Connection.deadline] at hwithin ⊢
          omega
        · rw [hserver, hhandled]
          exact htimely.unhandled
  | server e =>
      cases hconnections : s.connections with
      | nil => simp [step, hconnections] at hstep
      | cons c older =>
          simp only [step, hconnections] at hstep
          obtain ⟨⟨svc', c'⟩, hserver, rfl⟩ := Option.map_eq_some_iff.mp hstep
          rw [hconnections, List.forall_mem_cons] at hs
          exact List.forall_mem_cons.mpr ⟨serverStep_timely hs.1 hserver, hs.2⟩

/-- Past the deadline an operation is not begun: the server gives the connection up. -/
theorem serverStep_expired {handler : σ → String → Option String × σ} {io : Nat} {svc : σ}
    {c : Connection} (hlate : c.deadline io ≤ c.clock) (hwaiting : c.server.waiting = true) :
    (∀ e svc' c', serverStep handler io svc c e = some (svc', c') →
      svc' = svc ∧ c'.server.isClosed = true) ∧
    (serverStep handler io svc c .expire).isSome = true := by
  have hleft : remainingMs (c.deadline io) c.clock io =
      .error "pipe request exceeded absolute deadline" :=
    if_pos (Nat.sub_eq_zero_of_le hlate)
  have hnever : ∀ took, c.waits io took = false := by
    intro took
    rw [Connection.waits, hleft]
  refine ⟨fun e svc' c' hstep => ?_, ?_⟩
  · unfold serverStep at hstep
    split at hstep
    next => simp [hnever] at hstep
    next text took hserver => simp [hserver, Server.waiting] at hwaiting
    next => simp [hnever] at hstep
    next => simp [hnever] at hstep
    next =>
      obtain ⟨d, hd, hsame⟩ := Option.map_eq_some_iff.mp hstep
      obtain ⟨rfl, rfl⟩ := Prod.mk.inj hsame
      obtain ⟨-, result, took, -, rfl⟩ := serverAbort_cases hd
      exact ⟨rfl, rfl⟩
  · cases hserver : c.server <;> simp [hserver, Server.waiting] at hwaiting <;>
      simp [serverStep, serverAbort, hserver, hleft, Server.waiting]

/-- A client that drips its bytes, or does not read, holds the server up for the lifetime of a
request at most, give or take a millisecond and the time of the handler. Once the deadline has
passed, the server can give the connection up, and can do nothing else with it. -/
theorem connection_bounded (handler : σ → String → Option String × σ) (io : Nat) (init : σ)
    (actions : List Action) (s : State σ)
    (hrun : run (step handler io) (State.start init) actions = some s) :
    ∀ c ∈ s.connections,
      c.clock ≤ c.deadline io + 10 ^ 6 + c.handled ∧
      (c.deadline io ≤ c.clock → c.server.waiting = true →
        (∀ e svc c', serverStep handler io s.service c e = some (svc, c') →
          svc = s.service ∧ c'.server.isClosed = true) ∧
        (serverStep handler io s.service c .expire).isSome = true) := by
  have htimely : ∀ c ∈ s.connections, Timely io c :=
    invariant step_timely (fun c hc => absurd hc List.not_mem_nil) hrun
  exact fun c hc => ⟨(htimely c hc).within, serverStep_expired⟩

theorem connection_bounded_sample :
    ∃ s, run (step polite 5000) (State.start 0) twoCalls = some s ∧
      s.connections.map Connection.clock = [32, 12] ∧
      ∀ c ∈ s.connections, c.clock ≤ c.deadline 5000 + 10 ^ 6 + c.handled :=
  ⟨_, rfl, rfl, fun c hc => (connection_bounded polite 5000 0 twoCalls _ rfl c hc).1⟩

end PowerForensics.Pipe
