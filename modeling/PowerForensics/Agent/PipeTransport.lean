import PowerForensics.Core.Ipc
import PowerForensics.System.Runs

/-! # The pipe between clients and the server

A client writes one framed request and reads one framed answer. The server accepts one client
at a time, reads the request, asks the handler, writes the answer and waits for the client to
close. Reads and writes move as many bytes as the pipe likes, either side may fail at any
point, and everything the server does on a connection is bounded by a deadline. What the server
drops with its end of the pipe is gone.
-/

namespace PowerForensics.Pipe

open Ipc Runs

/-! ## Reading a frame -/

/-- Where `read_frame` is: in the four bytes of the length, or in the bytes it announces. -/
inductive Reading where
  | length (got : List UInt8)
  | body (lenb got : List UInt8)
  deriving DecidableEq

inductive ReadOutcome where
  | more (r : Reading)
  | frame (text : String)
  | refused (e : String)
  deriving DecidableEq

/-- The bytes that have been read. -/
def Reading.bytes : Reading → List UInt8
  | length got => got
  | body lenb got => lenb ++ got

/-- The bytes that the buffer of the next read has room for. -/
def Reading.room : Reading → Nat
  | length got => 4 - got.length
  | body lenb got => LittleEndian.decode lenb - got.length

def finishBody (lenb got : List UInt8) : ReadOutcome :=
  if got.length < LittleEndian.decode lenb then .more (.body lenb got)
  else
    match Utf8.fromUtf8 got with
    | .ok text => .frame text
    | .error e => .refused s!"frame is not UTF-8: {e}"

/-- A read has returned some bytes. -/
def Reading.take (r : Reading) (chunk : List UInt8) : ReadOutcome :=
  match r with
  | length got =>
      let lenb := got ++ chunk
      if lenb.length < 4 then .more (.length lenb)
      else
        let len := LittleEndian.decode lenb
        if len > ipcMaxFrame then .refused s!"frame too large: {len} bytes"
        else finishBody lenb []
  | body lenb got => finishBody lenb (got ++ chunk)

/-- The loop has not read what it wants. -/
def Reading.Open : Reading → Prop
  | length got => got.length < 4
  | body lenb got => lenb.length = 4 ∧ got.length < LittleEndian.decode lenb

theorem open_start : (Reading.length []).Open := Nat.zero_lt_succ 3

/-! ## Connections -/

inductive Client where
  | writing (rest : List UInt8)
  | reading (r : Reading)
  | done (result : Except String String)

inductive Server where
  | reading (r : Reading)
  | handling (request : String)
  | writing (rest : List UInt8)
  | draining
  | closed (result : Except String Unit)

/-- A client that was accepted, and the instance of the pipe that serves it. Times are in
nanoseconds. -/
structure Connection where
  request : String
  client : Client
  server : Server
  /-- The bytes under way to the server. -/
  up : List UInt8
  /-- The bytes under way to the client. -/
  down : List UInt8
  /-- What the handler has answered. -/
  answered : Option String
  /-- When the connection was accepted. -/
  accepted : Nat
  /-- The time of the serving thread. -/
  clock : Nat
  /-- The time that the handler has taken. -/
  handled : Nat

def Connection.accept (request : String) (now : Nat) : Connection where
  request
  client := .writing (framed request)
  server := .reading (.length [])
  up := []
  down := []
  answered := none
  accepted := now
  clock := now
  handled := 0

/-! ## The client -/

inductive ClientEvent where
  | write (k : Nat)
  | read (k : Nat)
  /-- A write or a read fails, or the pipe is closed. -/
  | fail (e : String)
  deriving DecidableEq

def Server.isClosed : Server → Bool
  | closed _ => true
  | _ => false

def Client.isDone : Client → Bool
  | done _ => true
  | _ => false

/-- The client closes its end; what it has not read is dropped. -/
def Connection.finish (c : Connection) (result : Except String String) : Connection :=
  { c with client := .done result, down := [] }

def clientStep (c : Connection) (e : ClientEvent) : Option Connection :=
  match c.client, e with
  | .writing rest, .write k =>
      if 0 < k ∧ k ≤ rest.length ∧ c.server.isClosed = false then
        let left := rest.drop k
        some { c with
          up := c.up ++ rest.take k
          client := if left = [] then .reading (.length []) else .writing left }
      else none
  | .reading r, .read k =>
      if 0 < k ∧ k ≤ r.room ∧ k ≤ c.down.length then
        match r.take (c.down.take k) with
        | .more r => some { c with client := .reading r, down := c.down.drop k }
        | .frame text => some (c.finish (.ok text))
        | .refused e => some (c.finish (.error e))
      else none
  | .writing _, .fail e | .reading _, .fail e => some (c.finish (.error e))
  | _, _ => none

/-! ## The server -/

/-- The time until the deadline, at most the timeout of one operation, in milliseconds. -/
def remainingMs (deadline now capMs : Nat) : Except String Nat :=
  let rem := deadline - now
  if rem = 0 then .error "pipe request exceeded absolute deadline"
  else .ok (max (min (rem / 10 ^ 6) capMs) 1)

/-- The lifetime of a request. -/
def lifetimeMs (ioTimeoutMs : Nat) : Nat := max (min (ioTimeoutMs * 3) (2 ^ 64 - 1)) 1000

def Connection.deadline (c : Connection) (ioTimeoutMs : Nat) : Nat :=
  c.accepted + 10 ^ 6 * lifetimeMs ioTimeoutMs

/-- What an operation of the serving thread comes to, and how long it takes. -/
inductive ServerEvent where
  | read (k took : Nat)
  | handle (took : Nat)
  | write (k took : Nat)
  /-- The client has closed, or has written more. -/
  | drained (took : Nat)
  /-- An operation fails, is cut off by its timeout, or finds the pipe closed. -/
  | fail (e : String) (took : Nat)
  /-- The deadline has passed before an operation. -/
  | expire
  deriving DecidableEq

/-- An operation ends within the time it is given. -/
def Connection.waits (c : Connection) (ioTimeoutMs took : Nat) : Bool :=
  match remainingMs (c.deadline ioTimeoutMs) c.clock ioTimeoutMs with
  | .ok t => took ≤ 10 ^ 6 * t
  | .error _ => false

def Server.waiting : Server → Bool
  | reading _ | writing _ | draining => true
  | _ => false

/-- The server disconnects: what is in the pipe is discarded. -/
def Connection.close (c : Connection) (result : Except String Unit) : Connection :=
  { c with server := .closed result, up := [], down := [] }

variable {σ : Type}

/-- A panic of the handler is answered, too. -/
def answer (reply : Option String) : String := reply.getD (encodeResponseErr "handler failed")

/-- The ways in which an operation of `serve_connection` can go wrong. -/
def serverAbort (ioTimeoutMs : Nat) (c : Connection) (e : ServerEvent) : Option Connection :=
  match e with
  | .fail e took =>
      if c.server.waiting ∧ c.waits ioTimeoutMs took then
        some ({ c with clock := c.clock + took }.close (.error e))
      else none
  | .expire =>
      match remainingMs (c.deadline ioTimeoutMs) c.clock ioTimeoutMs with
      | .error e => if c.server.waiting then some (c.close (.error e)) else none
      | .ok _ => none
  | _ => none

/-- One step of `serve_connection`. The handler may have no answer: then it has panicked. -/
def serverStep (handler : σ → String → Option String × σ) (ioTimeoutMs : Nat) (svc : σ)
    (c : Connection) (e : ServerEvent) : Option (σ × Connection) :=
  match c.server, e with
  | .reading r, .read k took =>
      if 0 < k ∧ k ≤ r.room ∧ k ≤ c.up.length ∧ c.waits ioTimeoutMs took then
        let c' := { c with up := c.up.drop k, clock := c.clock + took }
        match r.take (c.up.take k) with
        | .more r => some (svc, { c' with server := .reading r })
        | .frame text => some (svc, { c' with server := .handling text })
        | .refused e => some (svc, c'.close (.error e))
      else none
  | .handling text, .handle took =>
      let reply := answer (handler svc text).1
      some ((handler svc text).2,
        { c with
          server := .writing (framed reply)
          answered := some reply
          clock := c.clock + took
          handled := took })
  | .writing rest, .write k took =>
      if 0 < k ∧ k ≤ rest.length ∧ c.client.isDone = false ∧ c.waits ioTimeoutMs took then
        let left := rest.drop k
        some (svc, { c with
          down := c.down ++ rest.take k
          server := if left = [] then .draining else .writing left
          clock := c.clock + took })
      else none
  | .draining, .drained took =>
      if c.waits ioTimeoutMs took then
        some (svc, { c with clock := c.clock + took }.close (.ok ()))
      else none
  | _, e => (serverAbort ioTimeoutMs c e).map (svc, ·)

/-! ## The system -/

/-- The service and the connections, the latest first. -/
structure State (σ : Type) where
  service : σ
  connections : List Connection

def State.start (svc : σ) : State σ := ⟨svc, []⟩

inductive Action where
  /-- The server accepts a client with this request. -/
  | accept (request : String) (now : Nat)
  | client (i : Nat) (e : ClientEvent)
  /-- The serving thread works on the latest connection. -/
  | server (e : ServerEvent)
  deriving DecidableEq

/-- The latest connection has been served. -/
def State.idle (s : State σ) : Bool :=
  match s.connections with
  | [] => true
  | c :: _ => c.server.isClosed

def step (handler : σ → String → Option String × σ) (ioTimeoutMs : Nat) (s : State σ)
    (a : Action) : Option (State σ) :=
  match a with
  | .accept request now =>
      if s.idle then some { s with connections := .accept request now :: s.connections } else none
  | .client i e =>
      (s.connections[i]?.bind (clientStep · e)).map fun c =>
        { s with connections := s.connections.set i c }
  | .server e =>
      match s.connections with
      | [] => none
      | c :: older =>
          (serverStep handler ioTimeoutMs s.service c e).map fun (svc, c) => ⟨svc, c :: older⟩

/-! ## What a reader makes of the front of a frame -/

section Reading

variable {r : Reading} {lenb got chunk payload : List UInt8}

theorem decode_of_front (hlen : lenb.length = 4) (hsize : payload.length < 2 ^ 32)
    (hfront : lenb ++ got <+: frame payload) :
    LittleEndian.decode lenb = payload.length ∧ got <+: payload := by
  have hlenb : lenb = LittleEndian.encode 4 payload.length := by
    have hshort : lenb <+: frame payload := (List.prefix_append _ _).trans hfront
    have hcode : LittleEndian.encode 4 payload.length <+: frame payload := List.prefix_append _ _
    refine (List.prefix_of_prefix_length_le hshort hcode ?_).eq_of_length ?_ <;>
      simp [hlen]
  refine ⟨?_, ?_⟩
  · rw [hlenb]
    exact LittleEndian.decode_encode_of_lt hsize
  · rwa [hlenb, frame, List.prefix_append_right_inj] at hfront

theorem finishBody_more (hmore : finishBody lenb got = .more r) :
    r = .body lenb got ∧ got.length < LittleEndian.decode lenb := by
  unfold finishBody at hmore
  split at hmore
  next hlt => exact ⟨(ReadOutcome.more.inj hmore).symm, hlt⟩
  next => split at hmore <;> cases hmore

/-- A body that is complete is the payload. -/
theorem finishBody_frame {text : String} (hlen : lenb.length = 4) (hsize : payload.length < 2 ^ 32)
    (hfront : lenb ++ got <+: frame payload) (hframe : finishBody lenb got = .frame text) :
    Utf8.bytes text = payload := by
  obtain ⟨hdecode, hgot⟩ := decode_of_front hlen hsize hfront
  unfold finishBody at hframe
  split at hframe
  next => cases hframe
  next hlt =>
    split at hframe
    next text' htext =>
      obtain rfl := ReadOutcome.frame.inj hframe
      have hle := hgot.length_le
      rw [Utf8.bytes_of_fromUtf8 htext]
      exact hgot.eq_of_length (by omega)
    next => cases hframe

/-- The loop goes on with all bytes that it has read. -/
theorem Reading.take_more {r' : Reading} (hopen : r.Open) (hroom : chunk.length ≤ r.room)
    (hmore : r.take chunk = .more r') : r'.Open ∧ r'.bytes = r.bytes ++ chunk := by
  cases r with
  | length got =>
      simp only [Reading.take] at hmore
      split at hmore
      next hlt =>
        obtain rfl := ReadOutcome.more.inj hmore
        exact ⟨hlt, rfl⟩
      next hlt =>
        split at hmore
        next => cases hmore
        next =>
          obtain ⟨rfl, hbody⟩ := finishBody_more hmore
          simp only [Reading.room, Reading.Open] at hroom hopen
          have hfour : (got ++ chunk).length = 4 := by
            rw [List.length_append] at hlt ⊢
            omega
          exact ⟨⟨hfour, hbody⟩, List.append_nil _⟩
  | body lenb got =>
      obtain ⟨rfl, hbody⟩ := finishBody_more hmore
      exact ⟨⟨hopen.1, hbody⟩, (List.append_assoc ..).symm⟩

/-- A frame that was read off the front of a stream is the frame the stream begins with. -/
theorem Reading.take_frame {text : String} (hopen : r.Open) (hroom : chunk.length ≤ r.room)
    (hsize : payload.length < 2 ^ 32) (hfront : r.bytes ++ chunk <+: frame payload)
    (hframe : r.take chunk = .frame text) : Utf8.bytes text = payload := by
  cases r with
  | length got =>
      simp only [Reading.take] at hframe
      split at hframe
      next => cases hframe
      next hlt =>
        split at hframe
        next => cases hframe
        next =>
          simp only [Reading.room, Reading.Open] at hroom hopen
          have hfour : (got ++ chunk).length = 4 := by
            rw [List.length_append] at hlt ⊢
            omega
          have hempty : got ++ chunk ++ [] <+: frame payload := by rwa [List.append_nil]
          exact finishBody_frame hfour hsize hempty hframe
  | body lenb got =>
      rw [Reading.bytes, List.append_assoc] at hfront
      exact finishBody_frame hopen.1 hsize hfront hframe

end Reading

theorem bytes_injective {s t : String} (h : Utf8.bytes s = Utf8.bytes t) : s = t := by
  have hread := Utf8.fromUtf8_bytes s
  rw [h, Utf8.fromUtf8_bytes t] at hread
  exact (Except.ok.inj hread).symm

/-! ## The invariant of a connection -/

/-- What the client has read of the answer. -/
def Client.received : Client → List UInt8
  | reading r => r.bytes
  | _ => []

def Small (text : String) : Prop := (Utf8.bytes text).length < 2 ^ 32

instance (text : String) : Decidable (Small text) := inferInstanceAs (Decidable (_ < _))

structure Sound (c : Connection) : Prop where
  small : Small c.request ∧ ∀ a, c.answered = some a → Small a
  /-- What is read, under way and not yet written is the frame of the request. -/
  requested : ∀ r, c.server = .reading r → r.Open ∧
    ∃ rest, r.bytes ++ c.up ++ rest = framed c.request ∧ ∀ u, c.client = .writing u → u = rest
  passed : ∀ t, c.server = .handling t → t = c.request
  early : ∀ r t, c.server = .reading r ∨ c.server = .handling t → c.answered = none
  silent : c.answered = none → c.client.received = [] ∧ c.down = []
  reads : ∀ r, c.client = .reading r → r.Open
  replied : ∀ a, c.answered = some a → c.client.received ++ c.down <+: framed a
  writes : ∀ rest, c.server = .writing rest → ∃ a, c.answered = some a ∧
    (c.client.isDone = false → c.client.received ++ c.down ++ rest = framed a)
  result : ∀ t, c.client = .done (.ok t) → c.answered = some t

theorem sound_accept {request : String} (hsmall : Small request) (now : Nat) :
    Sound (Connection.accept request now) where
  small := ⟨hsmall, nofun⟩
  requested r hr := by
    obtain rfl := Server.reading.inj hr
    exact ⟨open_start, framed request, rfl, fun u hu => (Client.writing.inj hu).symm⟩
  passed := nofun
  early _ _ _ := rfl
  silent _ := ⟨rfl, rfl⟩
  reads := nofun
  replied := nofun
  writes := nofun
  result := nofun

/-- The end of a client leaves the server where it is. -/
theorem Sound.finish {c : Connection} (hc : Sound c) {result : Except String String}
    (hresult : ∀ t, result = .ok t → c.answered = some t) : Sound (c.finish result) where
  small := hc.small
  requested r hr := by
    obtain ⟨hopen, rest, hrest, -⟩ := hc.requested r hr
    exact ⟨hopen, rest, hrest, nofun⟩
  passed := hc.passed
  early := hc.early
  silent _ := ⟨rfl, rfl⟩
  reads := nofun
  replied _ _ := List.nil_prefix
  writes rest hrest := by
    obtain ⟨a, ha, -⟩ := hc.writes rest hrest
    exact ⟨a, ha, nofun⟩
  result t ht := hresult t (Client.done.inj ht)

/-- The client has written some bytes. -/
theorem Sound.client_write {c : Connection} (hc : Sound c) {rest : List UInt8} {k : Nat}
    {client : Client} (hwriting : c.client = .writing rest)
    (hclient : client = .writing (rest.drop k) ∨ client = .reading (.length [])) :
    Sound { c with up := c.up ++ rest.take k, client } where
  small := hc.small
  requested r hr := by
    obtain ⟨hopen, rest', hrest, hunsent⟩ := hc.requested r hr
    obtain rfl := hunsent rest hwriting
    refine ⟨hopen, rest.drop k, ?_, fun u hu => ?_⟩
    · rw [← hrest]
      simp only [List.append_assoc, List.take_append_drop]
    · rcases hclient with rfl | rfl
      · exact (Client.writing.inj hu).symm
      · cases hu
  passed := hc.passed
  early := hc.early
  silent hnone := by
    obtain ⟨-, hdown⟩ := hc.silent hnone
    rcases hclient with rfl | rfl <;> exact ⟨rfl, hdown⟩
  reads r hr := by
    rcases hclient with rfl | rfl
    · cases hr
    · obtain rfl := Client.reading.inj hr
      exact open_start
  replied a ha := by
    have hreplied := hc.replied a ha
    rw [hwriting] at hreplied
    rcases hclient with rfl | rfl <;> exact hreplied
  writes left hleft := by
    obtain ⟨a, ha, hsum⟩ := hc.writes left hleft
    rw [hwriting] at hsum
    refine ⟨a, ha, fun _ => ?_⟩
    rcases hclient with rfl | rfl <;> exact hsum rfl
  result t ht := by rcases hclient with rfl | rfl <;> cases ht

/-- The client has read some bytes and wants more. -/
theorem Sound.client_read {c : Connection} (hc : Sound c) {r r' : Reading} {k : Nat}
    (hreading : c.client = .reading r) (hopen : r'.Open)
    (hbytes : r'.bytes = r.bytes ++ c.down.take k) :
    Sound { c with client := .reading r', down := c.down.drop k } := by
  have hsame : r'.bytes ++ c.down.drop k = r.bytes ++ c.down := by
    rw [hbytes, List.append_assoc, List.take_append_drop]
  refine ⟨hc.small, fun s hs => ?_, hc.passed, hc.early, fun hnone => ?_, fun s hs => ?_,
    fun a ha => ?_, fun rest hrest => ?_, nofun⟩
  · obtain ⟨hr, rest, hrest, -⟩ := hc.requested s hs
    exact ⟨hr, rest, hrest, nofun⟩
  · obtain ⟨hreceived, hdown⟩ := hc.silent hnone
    rw [hreading] at hreceived
    simp only [Client.received, hbytes, hdown, List.take_nil, List.drop_nil, and_true]
    rw [List.append_nil]
    exact hreceived
  · obtain rfl := Client.reading.inj hs
    exact hopen
  · have hreplied := hc.replied a ha
    rw [hreading] at hreplied
    simpa only [Client.received, hsame] using hreplied
  · obtain ⟨a, ha, hsum⟩ := hc.writes rest hrest
    rw [hreading] at hsum
    refine ⟨a, ha, fun _ => ?_⟩
    simpa only [Client.received, hsame] using hsum rfl

/-- A step of the client keeps the connection sound, and does not touch what the server has. -/
theorem clientStep_sound {c c' : Connection} {e : ClientEvent} (hc : Sound c)
    (hstep : clientStep c e = some c') :
    Sound c' ∧ c'.request = c.request ∧ c'.answered = c.answered := by
  have hfail : ∀ e, Sound (c.finish (.error e)) := fun e => hc.finish nofun
  unfold clientStep at hstep
  cases hclient : c.client with
  | done result => cases e <;> simp [hclient] at hstep
  | writing rest =>
      cases e with
      | read k => simp [hclient] at hstep
      | fail e =>
          simp only [hclient, Option.some.injEq] at hstep
          exact hstep ▸ ⟨hfail e, rfl, rfl⟩
      | write k =>
          simp only [hclient] at hstep
          obtain ⟨-, rfl⟩ := of_guard hstep
          refine ⟨hc.client_write hclient ?_, rfl, rfl⟩
          split
          · exact Or.inr rfl
          · exact Or.inl rfl
  | reading r =>
      cases e with
      | write k => simp [hclient] at hstep
      | fail e =>
          simp only [hclient, Option.some.injEq] at hstep
          exact hstep ▸ ⟨hfail e, rfl, rfl⟩
      | read k =>
          simp only [hclient] at hstep
          obtain ⟨⟨hpos, hroom, hdown⟩, hstep⟩ := Option.ite_none_right_eq_some.mp hstep
          have hchunk : (c.down.take k).length ≤ r.room := by
            rw [List.length_take]
            omega
          have hopen := hc.reads r hclient
          cases htake : r.take (c.down.take k) with
          | more r' =>
              simp only [htake, Option.some.injEq] at hstep
              obtain ⟨hopen', hbytes⟩ := Reading.take_more hopen hchunk htake
              exact hstep ▸ ⟨hc.client_read hclient hopen' hbytes, rfl, rfl⟩
          | refused e =>
              simp only [htake, Option.some.injEq] at hstep
              exact hstep ▸ ⟨hfail e, rfl, rfl⟩
          | frame text =>
              simp only [htake, Option.some.injEq] at hstep
              subst hstep
              refine ⟨hc.finish fun t ht => ?_, rfl, rfl⟩
              obtain rfl := Except.ok.inj ht
              -- something is under way to the client, so the handler has answered
              cases hanswered : c.answered with
              | none =>
                  rw [(hc.silent hanswered).2, List.length_nil] at hdown
                  omega
              | some a =>
                  have hreplied := hc.replied a hanswered
                  rw [hclient] at hreplied
                  have hfront : r.bytes ++ c.down.take k <+: frame (Utf8.bytes a) :=
                    ((List.prefix_append_right_inj _).mpr (List.take_prefix k _)).trans hreplied
                  have hbytes :=
                    Reading.take_frame hopen hchunk (hc.small.2 a hanswered) hfront htake
                  rw [bytes_injective hbytes]

/-! ## The steps of the server -/

theorem Sound.tick {c : Connection} (hc : Sound c) (clock : Nat) : Sound { c with clock } where
  small := hc.small
  requested := hc.requested
  passed := hc.passed
  early := hc.early
  silent := hc.silent
  reads := hc.reads
  replied := hc.replied
  writes := hc.writes
  result := hc.result

/-- The client keeps what it has read of the answer. -/
theorem Sound.close {c : Connection} (hc : Sound c) (result : Except String Unit) :
    Sound (c.close result) where
  small := hc.small
  requested := nofun
  passed := nofun
  early := by
    rintro r t (h | h) <;> cases h
  silent hnone := ⟨(hc.silent hnone).1, rfl⟩
  reads := hc.reads
  replied a ha := by
    have hreplied := hc.replied a ha
    rw [Connection.close, List.append_nil]
    exact (List.prefix_append _ _).trans hreplied
  writes := nofun
  result := hc.result

theorem Sound.server_read {c : Connection} (hc : Sound c) {r r' : Reading} {k : Nat}
    (hreading : c.server = .reading r) (hopen : r'.Open)
    (hbytes : r'.bytes = r.bytes ++ c.up.take k) :
    Sound { c with server := .reading r', up := c.up.drop k } where
  small := hc.small
  requested s hs := by
    obtain rfl := Server.reading.inj hs
    obtain ⟨-, rest, hrest, hunsent⟩ := hc.requested r hreading
    refine ⟨hopen, rest, ?_, hunsent⟩
    rw [← hrest, hbytes, List.append_assoc r.bytes, List.take_append_drop]
  passed := nofun
  early _ _ _ := hc.early r "" (Or.inl hreading)
  silent := hc.silent
  reads := hc.reads
  replied := hc.replied
  writes := nofun
  result := hc.result

/-- The request has been read. -/
theorem Sound.server_request {c : Connection} (hc : Sound c) {r : Reading}
    (hreading : c.server = .reading r) (up : List UInt8) :
    Sound { c with server := .handling c.request, up } where
  small := hc.small
  requested := nofun
  passed _ ht := (Server.handling.inj ht).symm
  early _ _ _ := hc.early r "" (Or.inl hreading)
  silent := hc.silent
  reads := hc.reads
  replied := hc.replied
  writes := nofun
  result := hc.result

/-- The handler has answered. -/
theorem Sound.server_reply {c : Connection} (hc : Sound c) {t reply : String}
    (hhandling : c.server = .handling t) (hreply : Small reply) (handled : Nat) :
    Sound { c with server := .writing (framed reply), answered := some reply, handled } := by
  have hnone := hc.early (.length []) t (Or.inr hhandling)
  obtain ⟨hreceived, hdown⟩ := hc.silent hnone
  refine ⟨⟨hc.small.1, fun a ha => ?_⟩, nofun, nofun, ?_, nofun, hc.reads, fun a ha => ?_,
    fun rest hrest => ?_, fun t ht => ?_⟩
  · obtain rfl := Option.some.inj ha
    exact hreply
  · rintro r t (h | h) <;> cases h
  · simp only [hreceived, hdown, List.append_nil]
    exact List.nil_prefix
  · obtain rfl := Server.writing.inj hrest
    exact ⟨reply, rfl, fun _ => by simp only [hreceived, hdown, List.nil_append]⟩
  · have hanswered := hc.result t ht
    rw [hnone] at hanswered
    cases hanswered

/-- The server has written some bytes. -/
theorem Sound.server_write {c : Connection} (hc : Sound c) {rest : List UInt8} {k : Nat}
    {server : Server} (hwriting : c.server = .writing rest) (hdone : c.client.isDone = false)
    (hserver : server = .writing (rest.drop k) ∨ server = .draining) :
    Sound { c with down := c.down ++ rest.take k, server } := by
  obtain ⟨a, ha, hsum⟩ := hc.writes rest hwriting
  have hsum := hsum hdone
  refine ⟨hc.small, fun r hr => ?_, fun t ht => ?_, fun r t h => ?_, fun hnone => ?_, hc.reads,
    fun b hb => ?_, fun left hleft => ?_, hc.result⟩
  · rcases hserver with rfl | rfl <;> cases hr
  · rcases hserver with rfl | rfl <;> cases ht
  · rcases hserver with rfl | rfl <;> rcases h with h | h <;> cases h
  · rw [ha] at hnone
    cases hnone
  · obtain rfl := Option.some.inj (hb.symm.trans ha)
    refine ⟨rest.drop k, ?_⟩
    rw [← hsum]
    simp only [List.append_assoc, List.take_append_drop]
  · rcases hserver with rfl | rfl
    · obtain rfl := Server.writing.inj hleft
      refine ⟨a, ha, fun _ => ?_⟩
      rw [← hsum]
      simp only [List.append_assoc, List.take_append_drop]
    · cases hleft

/-- A step of the server changes the service at most by a call of the handler with the
request. -/
def Serves (handler : σ → String → Option String × σ) (svc svc' : σ) (c c' : Connection) : Prop :=
  (svc' = svc ∧ c'.answered = c.answered) ∨
    (c.answered = none ∧ c'.answered = some (answer (handler svc c.request).1) ∧
      svc' = (handler svc c.request).2)

/-- The server gives up between two operations, or at the end of one that it waited for. -/
theorem serverAbort_cases {io : Nat} {c c' : Connection} {e : ServerEvent}
    (hstep : serverAbort io c e = some c') : c.server.waiting = true ∧
      ∃ result took, (took = 0 ∨ c.waits io took = true) ∧
        c' = { c with clock := c.clock + took }.close result := by
  unfold serverAbort at hstep
  cases e with
  | fail e took =>
      obtain ⟨⟨hwaiting, hwaits⟩, rfl⟩ := of_guard hstep
      exact ⟨hwaiting, _, took, Or.inr hwaits, rfl⟩
  | expire =>
      cases hleft : remainingMs (c.deadline io) c.clock io with
      | ok t => simp [hleft] at hstep
      | error e =>
          simp only [hleft] at hstep
          obtain ⟨hwaiting, rfl⟩ := of_guard hstep
          exact ⟨hwaiting, _, 0, Or.inl rfl, rfl⟩
  | read | handle | write | drained => cases hstep

/-- A step of the server keeps the connection sound, and takes the service through a call of
the handler with the request of the connection or leaves it alone. -/
theorem serverStep_sound {handler : σ → String → Option String × σ} {io : Nat} {svc svc' : σ}
    {c c' : Connection} {e : ServerEvent} (hsmall : ∀ svc req, Small (answer (handler svc req).1))
    (hc : Sound c) (hstep : serverStep handler io svc c e = some (svc', c')) :
    Sound c' ∧ c'.request = c.request ∧ Serves handler svc svc' c c' := by
  have habort : ∀ {c'}, (serverAbort io c e).map (svc, ·) = some (svc', c') →
      Sound c' ∧ c'.request = c.request ∧ Serves handler svc svc' c c' := by
    intro c' hstep
    obtain ⟨d, hd, hsame⟩ := Option.map_eq_some_iff.mp hstep
    obtain ⟨rfl, rfl⟩ := Prod.mk.inj hsame
    obtain ⟨-, result, took, -, rfl⟩ := serverAbort_cases hd
    exact ⟨(hc.tick _).close result, rfl, Or.inl ⟨rfl, rfl⟩⟩
  unfold serverStep at hstep
  split at hstep
  next r k took hserver =>
    obtain ⟨⟨hpos, hroom, hup, -⟩, hstep⟩ := Option.ite_none_right_eq_some.mp hstep
    obtain ⟨hopen, rest, hrest, -⟩ := hc.requested r hserver
    have hchunk : (c.up.take k).length ≤ r.room := by
      rw [List.length_take]
      omega
    dsimp only at hstep
    cases htake : r.take (c.up.take k) with
    | more r' =>
        simp only [htake, Option.some.injEq, Prod.mk.injEq] at hstep
        obtain ⟨rfl, rfl⟩ := hstep
        obtain ⟨hopen', hbytes⟩ := Reading.take_more hopen hchunk htake
        exact ⟨(hc.server_read hserver hopen' hbytes).tick _, rfl, Or.inl ⟨rfl, rfl⟩⟩
    | refused e =>
        simp only [htake, Option.some.injEq, Prod.mk.injEq] at hstep
        obtain ⟨rfl, rfl⟩ := hstep
        exact ⟨(hc.tick _).close _, rfl, Or.inl ⟨rfl, rfl⟩⟩
    -- a whole frame holds the request that the client sent
    | frame text =>
        simp only [htake, Option.some.injEq, Prod.mk.injEq] at hstep
        obtain ⟨rfl, rfl⟩ := hstep
        have hfront : r.bytes ++ c.up.take k <+: frame (Utf8.bytes c.request) := by
          refine ⟨c.up.drop k ++ rest, ?_⟩
          rw [← List.append_assoc, List.append_assoc r.bytes, List.take_append_drop]
          exact hrest
        have hbytes := Reading.take_frame hopen hchunk hc.small.1 hfront htake
        obtain rfl := bytes_injective hbytes
        exact ⟨(hc.server_request hserver _).tick _, rfl, Or.inl ⟨rfl, rfl⟩⟩
  next text took hserver =>
    simp only [Option.some.injEq, Prod.mk.injEq] at hstep
    obtain ⟨rfl, rfl⟩ := hstep
    -- the one step that calls the handler
    obtain rfl := hc.passed text hserver
    exact ⟨(hc.server_reply hserver (hsmall svc _) took).tick _, rfl,
      Or.inr ⟨hc.early (.length []) _ (Or.inr hserver), rfl, rfl⟩⟩
  next rest k took hserver =>
    obtain ⟨⟨-, -, hdone, -⟩, hstep⟩ := Option.ite_none_right_eq_some.mp hstep
    simp only [Option.some.injEq, Prod.mk.injEq] at hstep
    obtain ⟨rfl, rfl⟩ := hstep
    have hafter : (if rest.drop k = [] then Server.draining else .writing (rest.drop k)) =
        .writing (rest.drop k) ∨
        (if rest.drop k = [] then Server.draining else .writing (rest.drop k)) = .draining := by
      split
      · exact Or.inr rfl
      · exact Or.inl rfl
    exact ⟨(hc.server_write hserver hdone hafter).tick _, rfl, Or.inl ⟨rfl, rfl⟩⟩
  next took hserver =>
    obtain ⟨-, hstep⟩ := Option.ite_none_right_eq_some.mp hstep
    simp only [Option.some.injEq, Prod.mk.injEq] at hstep
    obtain ⟨rfl, rfl⟩ := hstep
    exact ⟨(hc.tick _).close _, rfl, Or.inl ⟨rfl, rfl⟩⟩
  next => exact habort hstep

/-! ## Runs -/

/-- The calls of the handler that were answered, the earliest first. -/
def calls (connections : List Connection) : List (String × String) :=
  (connections.filterMap fun c => c.answered.map (c.request, ·)).reverse

/-- Call the handler with one request after another. -/
def replay (handler : σ → String → Option String × σ) (svc : σ) :
    List String → List (String × String) × σ
  | [] => ([], svc)
  | request :: requests =>
      let (later, final) := replay handler (handler svc request).2 requests
      ((request, answer (handler svc request).1) :: later, final)

theorem replay_append (handler : σ → String → Option String × σ) (svc : σ)
    (before : List String) (request : String) :
    replay handler svc (before ++ [request]) =
      ((replay handler svc before).1 ++
          [(request, answer (handler (replay handler svc before).2 request).1)],
        (handler (replay handler svc before).2 request).2) := by
  induction before generalizing svc with
  | nil => rfl
  | cons first before ih => simp only [List.cons_append, replay, ih]

/-- The service is where the answered requests lead, one after another. -/
structure Served (handler : σ → String → Option String × σ) (init : σ) (s : State σ) : Prop where
  sound : ∀ c ∈ s.connections, Sound c
  replayed : replay handler init ((calls s.connections).map Prod.fst) =
    (calls s.connections, s.service)

theorem calls_cons (c : Connection) (older : List Connection) :
    calls (c :: older) = calls older ++ (c.answered.map (c.request, ·)).toList := by
  unfold calls
  rw [List.filterMap_cons]
  cases c.answered with
  | none => simp
  | some a => simp

/-- What has no part in a connection but request and answer changes no calls. -/
theorem calls_set {connections : List Connection} {i : Nat} {c c' : Connection}
    (hc : connections[i]? = some c) (hrequest : c'.request = c.request)
    (hanswered : c'.answered = c.answered) : calls (connections.set i c') = calls connections := by
  induction connections generalizing i with
  | nil => simp at hc
  | cons d connections ih =>
      cases i with
      | zero =>
          obtain rfl : d = c := by simpa using hc
          rw [List.set_cons_zero, calls_cons, calls_cons, hanswered, hrequest]
      | succ i =>
          rw [List.set_cons_succ, calls_cons, calls_cons, ih (by simpa using hc)]

/-- Every request of a run fits the four bytes of a length. -/
def Action.Fits : Action → Prop
  | .accept request _ => Small request
  | _ => True

instance : DecidablePred Action.Fits := fun a =>
  match a with
  | .accept request _ => inferInstanceAs (Decidable (Small request))
  | .client _ _ | .server _ => .isTrue trivial

theorem step_served {handler : σ → String → Option String × σ} {io : Nat} {init : σ}
    (hsmall : ∀ svc req, Small (answer (handler svc req).1)) (s : State σ) (a : Action)
    (t : State σ) (hs : Served handler init s) (hfits : a.Fits)
    (hstep : step handler io s a = some t) : Served handler init t := by
  cases a with
  | accept request now =>
      obtain ⟨-, rfl⟩ := of_guard hstep
      refine ⟨List.forall_mem_cons.mpr ⟨sound_accept hfits now, hs.sound⟩, ?_⟩
      have hcalls : calls (Connection.accept request now :: s.connections) =
          calls s.connections := by rw [calls_cons]; exact List.append_nil _
      rw [hcalls]
      exact hs.replayed
  | client i e =>
      obtain ⟨c', hc', rfl⟩ := Option.map_eq_some_iff.mp hstep
      obtain ⟨c, hc, hclient⟩ := Option.bind_eq_some_iff.mp hc'
      obtain ⟨hsound, hrequest, hanswered⟩ :=
        clientStep_sound (hs.sound c (List.mem_of_getElem? hc)) hclient
      refine ⟨fun d hd => ?_, ?_⟩
      · rcases List.mem_or_eq_of_mem_set hd with hd | rfl
        exacts [hs.sound d hd, hsound]
      · rw [calls_set hc hrequest hanswered]
        exact hs.replayed
  | server e =>
      cases hconnections : s.connections with
      | nil => simp [step, hconnections] at hstep
      | cons c older =>
          simp only [step, hconnections] at hstep
          obtain ⟨⟨svc', c'⟩, hserver, rfl⟩ := Option.map_eq_some_iff.mp hstep
          have hsound := hs.sound
          have hreplayed := hs.replayed
          rw [hconnections, List.forall_mem_cons] at hsound
          rw [hconnections, calls_cons] at hreplayed
          obtain ⟨hc', hrequest, hserves⟩ := serverStep_sound hsmall hsound.1 hserver
          refine ⟨List.forall_mem_cons.mpr ⟨hc', hsound.2⟩, ?_⟩
          rw [calls_cons, hrequest]
          rcases hserves with ⟨rfl, hanswered⟩ | ⟨hnone, hanswered, rfl⟩
          · rw [hanswered]
            exact hreplayed
          · -- one more call of the handler, behind those of the older connections
            rw [hnone, Option.map_none, Option.toList_none, List.append_nil] at hreplayed
            rw [hanswered, Option.map_some, Option.toList_some, List.map_append, List.map_singleton,
              replay_append, hreplayed]

/-- However clients and server interleave, in whatever pieces the pipe moves the bytes, and
whoever fails when: the requests are handled one at a time in the order in which their
connections were accepted, each at most once and each as it was sent, and a client that gets an
answer gets all of the one answer that the handler gave to its own request. -/
theorem answers_delivered (handler : σ → String → Option String × σ) (io : Nat) (init : σ)
    (hsmall : ∀ svc req, Small (answer (handler svc req).1)) (actions : List Action) (s : State σ)
    (hfits : ∀ a ∈ actions, a.Fits)
    (hrun : run (step handler io) (State.start init) actions = some s) :
    replay handler init ((calls s.connections).map Prod.fst) = (calls s.connections, s.service) ∧
      ∀ c ∈ s.connections, ∀ text, c.client = .done (.ok text) →
        c.answered = some text ∧ (c.request, text) ∈ calls s.connections := by
  have hs : Served handler init s :=
    invariant_of_meets (fun s a t hs hfits => step_served hsmall s a t hs hfits)
      ⟨fun c hc => absurd hc List.not_mem_nil, rfl⟩ (meets_of_forall _ hfits) hrun
  refine ⟨hs.replayed, fun c hc text htext => ?_⟩
  have hanswered := (hs.sound c hc).result text htext
  refine ⟨hanswered, ?_⟩
  rw [calls, List.mem_reverse, List.mem_filterMap]
  exact ⟨c, hc, by rw [hanswered]; rfl⟩

/-- Two requests go through in pieces, and so do their answers. -/
def twoCalls : List Action :=
  [.accept "a" 0, .client 0 (.write 5), .server (.read 3 1), .server (.read 1 1),
    .server (.read 1 1), .server (.handle 7), .server (.write 5 1), .client 0 (.read 4),
    .client 0 (.read 1), .server (.drained 1), .accept "b" 20, .client 0 (.write 2),
    .server (.read 2 1), .client 0 (.write 3), .server (.read 2 1), .server (.read 1 1),
    .server (.handle 7), .server (.write 2 1), .client 0 (.read 2), .server (.write 3 1),
    .client 0 (.read 2), .client 0 (.read 1)]

/-- The service answers the first request with `x`, later ones with `y`. -/
def polite (n : Nat) (_ : String) : Option String × Nat :=
  (some (if n = 0 then "x" else "y"), n + 1)

theorem small_polite (n : Nat) (req : String) : Small (answer (polite n req).1) := by
  unfold polite
  dsimp only
  split
  · exact (by decide : Small "x")
  · exact (by decide : Small "y")

theorem answers_delivered_sample :
    ∃ s, run (step polite 5000) (State.start 0) twoCalls = some s ∧ s.service = 2 ∧
      s.connections.map Connection.client = [.done (.ok "y"), .done (.ok "x")] ∧
      calls s.connections = [("a", "x"), ("b", "y")] ∧
      replay polite 0 ((calls s.connections).map Prod.fst) = (calls s.connections, s.service) :=
  ⟨_, rfl, rfl, rfl, rfl,
    (answers_delivered polite 5000 0 small_polite twoCalls _ (by decide) rfl).1⟩

end PowerForensics.Pipe
