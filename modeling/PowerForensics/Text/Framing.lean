import Mathlib.Data.List.Infix

/-! # Messages on a byte stream

A reader takes one message off the front of a buffer, asks for more bytes, or gives up.
Bytes arrive in chunks; after each chunk the reader is called until it asks for more.
Where the chunks are cut makes no difference to the messages that are taken.
-/

namespace Framing

variable {α β ε : Type}

/-- What a reader has taken off the stream, what it has not, and why it gave up. -/
structure Pump (α β ε : Type) where
  taken : List α
  buffer : List β
  fault : Option ε
  deriving DecidableEq

def Pump.start : Pump α β ε := ⟨[], [], none⟩

section Reader

variable (next : List β → Except ε (Option (α × Nat)))

/-- Call the reader at most a given number of times. -/
def drainUpTo : Nat → List β → Pump α β ε
  | 0, buffer => ⟨[], buffer, none⟩
  | n + 1, buffer =>
      match next buffer with
      | .error e => ⟨[], buffer, some e⟩
      | .ok none => ⟨[], buffer, none⟩
      | .ok (some (message, used)) =>
          let later := drainUpTo n (buffer.drop used)
          { later with taken := message :: later.taken }

/-- Call the reader until it asks for more; no message is empty. -/
def drain (buffer : List β) : Pump α β ε := drainUpTo next (buffer.length + 1) buffer

/-- A chunk arrives. Nothing is read any more once the reader has given up. -/
def Pump.feed (pump : Pump α β ε) (chunk : List β) : Pump α β ε :=
  match pump.fault with
  | some _ => { pump with buffer := pump.buffer ++ chunk }
  | none =>
      let later := drain next (pump.buffer ++ chunk)
      { later with taken := pump.taken ++ later.taken }

/-- The chunks arrive one after another. -/
def receive (chunks : List (List β)) : Pump α β ε := chunks.foldl (Pump.feed next) .start

end Reader

/-! ## Fronts of a stream -/

/-- Bytes of a frame that has not fully arrived. -/
def Torn (frame front : List β) : Prop := front <+: frame ∧ front ≠ frame

/-- A reader takes exactly the frames of an encoding. -/
structure Exact (next : List β → Except ε (Option (α × Nat))) (encode : α → List β)
    (Fits : α → Prop) : Prop where
  whole : ∀ {m}, Fits m → ∀ later, next (encode m ++ later) = .ok (some (m, (encode m).length))
  torn : ∀ {m front}, Fits m → Torn (encode m) front → next front = .ok none
  idle : next [] = .ok none

/-- The bytes after the last whole message: the start of the next frame, if there is one. -/
def Pending (encode : α → List β) (messages : List α) (last tail : List β) : Prop :=
  match messages with
  | [] => tail <+: last
  | m :: _ => Torn (encode m) tail

/-- A front of a stream is some whole frames and a torn one. -/
theorem front_of_stream (encode : α → List β) (messages : List α) (last front : List β)
    (hfront : front <+: messages.flatMap encode ++ last) :
    ∃ read rest tail, messages = read ++ rest ∧ front = read.flatMap encode ++ tail ∧
      Pending encode rest last tail := by
  induction messages generalizing front with
  | nil => exact ⟨[], [], front, rfl, rfl, hfront⟩
  | cons m messages ih =>
      rw [List.flatMap_cons, List.append_assoc] at hfront
      by_cases hshort : Torn (encode m) front
      · exact ⟨[], m :: messages, front, rfl, rfl, hshort⟩
      · -- not torn, so the first frame has fully arrived
        have hwhole : encode m <+: front := by
          rcases List.prefix_or_prefix_of_prefix hfront (List.prefix_append _ _) with hle | hle
          · by_contra hnot
            exact hshort ⟨hle, fun heq => hnot (heq ▸ List.prefix_refl _)⟩
          · exact hle
        obtain ⟨later, rfl⟩ := hwhole
        rw [List.prefix_append_right_inj] at hfront
        obtain ⟨read, rest, tail, hmessages, hlater, hpending⟩ := ih later hfront
        refine ⟨m :: read, rest, tail, ?_, ?_, hpending⟩
        · rw [hmessages, List.cons_append]
        · rw [hlater, List.flatMap_cons, List.append_assoc]

/-! ## Exact readers -/

section Exact

variable {next : List β → Except ε (Option (α × Nat))} {encode : α → List β} {Fits : α → Prop}

theorem Exact.encode_ne_nil (hexact : Exact next encode Fits) {m : α} (hfits : Fits m) :
    encode m ≠ [] := by
  intro hnil
  have hread := hexact.whole hfits []
  rw [hnil, List.append_nil, hexact.idle] at hread
  cases hread

/-- Whole frames are taken off, and then the reader sees what is behind them. -/
theorem Exact.drainUpTo_append (hexact : Exact next encode Fits) {messages : List α}
    (hfits : ∀ m ∈ messages, Fits m) (tail : List β) (n : Nat) :
    drainUpTo next (messages.length + n) (messages.flatMap encode ++ tail) =
      { drainUpTo next n tail with taken := messages ++ (drainUpTo next n tail).taken } := by
  induction messages with
  | nil => simp
  | cons m messages ih =>
      rw [List.forall_mem_cons] at hfits
      have hcount : (m :: messages).length + n = messages.length + n + 1 := by
        rw [List.length_cons]
        omega
      rw [hcount, drainUpTo, List.flatMap_cons, List.append_assoc, hexact.whole hfits.1]
      dsimp only
      rw [List.drop_left, ih hfits.2]
      simp

theorem Exact.length_le (hexact : Exact next encode Fits) {messages : List α}
    (hfits : ∀ m ∈ messages, Fits m) : messages.length ≤ (messages.flatMap encode).length := by
  induction messages with
  | nil => simp
  | cons m messages ih =>
      rw [List.forall_mem_cons] at hfits
      have hpos := List.length_pos_of_ne_nil (hexact.encode_ne_nil hfits.1)
      have hrest := ih hfits.2
      rw [List.flatMap_cons, List.length_append, List.length_cons]
      omega

/-- The bytes on which a reader asks for more, however few of them have arrived. -/
def Waits (next : List β → Except ε (Option (α × Nat))) (last : List β) : Prop :=
  ∀ front, front <+: last → next front = .ok none

/-- Bytes on which a reader gives up as soon as they have all arrived. -/
structure Refused (next : List β → Except ε (Option (α × Nat))) (bad : List β) (e : ε) :
    Prop where
  refuse : ∀ later, next (bad ++ later) = .error e
  wait : Waits next bad.dropLast

/-- The buffer is drained down to the bytes where the reader stops. -/
theorem Exact.drain_append (hexact : Exact next encode Fits) {messages : List α}
    (hfits : ∀ m ∈ messages, Fits m) {tail : List β} {fault : Option ε}
    (hstop : ∀ n, drainUpTo next (n + 1) tail = ⟨[], tail, fault⟩) :
    drain next (messages.flatMap encode ++ tail) = ⟨messages, tail, fault⟩ := by
  have hcount := hexact.length_le hfits
  obtain ⟨n, hn⟩ : ∃ n, (messages.flatMap encode ++ tail).length + 1 =
      messages.length + (n + 1) := by
    refine ⟨(messages.flatMap encode ++ tail).length - messages.length, ?_⟩
    rw [List.length_append]
    omega
  rw [drain, hn, hexact.drainUpTo_append hfits, hstop]
  simp

theorem Exact.pending_waits (hexact : Exact next encode Fits) {messages : List α}
    (hfits : ∀ m ∈ messages, Fits m) {last tail : List β} (hwaits : Waits next last)
    (hpending : Pending encode messages last tail) : next tail = .ok none := by
  cases messages with
  | nil => exact hwaits tail hpending
  | cons m messages => exact hexact.torn (hfits m (List.mem_cons_self ..)) hpending

theorem receive_append_chunk (chunks : List (List β)) (chunk : List β) :
    receive next (chunks ++ [chunk]) = (receive next chunks).feed next chunk := by
  simp [receive]

/-- However a stream is cut into chunks, the messages taken so far are the ones whose frames
have arrived, and the buffer holds the bytes behind them. -/
theorem Exact.receive_front (hexact : Exact next encode Fits) {messages : List α}
    (hfits : ∀ m ∈ messages, Fits m) {last : List β} (hwaits : Waits next last)
    {chunks : List (List β)} (harrived : chunks.flatten <+: messages.flatMap encode ++ last) :
    ∃ read rest buffer, messages = read ++ rest ∧ receive next chunks = ⟨read, buffer, none⟩ ∧
      chunks.flatten = read.flatMap encode ++ buffer ∧ Pending encode rest last buffer := by
  induction chunks using List.reverseRecOn with
  | nil =>
      refine ⟨[], messages, [], rfl, rfl, rfl, ?_⟩
      cases messages with
      | nil => exact List.nil_prefix
      | cons m messages =>
          have hne := hexact.encode_ne_nil (hfits m (List.mem_cons_self ..))
          exact ⟨List.nil_prefix, hne.symm⟩
  | append_singleton chunks chunk ih =>
      simp only [List.flatten_append, List.flatten_cons, List.flatten_nil, List.append_nil]
        at harrived ⊢
      obtain ⟨read, rest, buffer, rfl, hstate, hbytes, -⟩ :=
        ih ((List.prefix_append _ _).trans harrived)
      rw [hbytes, List.flatMap_append, List.append_assoc, List.append_assoc,
        List.prefix_append_right_inj] at harrived
      obtain ⟨more, rest, tail, rfl, hmore, hpending⟩ :=
        front_of_stream encode rest last (buffer ++ chunk) harrived
      have hfits' : (∀ m ∈ more, Fits m) ∧ ∀ m ∈ rest, Fits m := by
        simp only [List.forall_mem_append] at hfits
        exact hfits.2
      have hdrain : drain next (buffer ++ chunk) = ⟨more, tail, none⟩ := by
        rw [hmore]
        refine hexact.drain_append hfits'.1 fun n => ?_
        rw [drainUpTo, hexact.pending_waits hfits'.2 hwaits hpending]
      refine ⟨read ++ more, rest, tail, (List.append_assoc ..).symm, ?_, ?_, hpending⟩
      · rw [receive_append_chunk, hstate, Pump.feed]
        dsimp only
        rw [hdrain]
      · rw [hbytes, List.append_assoc, hmore, List.flatMap_append, List.append_assoc]

/-- A stream of whole frames gives back its messages and leaves nothing. -/
theorem Exact.receive_all (hexact : Exact next encode Fits) {messages : List α}
    (hfits : ∀ m ∈ messages, Fits m) {chunks : List (List β)}
    (harrived : chunks.flatten = messages.flatMap encode) :
    receive next chunks = ⟨messages, [], none⟩ := by
  have hidle : Waits next ([] : List β) := by
    intro front hfront
    rw [List.prefix_nil.mp hfront, hexact.idle]
  have hwhole : chunks.flatten <+: messages.flatMap encode ++ [] := by rw [harrived, List.append_nil]
  obtain ⟨read, rest, buffer, rfl, hstate, hbytes, hpending⟩ :=
    hexact.receive_front hfits hidle hwhole
  rw [harrived, List.flatMap_append, List.append_cancel_left_eq] at hbytes
  cases rest with
  | nil =>
      rw [hstate, ← hbytes]
      simp
  | cons m rest =>
      -- a whole frame is no torn one
      obtain ⟨hfront, hne⟩ := hpending
      rw [← hbytes, List.flatMap_cons] at hfront hne
      exact absurd (List.IsPrefix.eq_of_length_le hfront (by simp)) hne

/-- The messages before the bytes that the reader refuses are taken, and nothing after. -/
theorem Exact.receive_refused (hexact : Exact next encode Fits) {messages : List α}
    (hfits : ∀ m ∈ messages, Fits m) {bad : List β} {e : ε} (hbad : Refused next bad e)
    {chunks : List (List β)} (harrived : messages.flatMap encode ++ bad <+: chunks.flatten) :
    (receive next chunks).taken = messages ∧ (receive next chunks).fault = some e := by
  have hne : bad ≠ [] := by
    rintro rfl
    have hnone := hbad.refuse []
    rw [List.append_nil, hexact.idle] at hnone
    cases hnone
  induction chunks using List.reverseRecOn with
  | nil =>
      have hnil := List.append_eq_nil_iff.mp (List.prefix_nil.mp harrived)
      exact absurd hnil.2 hne
  | append_singleton chunks chunk ih =>
      rw [receive_append_chunk]
      by_cases hbefore : messages.flatMap encode ++ bad <+: chunks.flatten
      · obtain ⟨htaken, hfault⟩ := ih hbefore
        simp only [Pump.feed, hfault, htaken, and_self]
      · simp only [List.flatten_append, List.flatten_cons, List.flatten_nil, List.append_nil]
          at harrived
        -- the chunks so far end before the last byte of the refused ones
        have hshort : chunks.flatten <+: messages.flatMap encode ++ bad.dropLast := by
          have hfront : chunks.flatten <+: messages.flatMap encode ++ bad := by
            rcases List.prefix_or_prefix_of_prefix harrived (List.prefix_append _ chunk) with
              hle | hle
            · exact absurd hle hbefore
            · exact hle
          have hlast : messages.flatMap encode ++ bad.dropLast =
              (messages.flatMap encode ++ bad).dropLast := by
            rw [List.dropLast_append_of_ne_nil hne]
          rw [hlast]
          refine List.prefix_of_prefix_length_le hfront (List.dropLast_prefix _) ?_
          have hlt : chunks.flatten.length < (messages.flatMap encode ++ bad).length := by
            refine lt_of_le_of_ne hfront.length_le fun heq => hbefore ?_
            rw [hfront.eq_of_length heq]
          rw [List.length_dropLast]
          omega
        obtain ⟨read, rest, buffer, rfl, hstate, hbytes, -⟩ :=
          hexact.receive_front hfits hbad.wait hshort
        rw [hbytes, List.flatMap_append, List.append_assoc, List.append_assoc,
          List.prefix_append_right_inj] at harrived
        obtain ⟨later, hlater⟩ := harrived
        have hfits' : ∀ m ∈ rest, Fits m := by
          simp only [List.forall_mem_append] at hfits
          exact hfits.2
        have hdrain : drain next (buffer ++ chunk) = ⟨rest, bad ++ later, some e⟩ := by
          rw [← hlater, List.append_assoc]
          refine hexact.drain_append hfits' fun n => ?_
          rw [drainUpTo, hbad.refuse]
        rw [hstate, Pump.feed]
        dsimp only
        rw [hdrain]
        exact ⟨rfl, rfl⟩

end Exact

end Framing
