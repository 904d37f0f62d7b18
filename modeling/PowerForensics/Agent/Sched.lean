import Mathlib.Algebra.BigOperators.Fin
import Mathlib.Algebra.Order.BigOperators.Group.Finset
import Mathlib.Data.Fintype.BigOperators
import PowerForensics.System.Runs

/-! # Accounting of the scheduler

Workers count a message before they offer it to a bounded channel and the writer
discounts it once it is received; a worker that gives up on a message discounts it
itself. The count, its high-water mark, the channel and the stop flag are separate
cells, and every access to one of them is a step. When the writer leaves, the messages
that are still in the channel are released with its end of it.
-/

namespace PowerForensics.Sched

open Runs

/-! ## States -/

/-- Where a worker is. -/
inductive Phase where
  /-- Between messages: asleep, or collecting. -/
  | idle
  /-- The stop flag was found clear, and the message is about to be counted. -/
  | ready
  /-- The message is counted; the count was `n` then. -/
  | counted (n : Int)
  /-- About to compare `n` with the high-water mark last seen. -/
  | comparing (n max : Int)
  /-- About to look at the stop flag before the next try to send. -/
  | pending
  /-- About to try to send. -/
  | sending
  /-- The message was not queued and is about to be discounted. -/
  | unqueued
  | finished
  deriving DecidableEq

/-- Whether the worker has counted a message that is not queued. -/
def Phase.owed : Phase → Nat
  | idle | ready | finished => 0
  | counted _ | comparing _ _ | pending | sending | unqueued => 1

/-- Where the writer is. -/
inductive Writer where
  /-- About to receive. -/
  | receiving
  /-- Holds a message that is not discounted yet. -/
  | received
  /-- Handles a message. -/
  | processing
  /-- Has left the loop and is about to set the stop flag. -/
  | leaving
  /-- About to drop its end of the channel. -/
  | closing
  | closed
  deriving DecidableEq

def Writer.held : Writer → Nat
  | received => 1
  | _ => 0

/-- The counters of the scheduler. -/
structure SchedStats where
  inFlight : Int
  maxInFlight : Int
  deriving DecidableEq

variable {n : Nat}

structure State (n : Nat) where
  stats : SchedStats
  stop : Bool
  /-- The messages in the channel, by the worker that sent them. -/
  queue : List (Fin n)
  workers : Fin n → Phase
  writer : Writer
  /-- The counts that completed calls of `before_send` have seen. -/
  completed : List Int
  /-- The messages that were released with the receiving end. -/
  released : Nat

def State.start (n : Nat) : State n where
  stats := ⟨0, 0⟩
  stop := false
  queue := []
  workers _ := .idle
  writer := .receiving
  completed := []
  released := 0

/-! ## Steps -/

inductive Action (n : Nat) where
  /-- Worker `i` takes its next step; a compare-exchange may fail for no reason. -/
  | work (i : Fin n) (spurious : Bool)
  /-- The collector of worker `i` panics. -/
  | unwind (i : Fin n)
  | receive
  | account
  | process
  /-- The writer leaves the loop, on a stop request, a failed write or its limit. -/
  | leave
  | setStop
  | close
  /-- The console handler sets the stop flag. -/
  | signal
  deriving DecidableEq

def State.setPhase (s : State n) (i : Fin n) (p : Phase) : State n :=
  { s with workers := Function.update s.workers i p }

def State.closed (s : State n) : Bool := s.writer = .closed

/-- Whether the channel takes a message. One without places hands it over to a receiver. -/
def State.hasRoom (capacity : Nat) (s : State n) : Bool :=
  s.queue.length < capacity ∨ (capacity = 0 ∧ s.queue = [] ∧ s.writer = .receiving)

def SchedStats.increment (stats : SchedStats) : SchedStats :=
  { stats with inFlight := stats.inFlight + 1 }

def SchedStats.afterRecv (stats : SchedStats) : SchedStats :=
  { stats with inFlight := stats.inFlight - 1 }

/-- The next step of worker `i`. -/
def workStep (capacity : Nat) (s : State n) (i : Fin n) (spurious : Bool) : Option (State n) :=
  match s.workers i with
  | .idle => some (s.setPhase i (if s.stop then .finished else .ready))
  | .ready =>
      let stats := s.stats.increment
      some { s.setPhase i (.counted stats.inFlight) with stats }
  | .counted n => some (s.setPhase i (.comparing n s.stats.maxInFlight))
  | .comparing n max =>
      if n > max then
        if s.stats.maxInFlight = max ∧ !spurious then
          some { s.setPhase i .pending with
            stats := { s.stats with maxInFlight := n }
            completed := s.completed ++ [n] }
        else some (s.setPhase i (.comparing n s.stats.maxInFlight))
      else some { s.setPhase i .pending with completed := s.completed ++ [n] }
  | .pending => some (s.setPhase i (if s.stop then .unqueued else .sending))
  | .sending =>
      if s.closed then some (s.setPhase i .unqueued)
      else if s.hasRoom capacity then some { s.setPhase i .idle with queue := s.queue ++ [i] }
      else some (s.setPhase i .pending)
  | .unqueued => some { s.setPhase i .finished with stats := s.stats.afterRecv }
  | .finished => none

def step (capacity : Nat) (s : State n) (a : Action n) : Option (State n) :=
  match a with
  | .work i spurious => workStep capacity s i spurious
  | .unwind i => if s.workers i = .idle then some (s.setPhase i .finished) else none
  | .receive =>
      if s.writer = .receiving then
        match s.queue with
        | [] => none
        | _ :: queue => some { s with queue, writer := .received }
      else none
  | .account =>
      if s.writer = .received then
        some { s with stats := s.stats.afterRecv, writer := .processing }
      else none
  | .process => if s.writer = .processing then some { s with writer := .receiving } else none
  | .leave =>
      if s.writer = .receiving ∨ s.writer = .processing then some { s with writer := .leaving }
      else none
  | .setStop =>
      if s.writer = .leaving then some { s with stop := true, writer := .closing } else none
  | .close =>
      if s.writer = .closing then
        some { s with queue := [], released := s.released + s.queue.length, writer := .closed }
      else none
  | .signal => some { s with stop := true }

/-! ## The invariant -/

/-- The messages that are sent or about to be sent and not accounted as received. -/
def State.outstanding (s : State n) : Nat :=
  (∑ i, (s.workers i).owed) + s.queue.length + s.writer.held + s.released

structure Accounted (s : State n) : Prop where
  balance : s.stats.inFlight = s.outstanding
  peak : ∀ v ∈ s.completed, v ≤ s.stats.maxInFlight
  /-- The high-water mark has not fallen since a worker saw it. -/
  seen : ∀ i v max, s.workers i = .comparing v max → max ≤ s.stats.maxInFlight

theorem accounted_start : Accounted (State.start n) where
  balance := by simp [State.start, State.outstanding, Phase.owed, Writer.held]
  peak := by simp [State.start]
  seen := by simp [State.start]

/-- One worker moves on: only what it owes changes. -/
theorem sum_owed_update (workers : Fin n → Phase) (i : Fin n) (p : Phase) :
    (∑ j, (Function.update workers i p j).owed) + (workers i).owed =
      (∑ j, (workers j).owed) + p.owed := by
  have howed : ∀ j, (Function.update workers i p j).owed =
      Function.update (fun j => (workers j).owed) i p.owed j := by
    intro j
    exact Function.apply_update (fun _ q => Phase.owed q) workers i p j
  simp only [howed, Finset.sum_update_of_mem (Finset.mem_univ i)]
  have hsplit := Finset.add_sum_erase Finset.univ (fun j => (workers j).owed) (Finset.mem_univ i)
  rw [← hsplit, Finset.sdiff_singleton_eq_erase]
  omega

/-- A step of a worker keeps the balance if it changes the count by what it changes in its
own debt and in the channel, and the high-water mark must not fall. -/
theorem Accounted.of_move {s t : State n} (hs : Accounted s) (i : Fin n) {p : Phase}
    (hworkers : t.workers = Function.update s.workers i p) (hwriter : t.writer = s.writer)
    (hreleased : t.released = s.released)
    (hcount : t.stats.inFlight + s.queue.length + (s.workers i).owed =
      s.stats.inFlight + t.queue.length + p.owed)
    (hmax : s.stats.maxInFlight ≤ t.stats.maxInFlight)
    (hpeak : ∀ v ∈ t.completed, v ≤ t.stats.maxInFlight)
    (hsaw : ∀ v max, p = .comparing v max → max ≤ t.stats.maxInFlight) : Accounted t where
  balance := by
    have hsum := sum_owed_update s.workers i p
    have hbalance := hs.balance
    simp only [State.outstanding, hworkers, hwriter, hreleased] at hbalance ⊢
    omega
  peak := hpeak
  seen j v max hj := by
    rw [hworkers] at hj
    rcases eq_or_ne j i with rfl | hne
    · rw [Function.update_self] at hj
      exact hsaw v max hj
    · rw [Function.update_of_ne hne] at hj
      exact (hs.seen j v max hj).trans hmax

theorem Accounted.of_setPhase {s : State n} (hs : Accounted s) (i : Fin n) {p : Phase}
    (howed : p.owed = (s.workers i).owed)
    (hsaw : ∀ v max, p = .comparing v max → max ≤ s.stats.maxInFlight) :
    Accounted (s.setPhase i p) :=
  hs.of_move i rfl rfl rfl (by rw [howed]; rfl) le_rfl hs.peak hsaw

/-- The other steps change no worker and no high-water mark. -/
theorem Accounted.of_writer {s t : State n} (hs : Accounted s) (hworkers : t.workers = s.workers)
    (hcompleted : t.completed = s.completed)
    (hmax : t.stats.maxInFlight = s.stats.maxInFlight)
    (hcount : t.stats.inFlight + s.queue.length + s.writer.held + s.released =
      s.stats.inFlight + t.queue.length + t.writer.held + t.released) : Accounted t where
  balance := by
    have hbalance := hs.balance
    simp only [State.outstanding, hworkers] at hbalance ⊢
    omega
  peak := by
    rw [hcompleted, hmax]
    exact hs.peak
  seen := by
    rw [hworkers, hmax]
    exact hs.seen

/-- The high-water mark is raised to what the call has counted, or was above it. -/
theorem peak_append {completed : List Int} {old new v : Int} (hpeak : ∀ v ∈ completed, v ≤ old)
    (hold : old ≤ new) (hv : v ≤ new) : ∀ w ∈ completed ++ [v], w ≤ new := by
  intro w hw
  rcases List.mem_append.mp hw with hw | hw
  · exact (hpeak w hw).trans hold
  · obtain rfl := List.mem_singleton.mp hw
    exact hv

theorem workStep_accounted {capacity : Nat} {s t : State n} {i : Fin n} {spurious : Bool}
    (hs : Accounted s) (hstep : workStep capacity s i spurious = some t) : Accounted t := by
  unfold workStep at hstep
  cases hphase : s.workers i with
  | idle =>
      simp only [hphase, Option.some.injEq] at hstep
      subst hstep
      cases s.stop <;> exact hs.of_setPhase i (by rw [hphase]; rfl) nofun
  | ready =>
      simp only [hphase, Option.some.injEq] at hstep
      subst hstep
      refine hs.of_move i rfl rfl rfl ?_ le_rfl hs.peak nofun
      simp only [State.setPhase, SchedStats.increment, hphase, Phase.owed]
      omega
  | counted v =>
      simp only [hphase, Option.some.injEq] at hstep
      subst hstep
      refine hs.of_setPhase i (by rw [hphase]; rfl) fun v' max hp => ?_
      obtain ⟨-, rfl⟩ := Phase.comparing.inj hp
      exact le_rfl
  | comparing v max =>
      have hsaw := hs.seen i v max hphase
      simp only [hphase] at hstep
      split at hstep
      next hraise =>
        split at hstep
        next hequal =>
          -- the mark is still the one seen, and is raised
          simp only [Option.some.injEq] at hstep
          subst hstep
          have hle : s.stats.maxInFlight ≤ v := by rw [hequal.1]; exact hraise.le
          refine hs.of_move i rfl rfl rfl ?_ hle (peak_append hs.peak hle le_rfl) nofun
          simp [State.setPhase, hphase, Phase.owed]
        next =>
          simp only [Option.some.injEq] at hstep
          subst hstep
          refine hs.of_setPhase i (by rw [hphase]; rfl) fun v' max' hp => ?_
          obtain ⟨-, rfl⟩ := Phase.comparing.inj hp
          exact le_rfl
      next hraise =>
        simp only [Option.some.injEq] at hstep
        subst hstep
        have hle : v ≤ s.stats.maxInFlight := (not_lt.mp hraise).trans hsaw
        refine hs.of_move i rfl rfl rfl ?_ le_rfl (peak_append hs.peak le_rfl hle) nofun
        simp [State.setPhase, hphase, Phase.owed]
  | pending =>
      simp only [hphase, Option.some.injEq] at hstep
      subst hstep
      cases s.stop <;> exact hs.of_setPhase i (by rw [hphase]; rfl) nofun
  | sending =>
      simp only [hphase] at hstep
      split at hstep
      · simp only [Option.some.injEq] at hstep
        subst hstep
        exact hs.of_setPhase i (by rw [hphase]; rfl) nofun
      · split at hstep
        · -- the debt of the worker moves into the channel
          simp only [Option.some.injEq] at hstep
          subst hstep
          refine hs.of_move i rfl rfl rfl ?_ le_rfl hs.peak nofun
          simp only [State.setPhase, hphase, Phase.owed, List.length_append, List.length_singleton]
          omega
        · simp only [Option.some.injEq] at hstep
          subst hstep
          exact hs.of_setPhase i (by rw [hphase]; rfl) nofun
  | unqueued =>
      simp only [hphase, Option.some.injEq] at hstep
      subst hstep
      refine hs.of_move i rfl rfl rfl ?_ le_rfl hs.peak nofun
      simp only [State.setPhase, SchedStats.afterRecv, hphase, Phase.owed]
      omega
  | finished => simp only [hphase, reduceCtorEq] at hstep

theorem step_accounted {capacity : Nat} (s : State n) (a : Action n) (t : State n)
    (hs : Accounted s) (hstep : step capacity s a = some t) : Accounted t := by
  cases a with
  | work i spurious => exact workStep_accounted hs hstep
  | unwind i =>
      obtain ⟨hphase, rfl⟩ := of_guard hstep
      exact hs.of_setPhase i (by rw [hphase]; rfl) nofun
  | receive =>
      obtain ⟨hwriter, hstep⟩ := Option.ite_none_right_eq_some.mp hstep
      cases hqueue : s.queue with
      | nil => simp [hqueue] at hstep
      | cons i queue =>
          simp only [hqueue, Option.some.injEq] at hstep
          subst hstep
          refine hs.of_writer rfl rfl rfl ?_
          simp only [hqueue, hwriter, Writer.held, List.length_cons]
          omega
  | account =>
      obtain ⟨hwriter, rfl⟩ := of_guard hstep
      refine hs.of_writer rfl rfl rfl ?_
      simp only [SchedStats.afterRecv, hwriter, Writer.held]
      omega
  | process =>
      obtain ⟨hwriter, rfl⟩ := of_guard hstep
      exact hs.of_writer rfl rfl rfl (by rw [hwriter]; rfl)
  | leave =>
      obtain ⟨hwriter, rfl⟩ := of_guard hstep
      rcases hwriter with hwriter | hwriter <;>
        exact hs.of_writer rfl rfl rfl (by rw [hwriter]; rfl)
  | setStop =>
      obtain ⟨hwriter, rfl⟩ := of_guard hstep
      exact hs.of_writer rfl rfl rfl (by rw [hwriter]; rfl)
  | close =>
      obtain ⟨hwriter, rfl⟩ := of_guard hstep
      refine hs.of_writer rfl rfl rfl ?_
      simp only [hwriter, Writer.held, List.length_nil]
      omega
  | signal =>
      obtain rfl := Option.some.inj hstep
      exact hs.of_writer rfl rfl rfl rfl

theorem run_accounted {capacity : Nat} {actions : List (Action n)} {s : State n}
    (hrun : run (step capacity) (State.start n) actions = some s) : Accounted s :=
  invariant (fun _ _ _ hs => step_accounted _ _ _ hs) accounted_start hrun

/-- Whatever the workers and the writer do, in any order: the count is never negative, it is
the number of messages that are sent or about to be sent and not accounted as received, and
the high-water mark is at least every count that a completed call has seen. Once the workers
are joined and the channel is empty, the count is the number of messages that were released
with it, and zero if it was drained. -/
theorem inFlight_balanced (capacity : Nat) (actions : List (Action n)) (s : State n)
    (hrun : run (step capacity) (State.start n) actions = some s) :
    0 ≤ s.stats.inFlight ∧ s.stats.inFlight = s.outstanding ∧
      (∀ v ∈ s.completed, v ≤ s.stats.maxInFlight) ∧
      ((∀ i, s.workers i = .finished) → s.queue = [] → s.writer ≠ .received →
        s.stats.inFlight = s.released ∧ (s.released = 0 → s.stats.inFlight = 0)) := by
  have hs := run_accounted hrun
  refine ⟨?_, hs.balance, hs.peak, fun hjoined hempty hwriter => ?_⟩
  · rw [hs.balance]
    exact Int.natCast_nonneg _
  · have hheld : s.writer.held = 0 := by
      cases hw : s.writer <;> first | rfl | exact absurd hw hwriter
    have hcount : s.outstanding = s.released := by
      simp [State.outstanding, hjoined, Phase.owed, hempty, hheld]
    refine ⟨by rw [hs.balance, hcount], fun hdrained => ?_⟩
    rw [hs.balance, hcount, hdrained]
    rfl

/-- A worker sends one message, which the writer receives before both stop. -/
def oneMessage : List (Action 1) :=
  List.replicate 6 (.work 0 false) ++ [.receive, .account, .process, .signal, .work 0 false]

theorem inFlight_balanced_sample : ∃ s, run (step 1) (State.start 1) oneMessage = some s ∧
    s.completed = [1] ∧ s.stats.maxInFlight = 1 ∧ s.stats.inFlight = 0 :=
  ⟨_, rfl, rfl, rfl, ((inFlight_balanced 1 oneMessage _ rfl).2.2.2 (by decide) rfl nofun).2 rfl⟩

/-! ## Shutdown

Once the stop flag is set, nobody clears it. A worker looks at it before it collects and
before every try to send, so that each of its steps brings it closer to its end; a step of
the writer or of the console handler takes none of them back. Only a lost race for the
high-water mark repeats work, and every such race is won by another worker that leaves the
loop.
-/

/-- The steps a worker has left at most, where the high-water mark is `peak`. -/
def Phase.left (n : Nat) (peak : Int) : Phase → Nat
  | finished => 0
  | idle | unqueued => 1
  | pending => 2
  | sending => 3
  | comparing _ max => n + 3 + if max = peak then 0 else 1
  | counted _ => n + 4
  | ready => n + 5

def State.left (s : State n) : Nat := ∑ i, (s.workers i).left n s.stats.maxInFlight

def Action.isWork : Action n → Bool
  | .work _ spurious => !spurious
  | _ => false

theorem Phase.left_le (p : Phase) (n : Nat) (peak : Int) : p.left n peak ≤ n + 5 := by
  cases p <;> grind [Phase.left]

theorem State.left_le (s : State n) : s.left ≤ n * (n + 5) := by
  have hsum := Finset.sum_le_card_nsmul Finset.univ
    (fun i => (s.workers i).left n s.stats.maxInFlight) (n + 5) fun i _ => Phase.left_le _ _ _
  simpa [State.left] using hsum

/-- One term of a sum changes as it likes, the others rise by at most `c` each. -/
theorem sum_add_le {f g : Fin n → Nat} (i : Fin n) (c : Nat) (hothers : ∀ j ≠ i, g j ≤ f j + c) :
    ∑ j, g j + f i ≤ ∑ j, f j + g i + (n - 1) * c := by
  have hf := Finset.add_sum_erase Finset.univ f (Finset.mem_univ i)
  have hg := Finset.add_sum_erase Finset.univ g (Finset.mem_univ i)
  have hrest : ∑ j ∈ Finset.univ.erase i, g j ≤ ∑ j ∈ Finset.univ.erase i, (f j + c) :=
    Finset.sum_le_sum fun j hj => hothers j (Finset.ne_of_mem_erase hj)
  rw [Finset.sum_add_distrib, Finset.sum_const, Finset.card_erase_of_mem (Finset.mem_univ i),
    Finset.card_univ, Fintype.card_fin, smul_eq_mul] at hrest
  omega

/-- A worker that moves on under an unchanged high-water mark has fewer steps left. -/
theorem left_of_move {s t : State n} {i : Fin n} {p : Phase} {k : Nat}
    (hworkers : t.workers = Function.update s.workers i p)
    (hpeak : t.stats.maxInFlight = s.stats.maxInFlight)
    (hless : p.left n s.stats.maxInFlight + k ≤ (s.workers i).left n s.stats.maxInFlight) :
    t.left + k ≤ s.left := by
  have hsum := sum_add_le (f := fun j => (s.workers j).left n s.stats.maxInFlight)
    (g := fun j => (t.workers j).left n t.stats.maxInFlight) i 0 fun j hj => by
      simp only [hworkers, hpeak, Function.update_of_ne hj, Nat.add_zero, le_refl]
  simp only [hworkers, hpeak, Function.update_self] at hsum
  simp only [State.left, hworkers, hpeak]
  omega

/-- The winner of a race for the mark makes the value stale that the others have seen. -/
theorem left_of_raise {s t : State n} {i : Fin n} {v max : Int}
    (hphase : s.workers i = .comparing v max)
    (hworkers : t.workers = Function.update s.workers i .pending) : t.left + 1 ≤ s.left := by
  have hpos : 0 < n := i.pos
  have hstale : ∀ (p : Phase) (peak peak' : Int), p.left n peak' ≤ p.left n peak + 1 := by
    intro p peak peak'
    cases p <;> grind [Phase.left]
  have hsum := sum_add_le (f := fun j => (s.workers j).left n s.stats.maxInFlight)
    (g := fun j => (t.workers j).left n t.stats.maxInFlight) i 1 fun j hj => by
      simp only [hworkers, Function.update_of_ne hj]
      exact hstale _ _ _
  have hold : n + 3 ≤ (s.workers i).left n s.stats.maxInFlight := by
    rw [hphase]
    simp only [Phase.left]
    omega
  have hnew : (t.workers i).left n t.stats.maxInFlight = 2 := by
    rw [hworkers, Function.update_self]
    rfl
  simp only [State.left] at hsum ⊢
  omega

theorem left_of_still {s t : State n} (hworkers : t.workers = s.workers)
    (hpeak : t.stats.maxInFlight = s.stats.maxInFlight) : t.left = s.left := by
  simp only [State.left, hworkers, hpeak]

/-- With the stop flag set, a step of a worker that is not a spurious failure of its
compare-exchange brings the shutdown closer, and a spurious one does not set it back. -/
theorem workStep_left {capacity : Nat} {s t : State n} {i : Fin n} {spurious : Bool}
    (hstop : s.stop = true) (hstep : workStep capacity s i spurious = some t) :
    t.left + (!spurious).toNat ≤ s.left := by
  have hone : (!spurious).toNat ≤ 1 := Bool.toNat_le _
  unfold workStep at hstep
  cases hphase : s.workers i with
  | idle =>
      simp only [hphase, hstop, reduceIte, Option.some.injEq] at hstep
      subst hstep
      exact left_of_move rfl rfl (by rw [hphase]; simpa [Phase.left] using hone)
  | ready =>
      simp only [hphase, Option.some.injEq] at hstep
      subst hstep
      refine left_of_move rfl rfl ?_
      rw [hphase]
      simp only [Phase.left]
      omega
  | counted v =>
      simp only [hphase, Option.some.injEq] at hstep
      subst hstep
      refine left_of_move rfl rfl ?_
      rw [hphase]
      simp only [Phase.left, reduceIte]
      omega
  | comparing v max =>
      simp only [hphase] at hstep
      split at hstep
      next =>
        split at hstep
        next =>
          simp only [Option.some.injEq] at hstep
          subst hstep
          exact (Nat.add_le_add_left hone _).trans (left_of_raise hphase rfl)
        next hlost =>
          -- the mark was raised by another worker, or the failure is spurious
          simp only [Option.some.injEq] at hstep
          subst hstep
          refine left_of_move rfl rfl ?_
          rw [hphase]
          simp only [Phase.left, reduceIte]
          by_cases hsame : max = s.stats.maxInFlight
          · have hspurious : spurious = true := by
              by_contra hfalse
              exact hlost ⟨hsame.symm, by simpa using hfalse⟩
            simp [hspurious]
          · rw [if_neg hsame]
            omega
      next =>
        simp only [Option.some.injEq] at hstep
        subst hstep
        refine left_of_move rfl rfl ?_
        rw [hphase]
        simp only [Phase.left]
        omega
  | pending =>
      simp only [hphase, hstop, reduceIte, Option.some.injEq] at hstep
      subst hstep
      refine left_of_move rfl rfl ?_
      rw [hphase]
      simp only [Phase.left]
      omega
  | sending =>
      simp only [hphase] at hstep
      split at hstep
      · simp only [Option.some.injEq] at hstep
        subst hstep
        refine left_of_move rfl rfl ?_
        rw [hphase]
        simp only [Phase.left]
        omega
      · split at hstep <;> simp only [Option.some.injEq] at hstep <;> subst hstep <;>
          refine left_of_move rfl rfl ?_ <;> rw [hphase] <;> simp only [Phase.left] <;> omega
  | unqueued =>
      simp only [hphase, Option.some.injEq] at hstep
      subst hstep
      refine left_of_move rfl rfl ?_
      rw [hphase]
      simp only [Phase.left]
      omega
  | finished => simp only [hphase, reduceCtorEq] at hstep

theorem workStep_stop {capacity : Nat} {s t : State n} {i : Fin n} {spurious : Bool}
    (hstep : workStep capacity s i spurious = some t) : t.stop = s.stop := by
  unfold workStep at hstep
  cases hphase : s.workers i <;> simp only [hphase] at hstep <;> grind [State.setPhase]

/-- Nobody clears the stop flag. -/
theorem step_stop {capacity : Nat} (s : State n) (a : Action n) (t : State n)
    (hstop : s.stop = true) (hstep : step capacity s a = some t) : t.stop = true := by
  cases a with
  | work i spurious => exact (workStep_stop hstep).trans hstop
  | receive =>
      obtain ⟨-, hstep⟩ := Option.ite_none_right_eq_some.mp hstep
      cases hqueue : s.queue <;> simp only [hqueue, reduceCtorEq, Option.some.injEq] at hstep
      exact hstep ▸ hstop
  | signal => exact Option.some.inj hstep ▸ rfl
  | unwind | account | process | leave | setStop | close =>
      obtain ⟨-, rfl⟩ := of_guard hstep
      first | exact hstop | rfl

theorem step_left {capacity : Nat} (s : State n) (a : Action n) (t : State n)
    (hstop : s.stop = true) (hstep : step capacity s a = some t) :
    t.left + a.isWork.toNat ≤ s.left := by
  cases a with
  | work i spurious => exact workStep_left hstop hstep
  | unwind i =>
      obtain ⟨hphase, rfl⟩ := of_guard hstep
      exact left_of_move rfl rfl (by rw [hphase]; simp [Phase.left, Action.isWork])
  | receive =>
      obtain ⟨-, hstep⟩ := Option.ite_none_right_eq_some.mp hstep
      cases hqueue : s.queue <;> simp only [hqueue, reduceCtorEq, Option.some.injEq] at hstep
      exact hstep ▸ (left_of_still rfl rfl).le
  | signal => exact Option.some.inj hstep ▸ (left_of_still rfl rfl).le
  | account | process | leave | setStop | close =>
      obtain ⟨-, rfl⟩ := of_guard hstep
      exact (left_of_still rfl rfl).le

/-- A worker that has not finished always has a step to take: it waits for nobody. -/
theorem workStep_isSome {capacity : Nat} {s : State n} {i : Fin n} (spurious : Bool)
    (hphase : s.workers i ≠ .finished) : (workStep capacity s i spurious).isSome := by
  unfold workStep
  cases hcase : s.workers i <;> grind

/-- The workers alone can end the shutdown. -/
theorem exists_finish {capacity : Nat} (s : State n) (hstop : s.stop = true) :
    ∃ actions t, (∀ a ∈ actions, Action.isWork a = true) ∧
      run (step capacity) s actions = some t ∧ ∀ i, t.workers i = .finished := by
  induction hleft : s.left using Nat.strong_induction_on generalizing s with
  | _ left ih =>
      by_cases hdone : ∀ i, s.workers i = .finished
      · exact ⟨[], s, nofun, rfl, hdone⟩
      · obtain ⟨i, hphase⟩ := not_forall.mp hdone
        obtain ⟨next, hnext⟩ : ∃ next, workStep capacity s i false = some next :=
          Option.isSome_iff_exists.mp (workStep_isSome false hphase)
        have hless := workStep_left hstop hnext
        obtain ⟨actions, t, hwork, hrun, hend⟩ :=
          ih next.left (by simp at hless; omega) next ((workStep_stop hnext).trans hstop) rfl
        refine ⟨.work i false :: actions, t, ?_, ?_, hend⟩
        · rintro a (_ | ⟨_, ha⟩)
          exacts [rfl, hwork a ha]
        · rw [run_cons, step, hnext]
          exact hrun

/-- However the workers, the writer and the console handler interleave and whatever the
capacity of the channel is: once the stop flag is set, the workers take at most `n * (n + 5)`
more steps in all, spurious failures of the compare-exchange apart. A worker that has not
finished can always take its next one, also if the channel is full and nobody receives, and
from every state on the way the workers finish by their own steps. -/
theorem shutdown_bounded (capacity : Nat) (actions : List (Action n)) (s t : State n)
    (hstop : s.stop = true) (hrun : run (step capacity) s actions = some t) :
    actions.countP Action.isWork ≤ n * (n + 5) ∧
      (∀ i, t.workers i ≠ .finished → ∃ u, step capacity t (.work i false) = some u) ∧
      ∃ rest u, (∀ a ∈ rest, Action.isWork a = true) ∧
        run (step capacity) t rest = some u ∧ ∀ i, u.workers i = .finished := by
  refine ⟨?_, fun i hphase => ?_, ?_⟩
  · have hcount := count_le_measure step_stop step_left hstop hrun
    have hleft := s.left_le
    omega
  · exact Option.isSome_iff_exists.mp (workStep_isSome false hphase)
  · exact exists_finish t (invariant step_stop hstop hrun)

/-- A worker finds the channel full, the stop flag is set, and it leaves. -/
def fullChannel : State 1 :=
  { State.start 1 with stop := true, queue := [0], workers := fun _ => .sending }

theorem shutdown_bounded_sample :
    [Action.work (0 : Fin 1) false, .work 0 false, .work 0 false].countP Action.isWork ≤ 6 :=
  (shutdown_bounded 1 [.work 0 false, .work 0 false, .work 0 false] fullChannel _ rfl rfl).1

end PowerForensics.Sched
