import Mathlib.Data.List.Basic

/-! # Runs of a step function

A system takes one action at a time; an action that cannot be taken in a state has no
next state. A run is a list of actions. What holds at the start and is kept by every
step holds after every run, and a run may be restricted to steps that meet a condition
on the state they are taken in.
-/

namespace Runs

variable {State Action : Type}

/-- Take the actions one after another. -/
def run (step : State → Action → Option State) (s : State) (actions : List Action) :
    Option State := actions.foldlM step s

section

variable {step : State → Action → Option State}

@[simp] theorem run_nil (s : State) : run step s [] = some s := rfl

theorem run_cons (s : State) (a : Action) (actions : List Action) :
    run step s (a :: actions) = (step s a).bind fun t => run step t actions := rfl

theorem run_append (s : State) (before after : List Action) :
    run step s (before ++ after) = (run step s before).bind fun t => run step t after := by
  simp only [run, List.foldlM_append, bind]

/-- A run that meets a condition at every step it takes. -/
def Meets (step : State → Action → Option State) (condition : State → Action → Prop)
    (s : State) : List Action → Prop
  | [] => True
  | a :: actions => condition s a ∧ ∀ t ∈ step s a, Meets step condition t actions

/-- A run whose first step is known meets a condition if the step and the rest do. -/
theorem meets_cons {condition : State → Action → Prop} {s t : State} {a : Action}
    {actions : List Action} (hstep : step s a = some t) :
    Meets step condition s (a :: actions) ↔ condition s a ∧ Meets step condition t actions := by
  simp only [Meets, hstep, Option.mem_def, Option.some.injEq, forall_eq']

theorem meets_append {condition : State → Action → Prop} {s t : State}
    {before after : List Action} (hrun : run step s before = some t) :
    Meets step condition s (before ++ after) ↔
      Meets step condition s before ∧ Meets step condition t after := by
  induction before generalizing s with
  | nil =>
      rw [run_nil, Option.some.injEq] at hrun
      rw [hrun, List.nil_append, Meets, true_and]
  | cons a before ih =>
      rw [run_cons, Option.bind_eq_some_iff] at hrun
      obtain ⟨next, hnext, hrun⟩ := hrun
      rw [List.cons_append, meets_cons hnext, meets_cons hnext, ih hrun, and_assoc]

/-- A condition on the actions alone is met by a run of actions that meet it. -/
theorem meets_of_forall {P : Action → Prop} {actions : List Action} (s : State)
    (hactions : ∀ a ∈ actions, P a) : Meets step (fun _ a => P a) s actions := by
  induction actions generalizing s with
  | nil => trivial
  | cons a actions ih =>
      rw [List.forall_mem_cons] at hactions
      exact ⟨hactions.1, fun t _ => ih t hactions.2⟩

/-- What every step that meets the condition keeps, a run that meets it keeps. -/
theorem invariant_of_meets {condition : State → Action → Prop} {Inv : State → Prop}
    (hstep : ∀ s a t, Inv s → condition s a → step s a = some t → Inv t)
    {s t : State} {actions : List Action} (hs : Inv s) (hmeets : Meets step condition s actions)
    (hrun : run step s actions = some t) : Inv t := by
  induction actions generalizing s with
  | nil =>
      rw [run_nil, Option.some.injEq] at hrun
      exact hrun ▸ hs
  | cons a actions ih =>
      rw [run_cons, Option.bind_eq_some_iff] at hrun
      obtain ⟨next, hnext, hrun⟩ := hrun
      exact ih (hstep s a next hs hmeets.1 hnext) (hmeets.2 next hnext) hrun

/-- Where a step keeps something good exactly if it meets the condition, so does a run. -/
theorem good_iff_meets {condition : State → Action → Prop} {Inv Good : State → Prop}
    (hstep : ∀ s a t, Inv s → step s a = some t → Inv t ∧ (Good t ↔ Good s ∧ condition s a))
    {s t : State} {actions : List Action} (hs : Inv s) (hrun : run step s actions = some t) :
    Good t ↔ Good s ∧ Meets step condition s actions := by
  induction actions generalizing s with
  | nil =>
      rw [run_nil, Option.some.injEq] at hrun
      rw [hrun, Meets, and_true]
  | cons a actions ih =>
      rw [run_cons, Option.bind_eq_some_iff] at hrun
      obtain ⟨next, hnext, hrun⟩ := hrun
      obtain ⟨hinv, hgood⟩ := hstep s a next hs hnext
      rw [ih hinv hrun, hgood, meets_cons hnext, and_assoc]

/-- Two conditions that agree wherever the invariant holds, and of which the second keeps it, are
met by the same runs. -/
theorem meets_congr {condition other : State → Action → Prop} {Inv : State → Prop}
    (hagree : ∀ s a, Inv s → (condition s a ↔ other s a))
    (hstep : ∀ s a t, Inv s → other s a → step s a = some t → Inv t)
    {s : State} {actions : List Action} (hs : Inv s) :
    Meets step condition s actions ↔ Meets step other s actions := by
  induction actions generalizing s with
  | nil => exact Iff.rfl
  | cons a actions ih =>
      simp only [Meets, hagree s a hs]
      refine and_congr_right fun hother => ?_
      exact forall₂_congr fun t ht => ih (hstep s a t hs hother ht)

/-- What every step keeps, a run keeps. -/
theorem invariant {Inv : State → Prop} (hstep : ∀ s a t, Inv s → step s a = some t → Inv t)
    {s t : State} {actions : List Action} (hs : Inv s) (hrun : run step s actions = some t) :
    Inv t := by
  have hmeets : ∀ s, Meets step (fun _ _ => True) s actions := by
    clear hs hrun
    induction actions with
    | nil => exact fun _ => trivial
    | cons a actions ih => exact fun s => ⟨trivial, fun t _ => ih t⟩
  exact invariant_of_meets (fun s a t hs _ => hstep s a t hs) hs (hmeets s) hrun

/-- A measure that no step raises and every counted step lowers bounds the counted steps. -/
theorem count_le_measure {measure : State → Nat} {counted : Action → Bool} {Inv : State → Prop}
    (hinv : ∀ s a t, Inv s → step s a = some t → Inv t)
    (hstep : ∀ s a t, Inv s → step s a = some t → measure t + (counted a).toNat ≤ measure s)
    {s t : State} {actions : List Action} (hs : Inv s) (hrun : run step s actions = some t) :
    measure t + actions.countP counted ≤ measure s := by
  induction actions generalizing s with
  | nil =>
      rw [run_nil, Option.some.injEq] at hrun
      simp [hrun]
  | cons a actions ih =>
      rw [run_cons, Option.bind_eq_some_iff] at hrun
      obtain ⟨next, hnext, hrun⟩ := hrun
      have hhead := hstep s a next hs hnext
      have htail := ih (hinv s a next hs hnext) hrun
      rw [List.countP_cons]
      cases hcounted : counted a <;> simp only [hcounted, Bool.toNat_true, Bool.toNat_false,
        reduceIte, Bool.false_eq_true] at hhead ⊢ <;> omega

end

/-- A guarded step was allowed, and is known. -/
theorem of_guard {P : Prop} [Decidable P] {s t : State}
    (hstep : (if P then some s else none) = some t) : P ∧ s = t := by
  obtain ⟨hguard, hstep⟩ := Option.ite_none_right_eq_some.mp hstep
  exact ⟨hguard, Option.some.inj hstep⟩

end Runs

/-! ## Interleavings

Threads are lists of atomic steps. A schedule takes the next step of some thread until
every thread is done, so it holds the steps of all threads, each thread's in order.
-/

variable {α : Type}

/-- The schedule runs every thread to its end, one step of one thread at a time. -/
inductive Interleaves : List (List α) → List α → Prop where
  | done {threads : List (List α)} (hdone : ∀ thread ∈ threads, thread = []) :
      Interleaves threads []
  | next {before after : List (List α)} {thread schedule : List α} {a : α}
      (hrest : Interleaves (before ++ thread :: after) schedule) :
      Interleaves (before ++ (a :: thread) :: after) (a :: schedule)

/-- Wherever the first step stands in the list, the second one comes later. -/
def Followed (a b : α) (l : List α) : Prop :=
  ∀ before after, l = before ++ a :: after → b ∈ after

theorem Followed.tail {a b c : α} {l : List α} (hl : Followed a b (c :: l)) : Followed a b l :=
  fun before after heq => hl (c :: before) after (by rw [heq, List.cons_append])

namespace Interleaves

/-- The next step is the one of the thread at an index. -/
theorem take {threads : List (List α)} {thread schedule : List α} {a : α} (i : Nat)
    (hi : threads[i]? = some (a :: thread))
    (hrest : Interleaves (threads.set i thread) schedule) : Interleaves threads (a :: schedule) := by
  obtain ⟨hlt, hthread⟩ := List.getElem?_eq_some_iff.mp hi
  have hsplit : threads = threads.take i ++ (a :: thread) :: threads.drop (i + 1) := by
    rw [← hthread, ← List.drop_eq_getElem_cons hlt, List.take_append_drop]
  rw [List.set_eq_take_append_cons_drop, if_pos hlt] at hrest
  rw [hsplit]
  exact .next hrest

theorem mem_of_thread {threads : List (List α)} {schedule thread : List α} {b : α}
    (hschedule : Interleaves threads schedule) (hthread : thread ∈ threads) (hb : b ∈ thread) :
    b ∈ schedule := by
  induction hschedule generalizing thread with
  | done hdone => rw [hdone thread hthread] at hb; cases hb
  | @next before after next schedule a _ ih =>
      rcases List.mem_append.mp hthread with hbefore | hrest
      · exact List.mem_cons_of_mem a (ih (List.mem_append_left _ hbefore) hb)
      · rcases List.mem_cons.mp hrest with rfl | hafter
        · rcases List.mem_cons.mp hb with rfl | hb
          · exact List.mem_cons_self
          · exact List.mem_cons_of_mem a
              (ih (List.mem_append_right _ List.mem_cons_self) hb)
        · exact List.mem_cons_of_mem a
            (ih (List.mem_append_right _ (List.mem_cons_of_mem _ hafter)) hb)

/-- What follows in every thread follows in the schedule. -/
theorem followed {threads : List (List α)} {schedule : List α} {a b : α}
    (hschedule : Interleaves threads schedule)
    (hthreads : ∀ thread ∈ threads, Followed a b thread) :
    Followed a b schedule := by
  induction hschedule with
  | done => exact fun before after heq => by simp at heq
  | @next before after thread schedule c hrest ih =>
      have hthread : Followed a b (c :: thread) :=
        hthreads _ (List.mem_append_right _ List.mem_cons_self)
      have htail : ∀ t ∈ before ++ thread :: after, Followed a b t := by
        intro t ht
        rcases List.mem_append.mp ht with hbefore | hmore
        · exact hthreads t (List.mem_append_left _ hbefore)
        · rcases List.mem_cons.mp hmore with rfl | hafter
          · exact hthread.tail
          · exact hthreads t (List.mem_append_right _ (List.mem_cons_of_mem _ hafter))
      intro front back heq
      cases front with
      | nil =>
          -- the step is the first of its thread, and the rest of the thread is yet to come
          obtain ⟨rfl, rfl⟩ := List.cons_eq_cons.mp heq
          exact hrest.mem_of_thread (List.mem_append_right _ List.mem_cons_self)
            (hthread [] thread rfl)
      | cons d front =>
          obtain ⟨-, hback⟩ := List.cons_eq_cons.mp heq
          exact ih htail front back hback

end Interleaves

/-! ## Components of a state

A component that every step moves by what one view of the action shows, if it shows anything, and
leaves alone otherwise, is moved by a whole run as by the views of its actions.
-/

namespace Views

variable {State Component Action Shown : Type}

/-- The steps are known to move the component so in the states of an invariant. -/
theorem foldl_view {step : State → Action → State} (Inv : State → Prop)
    (component : State → Component) (view : Action → Option Shown)
    (move : Component → Shown → Component) (hkeep : ∀ s a, Inv s → Inv (step s a))
    (hstep : ∀ s a, Inv s → component (step s a) = (view a).elim (component s) (move (component s)))
    {s : State} (hs : Inv s) (actions : List Action) :
    component (actions.foldl step s) = (actions.filterMap view).foldl move (component s) := by
  induction actions generalizing s with
  | nil => rfl
  | cons a actions ih =>
      rw [List.foldl_cons, ih (hkeep s a hs), hstep s a hs]
      cases hview : view a with
      | none => rw [List.filterMap_cons_none hview, Option.elim_none]
      | some shown => rw [List.filterMap_cons_some hview, List.foldl_cons, Option.elim_some]

end Views
