import PowerForensics.Agent.Service
import PowerForensics.System.Runs

/-! # Pause control under concurrency

The calls of several clones interleave at the sections they hold the lock for and at the
stores they make outside it. The writer's flags are read after all calls have returned.
The stop flag is then what the last start or stop has left. The pause flag is the state's
unless a resume has cleared it behind the section of a later pause.
-/

namespace PowerForensics.Agent

/-! ## Calls and their steps -/

inductive Call where
  | start (label : String) (now : UInt64)
  | pause
  | resume
  | stop
  deriving DecidableEq

/-- A section that holds the lock of the state, or the one store outside of it. -/
inductive Step where
  | start (label : String) (now : UInt64)
  | pause
  | resume
  | storeResumed
  | stop
  deriving DecidableEq

def Call.steps : Call → List Step
  | start label now => [.start label now]
  | pause => [.pause]
  | resume => [.resume, .storeResumed]
  | stop => [.stop]

namespace Step

def apply (svc : Service) : Step → Service
  | start label now => svc.startSection label now
  | pause => svc.pauseSection
  | resume => svc.resumeSection
  | storeResumed => svc.storeResumed
  | stop => svc.stopSection

def isLifecycle : Step → Bool
  | start _ _ | stop => true
  | _ => false

end Step

def runSteps (svc : Service) (schedule : List Step) : Service := schedule.foldl Step.apply svc

/-- The last start or stop to hold the lock was a stop. -/
def StoppedLast (schedule : List Step) : Prop :=
  (schedule.filter Step.isLifecycle).getLast? = some .stop

instance (schedule : List Step) : Decidable (StoppedLast schedule) :=
  inferInstanceAs (Decidable (_ = _))

/-- The writer's flags say what the state says. -/
def Consistent (svc : Service) (schedule : List Step) : Prop :=
  let after := runSteps svc schedule
  after.pause = after.state.paused ∧ (after.stop = true ↔ StoppedLast schedule)

/-- The last section was a pause of a running agent, and the store of some resume came after
it. -/
def Overtaken (svc : Service) (schedule : List Step) : Prop :=
  ∃ before stores, schedule = before ++ .pause :: stores ∧ stores ≠ [] ∧
    (∀ step ∈ stores, step = .storeResumed) ∧ (runSteps svc before).state.running = true

theorem runSteps_append (svc : Service) (before after : List Step) :
    runSteps svc (before ++ after) = runSteps (runSteps svc before) after := by
  simp [runSteps]

/-! ## The flags after a schedule -/

/-- An agent that does not run is not paused, and its writer is not either. -/
def Quiet (svc : Service) : Prop :=
  svc.state.running = false → svc.state.paused = false ∧ svc.pause = false

theorem quiet_apply {svc : Service} (hsvc : Quiet svc) (step : Step) : Quiet (step.apply svc) := by
  cases step with
  | start label now => exact nofun
  | pause =>
      change Quiet svc.pauseSection
      unfold Service.pauseSection
      split
      next hrunning =>
        intro hidle
        rw [hrunning] at hidle
        cases hidle
      next => exact hsvc
  | resume => exact fun hidle => ⟨rfl, (hsvc hidle).2⟩
  | storeResumed => exact fun hidle => ⟨(hsvc hidle).1, rfl⟩
  | stop => exact fun _ => ⟨rfl, rfl⟩

theorem quiet_runSteps {svc : Service} (hsvc : Quiet svc) (schedule : List Step) :
    Quiet (runSteps svc schedule) := by
  induction schedule generalizing svc with
  | nil => exact hsvc
  | cons step schedule ih => exact ih (quiet_apply hsvc step)

/-- Stores alone clear the flag, if there are any. -/
theorem runSteps_stores {stores : List Step} (hstores : ∀ step ∈ stores, step = .storeResumed)
    (svc : Service) :
    runSteps svc stores = if stores = [] then svc else svc.storeResumed := by
  induction stores generalizing svc with
  | nil => rfl
  | cons step stores ih =>
      obtain ⟨rfl, hrest⟩ := List.forall_mem_cons.mp hstores
      change runSteps svc.storeResumed stores = svc.storeResumed
      rw [ih hrest]
      split <;> rfl

theorem apply_stop (svc : Service) (step : Step) :
    (step.apply svc).stop = if step.isLifecycle then decide (step = .stop) else svc.stop := by
  cases step with
  | pause =>
      change svc.pauseSection.stop = svc.stop
      unfold Service.pauseSection
      split <;> rfl
  | _ => rfl

theorem stop_runSteps (svc : Service) (hclear : svc.stop = false) (schedule : List Step) :
    (runSteps svc schedule).stop = true ↔ StoppedLast schedule := by
  induction schedule using List.reverseRecOn with
  | nil => simp [runSteps, StoppedLast, hclear]
  | append_singleton schedule step ih =>
      rw [runSteps_append]
      change (step.apply _).stop = true ↔ _
      rw [apply_stop, StoppedLast, List.filter_append]
      cases hstep : step.isLifecycle with
      | true => simp [hstep]
      | false => simpa [hstep, StoppedLast] using ih

/-- A schedule is stores alone, or ends with a section and stores behind it. -/
theorem lastSection (schedule : List Step) :
    (∀ step ∈ schedule, step = .storeResumed) ∨
      ∃ before last stores, schedule = before ++ last :: stores ∧
        last ≠ .storeResumed ∧ ∀ step ∈ stores, step = .storeResumed := by
  induction schedule with
  | nil => exact Or.inl (by simp)
  | cons step schedule ih =>
      rcases ih with hstores | ⟨before, last, stores, rfl, hlast, hstores⟩
      · by_cases hstep : step = .storeResumed
        · exact Or.inl (List.forall_mem_cons.mpr ⟨hstep, hstores⟩)
        · exact Or.inr ⟨[], step, schedule, rfl, hstep, hstores⟩
      · exact Or.inr ⟨step :: before, last, stores, rfl, hlast, hstores⟩

/-- Two splits at the last section are the same. -/
theorem lastSection_unique {before before' stores stores' : List Step} {last last' : Step}
    (hlast : last ≠ .storeResumed) (hlast' : last' ≠ .storeResumed)
    (hstores : ∀ step ∈ stores, step = .storeResumed)
    (hstores' : ∀ step ∈ stores', step = .storeResumed)
    (heq : before ++ last :: stores = before' ++ last' :: stores') :
    before = before' ∧ last = last' ∧ stores = stores' := by
  rcases List.append_eq_append_iff.mp heq with ⟨mid, rfl, hmid⟩ | ⟨mid, rfl, hmid⟩
  · cases mid with
    | nil =>
        obtain ⟨rfl, rfl⟩ := List.cons_eq_cons.mp hmid
        exact ⟨(List.append_nil _).symm, rfl, rfl⟩
    | cons step mid =>
        obtain ⟨rfl, rfl⟩ := List.cons_eq_cons.mp hmid
        exact absurd (hstores last' (by simp)) hlast'
  · cases mid with
    | nil =>
        obtain ⟨rfl, rfl⟩ := List.cons_eq_cons.mp hmid
        exact ⟨List.append_nil _, rfl, rfl⟩
    | cons step mid =>
        obtain ⟨rfl, rfl⟩ := List.cons_eq_cons.mp hmid
        exact absurd (hstores' last (by simp)) hlast

theorem steps_followed (call : Call) : Followed .resume .storeResumed call.steps := by
  intro before after heq
  cases call with
  | resume =>
      cases before with
      | nil =>
          obtain ⟨-, rfl⟩ := List.cons_eq_cons.mp heq
          simp
      | cons step before =>
          obtain ⟨-, hrest⟩ := List.cons_eq_cons.mp heq
          cases before with
          | nil => cases hrest
          | cons step before =>
              obtain ⟨-, hrest⟩ := List.cons_eq_cons.mp hrest
              simp at hrest
  | _ =>
      cases before with
      | nil => cases heq
      | cons step before =>
          obtain ⟨-, hrest⟩ := List.cons_eq_cons.mp heq
          simp at hrest

/-- After the last section and the stores behind it, the flag is the state's unless a pause
has been overtaken. A resume that was the last section has made its store. -/
theorem pause_eq_iff {svc : Service} (hsvc : Quiet svc) {last : Step} {stores : List Step}
    (hlast : last ≠ .storeResumed) (hstores : ∀ step ∈ stores, step = .storeResumed)
    (hreturned : last = .resume → stores ≠ []) :
    (runSteps svc (last :: stores)).pause = (runSteps svc (last :: stores)).state.paused ↔
      ¬ (last = .pause ∧ stores ≠ [] ∧ svc.state.running = true) := by
  have hrun : runSteps svc (last :: stores) =
      if stores = [] then last.apply svc else (last.apply svc).storeResumed :=
    runSteps_stores hstores (last.apply svc)
  rw [hrun]
  cases last with
  | storeResumed => exact absurd rfl hlast
  | start label now => split <;> simp [Step.apply, Service.startSection, Service.storeResumed]
  | stop => split <;> simp [Step.apply, Service.stopSection, Service.storeResumed]
  | resume =>
      rw [if_neg (hreturned rfl)]
      simp [Step.apply, Service.resumeSection, Service.storeResumed]
  | pause =>
      cases hrunning : svc.state.running with
      | true =>
          by_cases hnone : stores = [] <;>
            simp [hnone, Step.apply, Service.pauseSection, Service.storeResumed, hrunning]
      | false =>
          obtain ⟨hpaused, hpause⟩ := hsvc hrunning
          by_cases hnone : stores = [] <;>
            simp [hnone, Step.apply, Service.pauseSection, Service.storeResumed, hrunning, hpaused,
              hpause]

theorem overtaken_iff {svc : Service} {before stores : List Step} {last : Step}
    (hlast : last ≠ .storeResumed) (hstores : ∀ step ∈ stores, step = .storeResumed) :
    Overtaken svc (before ++ last :: stores) ↔
      last = .pause ∧ stores ≠ [] ∧ (runSteps svc before).state.running = true := by
  constructor
  · rintro ⟨before', stores', heq, hne, hstores', hrunning⟩
    obtain ⟨rfl, rfl, rfl⟩ := lastSection_unique hlast (by simp) hstores hstores' heq
    exact ⟨rfl, hne, hrunning⟩
  · rintro ⟨rfl, hne, hrunning⟩
    exact ⟨before, stores, rfl, hne, hstores, hrunning⟩

/-- For any calls and any interleaving of their steps: once all calls have returned, the
writer's flags say what the state says, unless a pause of the running agent was the last
section and the store of a resume came after it. -/
theorem consistent_iff_not_overtaken (sessionsDir : String) (calls : List Call)
    (schedule : List Step) (hschedule : Interleaves (calls.map Call.steps) schedule) :
    Consistent (Service.new sessionsDir) schedule ↔
      ¬ Overtaken (Service.new sessionsDir) schedule := by
  have hstop := stop_runSteps (Service.new sessionsDir) rfl schedule
  have hquiet : Quiet (Service.new sessionsDir) := fun _ => ⟨rfl, rfl⟩
  have hfollowed : Followed .resume .storeResumed schedule := by
    refine hschedule.followed fun thread hthread => ?_
    obtain ⟨call, -, rfl⟩ := List.mem_map.mp hthread
    exact steps_followed call
  simp only [Consistent, hstop, and_true]
  rcases lastSection schedule with hstores | ⟨before, last, stores, rfl, hlast, hstores⟩
  · have hnot : ¬ Overtaken (Service.new sessionsDir) schedule := by
      rintro ⟨before, stores, rfl, -⟩
      exact absurd (hstores .pause (by simp)) (by simp)
    rw [runSteps_stores hstores]
    refine iff_of_true ?_ hnot
    split <;> rfl
  · rw [overtaken_iff hlast hstores, runSteps_append]
    refine pause_eq_iff (quiet_runSteps hquiet before) hlast hstores ?_
    rintro rfl
    exact List.ne_nil_of_mem (hfollowed before stores rfl)

/-- A start, a pause and a resume one after another. -/
theorem consistent_iff_not_overtaken_sample :
    Consistent (Service.new "sessions") [.start "run" 0, .pause, .resume, .storeResumed] := by
  refine (consistent_iff_not_overtaken "sessions" [.start "run" 0, .pause, .resume] _
    (.take 0 rfl <| .take 1 rfl <| .take 2 rfl <| .take 2 rfl <| .done (by simp [Call.steps]))).mpr ?_
  change ¬ Overtaken _ ([.start "run" 0, .pause] ++ .resume :: [.storeResumed])
  rw [overtaken_iff (by simp) (by simp)]
  simp

/-- A pause between the two steps of a resume: the agent reports that it is paused while its
writer records. -/
theorem pause_overtaken : ¬ ∀ (calls : List Call) (schedule : List Step),
    Interleaves (calls.map Call.steps) schedule →
      Consistent (Service.new "sessions") schedule := by
  intro hall
  have hrun := hall [.start "run" 0, .pause, .resume]
    [.start "run" 0, .resume, .pause, .storeResumed]
    (.take 0 rfl <| .take 2 rfl <| .take 1 rfl <| .take 2 rfl <| .done (by simp [Call.steps]))
  exact absurd hrun.1 (by decide)

end PowerForensics.Agent
