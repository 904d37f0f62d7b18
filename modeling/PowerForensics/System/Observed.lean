import Mathlib.Order.Basic
import Mathlib.Data.List.Basic

/-! # Runs that are observed

A program over a state that leaves a trail of events. It ends with a value, with an error text,
with a panic, or stuck when a loop or a recursion has used up the passes it was given. The rules
derive, for a whole run, what an observer demands of every event and of every state that is
passed on. A run that keeps to them neither panics nor gets stuck.
-/

namespace Observed

variable {σ ε κ α β τ : Type}

inductive Outcome (α : Type) where
  | ok (a : α)
  | fail (msg : String)
  | panic
  | stuck
  deriving DecidableEq

/-- The run came back to its caller. -/
def Outcome.Returns : Outcome α → Prop
  | .ok _ => True
  | .fail _ => True
  | .panic => False
  | .stuck => False

def Outcome.isOk : Outcome α → Bool
  | .ok _ => true
  | _ => false

def Outcome.ofExcept : Except String α → Outcome α
  | .ok a => .ok a
  | .error msg => .fail msg

structure Result (σ ε α : Type) where
  outcome : Outcome α
  state : σ
  events : List ε

/-- A program: from a state it comes to an outcome and a state, and leaves events. -/
def Run (σ ε α : Type) := σ → Result σ ε α

namespace Run

protected def pure (a : α) : Run σ ε α := fun s => ⟨.ok a, s, []⟩

/-- Whatever does not end with a value ends the whole run. -/
protected def bind (x : Run σ ε α) (f : α → Run σ ε β) : Run σ ε β := fun s =>
  match (x s).outcome with
  | .ok a =>
      let rest := f a (x s).state
      ⟨rest.outcome, rest.state, (x s).events ++ rest.events⟩
  | .fail msg => ⟨.fail msg, (x s).state, (x s).events⟩
  | .panic => ⟨.panic, (x s).state, (x s).events⟩
  | .stuck => ⟨.stuck, (x s).state, (x s).events⟩

instance : Monad (Run σ ε) where
  pure := Run.pure
  bind := Run.bind

def get : Run σ ε σ := fun s => ⟨.ok s, s, []⟩

def set (t : σ) : Run σ ε Unit := fun _ => ⟨.ok (), t, []⟩

def fail (msg : String) : Run σ ε α := fun s => ⟨.fail msg, s, []⟩

def panic : Run σ ε α := fun s => ⟨.panic, s, []⟩

def stuck : Run σ ε α := fun s => ⟨.stuck, s, []⟩

def emit (e : σ → ε) : Run σ ε Unit := fun s => ⟨.ok (), s, [e s]⟩

/-- An event before a program and one after it, however it ends. -/
def around (before : σ → ε) (after : σ → σ → Bool → ε) (x : Run σ ε α) : Run σ ε α := fun s =>
  { x s with
    events := before s :: ((x s).events ++ [after s (x s).state (x s).outcome.isOk]) }

/-- An event after a program that ends with a value. -/
def noting (e : σ → σ → ε) (x : Run σ ε α) : Run σ ε α := fun s =>
  { x s with
    events := (x s).events ++ if (x s).outcome.isOk then [e s (x s).state] else [] }

/-- Repeat a body until it gives a result instead of a new value of the loop's variable. -/
def loop (body : τ → Run σ ε (τ ⊕ α)) : Nat → τ → Run σ ε α
  | 0, _ => stuck
  | passes + 1, t => do
      match ← body t with
      | .inl t' => loop body passes t'
      | .inr a => pure a

theorem pure_bind_apply (a : α) (f : α → Run σ ε β) (s : σ) :
    ((pure a : Run σ ε α) >>= f) s = f a s := rfl

theorem get_bind_apply (f : σ → Run σ ε β) (s : σ) : (get >>= f) s = f s s := rfl

end Run

/-! ## What an observer demands -/

/-- Demands on the states that are passed on and on the events, and the state that the observer
keeps beside the run. -/
structure Monitor (σ ε κ : Type) where
  inv : σ → Prop
  valid : ε → Prop
  next : κ → ε → Option κ

variable [Preorder σ] {M : Monitor σ ε κ} {k : κ} {s : σ}

/-- A run from a state meets the demands, does not go back, leaves the observer as it found him,
and a value it ends with has a property. -/
structure Safe (M : Monitor σ ε κ) (k : κ) (s : σ) (Q : α → σ → Prop) (r : Result σ ε α) :
    Prop where
  returns : r.outcome.Returns
  inv : M.inv r.state
  forward : s ≤ r.state
  valid : ∀ e ∈ r.events, M.valid e
  follows : r.events.foldlM M.next k = some k
  post : ∀ a, r.outcome = .ok a → Q a r.state

namespace Safe

variable {Q Q' : α → σ → Prop} {R : β → σ → Prop} {x : Run σ ε α}

theorem weaken {r : Result σ ε α} (hr : Safe M k s Q r)
    (hQ : ∀ a t, M.inv t → s ≤ t → Q a t → Q' a t) : Safe M k s Q' r :=
  { hr with post := fun a ha => hQ a r.state hr.inv hr.forward (hr.post a ha) }

theorem pure {a : α} (hs : M.inv s) (ha : Q a s) : Safe M k s Q ((Pure.pure a : Run σ ε α) s) where
  returns := trivial
  inv := hs
  forward := le_refl s
  valid e he := by cases he
  follows := rfl
  post b hb := by
    cases hb
    exact ha

theorem fail (hs : M.inv s) (msg : String) : Safe M k s Q (Run.fail msg s) where
  returns := trivial
  inv := hs
  forward := le_refl s
  valid e he := by cases he
  follows := rfl
  post b hb := by cases hb

theorem set {t : σ} {Q : Unit → σ → Prop} (ht : M.inv t) (hst : s ≤ t) (hQ : Q () t) :
    Safe M k s Q (Run.set t s) where
  returns := trivial
  inv := ht
  forward := hst
  valid e he := by cases he
  follows := rfl
  post _ _ := hQ

theorem emit {e : σ → ε} {Q : Unit → σ → Prop} (hs : M.inv s) (he : M.valid (e s))
    (hnext : M.next k (e s) = some k) (hQ : Q () s) : Safe M k s Q (Run.emit e s) where
  returns := trivial
  inv := hs
  forward := le_refl s
  valid e' he' := by
    obtain rfl := List.mem_singleton.mp he'
    exact he
  follows := by simp [Run.emit, hnext]
  post _ _ := hQ

/-- The rule of sequence. -/
theorem bind {f : α → Run σ ε β} (hx : Safe M k s Q (x s))
    (hf : ∀ a t, M.inv t → s ≤ t → Q a t → Safe M k t R (f a t)) :
    Safe M k s R ((x >>= f) s) := by
  change Safe M k s R (Run.bind x f s)
  rw [Run.bind]
  cases hout : (x s).outcome with
  | ok a =>
      have hrest := hf a _ hx.inv hx.forward (hx.post a hout)
      exact {
        returns := hrest.returns
        inv := hrest.inv
        forward := hx.forward.trans hrest.forward
        valid := by
          intro e he
          rcases List.mem_append.mp he with he | he
          · exact hx.valid e he
          · exact hrest.valid e he
        follows := by
          rw [List.foldlM_append, hx.follows]
          exact hrest.follows
        post := hrest.post }
  | fail msg =>
      exact { hx with
        returns := trivial
        post := by
          intro b hb
          cases hb }
  | panic =>
      have hreturns := hx.returns
      rw [hout] at hreturns
      exact hreturns.elim
  | stuck =>
      have hreturns := hx.returns
      rw [hout] at hreturns
      exact hreturns.elim

/-- Between the two events the observer is in a state of his own. -/
theorem around {before : σ → ε} {after : σ → σ → Bool → ε} {k' : κ} (hx : Safe M k' s Q (x s))
    (hbefore : M.valid (before s)) (henter : M.next k (before s) = some k')
    (hafter : ∀ t ok, M.inv t → s ≤ t → (ok = true → ∃ a, Q a t) → M.valid (after s t ok))
    (hleave : ∀ t ok, M.next k' (after s t ok) = some k) :
    Safe M k s Q (Run.around before after x s) where
  returns := hx.returns
  inv := hx.inv
  forward := hx.forward
  valid e he := by
    rcases List.mem_cons.mp he with rfl | he
    · exact hbefore
    rcases List.mem_append.mp he with he | he
    · exact hx.valid e he
    obtain rfl := List.mem_singleton.mp he
    apply hafter _ _ hx.inv hx.forward
    intro hok
    cases hout : (x s).outcome with
    | ok a => exact ⟨a, hx.post a hout⟩
    | fail msg => simp [hout, Outcome.isOk] at hok
    | panic => simp [hout, Outcome.isOk] at hok
    | stuck => simp [hout, Outcome.isOk] at hok
  follows := by
    simp only [Run.around, List.foldlM_cons, henter, Option.bind_eq_bind, Option.bind_some,
      List.foldlM_append, hx.follows, hleave, List.foldlM_nil]
    rfl
  post := hx.post

theorem noting {e : σ → σ → ε} (hx : Safe M k s Q (x s))
    (hvalid : ∀ a t, M.inv t → s ≤ t → Q a t → M.valid (e s t))
    (hnext : ∀ t, M.next k (e s t) = some k) : Safe M k s Q (Run.noting e x s) where
  returns := hx.returns
  inv := hx.inv
  forward := hx.forward
  valid e' he' := by
    rcases List.mem_append.mp he' with he' | he'
    · exact hx.valid e' he'
    cases hout : (x s).outcome with
    | ok a =>
        rw [hout, Outcome.isOk, if_pos rfl] at he'
        obtain rfl := List.mem_singleton.mp he'
        exact hvalid a _ hx.inv hx.forward (hx.post a hout)
    | fail msg => simp [hout, Outcome.isOk] at he'
    | panic => simp [hout, Outcome.isOk] at he'
    | stuck => simp [hout, Outcome.isOk] at he'
  follows := by
    simp only [Run.noting, List.foldlM_append, hx.follows, Option.bind_eq_bind, Option.bind_some]
    split
    · simp [hnext]
    · rfl
  post := hx.post

/-- A loop whose every pass makes a measure smaller ends within more passes than the measure. -/
theorem loop {body : τ → Run σ ε (τ ⊕ α)} (I : τ → σ → Prop) (μ : σ → Nat)
    (hbody : ∀ t s, M.inv s → I t s →
      Safe M k s (fun r s' => Sum.elim (fun t' => μ s' < μ s ∧ I t' s') (fun a => Q a s') r)
        (body t s)) :
    ∀ {passes : Nat} {t : τ} {s : σ}, M.inv s → I t s → μ s < passes →
      Safe M k s Q (Run.loop body passes t s) := by
  intro passes
  induction passes with
  | zero =>
      intro t s _ _ hroom
      omega
  | succ passes ih =>
      intro t s hs ht hroom
      apply (hbody t s hs ht).bind
      intro r s' hs' _ hr
      cases r with
      | inl t' =>
          obtain ⟨hless, ht'⟩ := hr
          exact ih hs' ht' (by omega)
      | inr a => exact Safe.pure hs' hr

end Safe

/-! ## Programs and functions -/

section Computes

variable {ρ : Type}

/-- The result, if it is one, is that of a function with its state read off the run's. -/
def Computes (state : σ → ρ) (r : Result σ ε α) (e : Except String (α × ρ)) : Prop :=
  match r.outcome with
  | .ok a => e = .ok (a, state r.state)
  | .fail msg => e = .error msg
  | .panic => True
  | .stuck => True

namespace Computes

omit [Preorder σ]

variable {state : σ → ρ}

theorem pure (a : α) (s : σ) :
    Computes state ((Pure.pure a : Run σ ε α) s) (.ok (a, state s)) := rfl

theorem fail (msg : String) (s : σ) :
    Computes (α := α) (ε := ε) state (Run.fail msg s) (.error msg) := rfl

theorem bind {x : Run σ ε α} {f : α → Run σ ε β} {e : Except String (α × ρ)}
    {g : α × ρ → Except String (β × ρ)} (hx : Computes state (x s) e)
    (hf : ∀ a t, Computes state (f a t) (g (a, state t))) :
    Computes state ((x >>= f) s) (e >>= g) := by
  change Computes state (Run.bind x f s) (e >>= g)
  rw [Computes] at hx
  rw [Run.bind]
  cases hout : (x s).outcome with
  | ok a =>
      rw [hout] at hx
      rw [hx]
      exact hf a (x s).state
  | fail msg =>
      rw [hout] at hx
      rw [hx]
      rfl
  | panic => trivial
  | stuck => trivial

theorem ite {P : Prop} [Decidable P] {x y : Run σ ε α} {e e' : Except String (α × ρ)}
    (hx : P → Computes state (x s) e) (hy : ¬P → Computes state (y s) e') :
    Computes state ((if P then x else y) s) (if P then e else e') := by
  by_cases h : P
  · rw [if_pos h, if_pos h]
    exact hx h
  · rw [if_neg h, if_neg h]
    exact hy h

/-- A loop computes what its body computes, and then what is left of the loop. -/
theorem loop {body : τ → Run σ ε (τ ⊕ α)} {step : τ → ρ → Except String ((τ ⊕ α) × ρ)}
    {f : Nat → τ → ρ → Except String (α × ρ)}
    (hbody : ∀ t s, Computes state (body t s) (step t (state s)))
    (hf : ∀ passes t p, f (passes + 1) t p =
      step t p >>= fun r => Sum.elim (fun t' => f passes t' r.2) (fun a => .ok (a, r.2)) r.1) :
    ∀ passes t s, Computes state (Run.loop body passes t s) (f passes t (state s)) := by
  intro passes
  induction passes with
  | zero =>
      intro t s
      trivial
  | succ passes ih =>
      intro t s
      rw [hf]
      apply (hbody t s).bind
      intro r s'
      cases r with
      | inl t' => exact ih t' s'
      | inr a => exact Computes.pure a s'

/-- A run that returns has the outcome of the function. -/
theorem eq_of_returns {r : Result σ ε α} {e : Except String (α × ρ)} (hr : Computes state r e)
    (hreturns : r.outcome.Returns) : r.outcome = Outcome.ofExcept (e.map Prod.fst) := by
  rw [Computes] at hr
  cases hout : r.outcome with
  | ok a =>
      rw [hout] at hr
      rw [hr]
      rfl
  | fail msg =>
      rw [hout] at hr
      rw [hr]
      rfl
  | panic =>
      rw [hout] at hreturns
      exact hreturns.elim
  | stuck =>
      rw [hout] at hreturns
      exact hreturns.elim

end Computes

end Computes

end Observed
