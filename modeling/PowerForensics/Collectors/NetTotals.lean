import Mathlib.Algebra.BigOperators.Group.List.Basic
import PowerForensics.Collectors.NetLine
import PowerForensics.Core.Stats

/-! # Totals of the network

The rates of all interfaces but the loopback ones are added up, received and sent together. An
interface of which only one rate is known counts for both totals, so the other total is zero where
no rate of its direction is known.
-/

namespace PowerForensics.Collectors

open Stats

/-! ## Interfaces -/

/-- The rates of an interface. -/
structure Traffic (α : Type) where
  instanceName : String
  rxBps : Option α
  txBps : Option α

def Throughput.traffic (t : Throughput) : Traffic Binary64 := ⟨t.instanceName, t.rxBps, t.txBps⟩

def contains (s key : String) : Bool := (Search.behind key.toList s.toList).isSome

section

variable (toLowercase : String → String)

/-- The adapter of an instance, and whether it is named exactly. -/
def matchAdapter (inst : String) (adapters : List NetAdapter) : Option (Nat × Bool) :=
  let inst := toLowercase inst
  match adapters.findIdx? fun a => toLowercase a.descr = inst with
  | some i => some (i, true)
  | none =>
      (adapters.findIdx? fun a =>
        let d := toLowercase a.descr
        !d.isEmpty && (contains d inst || contains inst d)).map fun i => (i, false)

/-- An instance without an adapter is told by its name. -/
def isLoopback (adapters : List NetAdapter) (inst : String) : Bool :=
  match matchAdapter toLowercase inst adapters with
  | some (i, _) => (adapters[i]?).any fun a => a.adapterClass = "loopback"
  | none => contains (toLowercase inst) "loopback"

end

/-! ## Totals -/

/-- How many interfaces have a rate, and what their rates add up to. -/
structure Tally (α : Type) where
  usable : Nat
  totalRx : α
  totalTx : α

variable {α : Type} [Scalar α]

namespace Tally

def start : Tally α := ⟨0, 0.0, 0.0⟩

def add (s : Tally α) (t : Traffic α) : Tally α :=
  match t.rxBps, t.txBps with
  | some rx, some tx => ⟨s.usable + 1, s.totalRx + rx, s.totalTx + tx⟩
  | some rx, none => ⟨s.usable + 1, s.totalRx + rx, s.totalTx⟩
  | none, some tx => ⟨s.usable + 1, s.totalRx, s.totalTx + tx⟩
  | none, none => s

/-- Loopback interfaces are left out. -/
def see (toLowercase : String → String) (adapters : List NetAdapter) (s : Tally α)
    (t : Traffic α) : Tally α :=
  if isLoopback toLowercase adapters t.instanceName then s else s.add t

end Tally

structure Totals (α : Type) where
  rx : Option α
  tx : Option α
  usable : Nat
  total : Nat

def sumNonLoopback (toLowercase : String → String) (throughput : List (Traffic α))
    (adapters : List NetAdapter) : Totals α :=
  let s := throughput.foldl (Tally.see toLowercase adapters) .start
  { rx := if 0 < s.usable then some s.totalRx else none
    tx := if 0 < s.usable then some s.totalTx else none
    usable := s.usable
    total := throughput.length }

/-! ## Known rates -/

/-- The sum of what is known, if anything is. -/
def sumKnown (known : List α) : Option α :=
  match known with
  | [] => none
  | _ => some (known.foldl (· + ·) 0.0)

section

variable (toLowercase : String → String) (adapters : List NetAdapter) (ts : List (Traffic α))

def counted : List (Traffic α) :=
  ts.filter fun t => !isLoopback toLowercase adapters t.instanceName

def knownRx : List α := (counted toLowercase adapters ts).filterMap Traffic.rxBps

def knownTx : List α := (counted toLowercase adapters ts).filterMap Traffic.txBps

/-- Either total is the sum of the known rates of its own direction. -/
structure Truthful : Prop where
  rx : (sumNonLoopback toLowercase ts adapters).rx = sumKnown (knownRx toLowercase adapters ts)
  tx : (sumNonLoopback toLowercase ts adapters).tx = sumKnown (knownTx toLowercase adapters ts)

end

def Traffic.known (t : Traffic α) : Bool := t.rxBps.isSome || t.txBps.isSome

/-- The loop adds up each direction by itself. -/
theorem foldl_add (rows : List (Traffic α)) (s : Tally α) :
    rows.foldl Tally.add s =
      { usable := s.usable + rows.countP Traffic.known
        totalRx := (rows.filterMap Traffic.rxBps).foldl (· + ·) s.totalRx
        totalTx := (rows.filterMap Traffic.txBps).foldl (· + ·) s.totalTx } := by
  induction rows generalizing s with
  | nil => rfl
  | cons t rows ih =>
      obtain ⟨name, rx, tx⟩ := t
      rw [List.foldl_cons, ih, List.countP_cons]
      cases rx <;> cases tx <;> simp [Tally.add, Traffic.known] <;> omega

variable (toLowercase : String → String) (adapters : List NetAdapter)

theorem sumNonLoopback_eq (ts : List (Traffic α)) :
    sumNonLoopback toLowercase ts adapters =
      let usable := (counted toLowercase adapters ts).countP Traffic.known
      { rx :=
          if 0 < usable then some ((knownRx toLowercase adapters ts).foldl (· + ·) 0.0) else none
        tx :=
          if 0 < usable then some ((knownTx toLowercase adapters ts).foldl (· + ·) 0.0) else none
        usable
        total := ts.length } := by
  have hfold : ts.foldl (Tally.see toLowercase adapters) .start =
      (counted toLowercase adapters ts).foldl Tally.add .start := by
    rw [counted, List.foldl_filter]
    congr 1
    funext s t
    rw [Tally.see]
    cases isLoopback toLowercase adapters t.instanceName <;> rfl
  rw [sumNonLoopback, hfold, foldl_add, Tally.start, Nat.zero_add]
  rfl

omit [Scalar α] in
/-- An interface counts if a rate of it is known. -/
theorem usable_pos_iff (ts : List (Traffic α)) :
    0 < (counted toLowercase adapters ts).countP Traffic.known ↔
      knownRx toLowercase adapters ts ≠ [] ∨ knownTx toLowercase adapters ts ≠ [] := by
  have hnone : ∀ f : Traffic α → Option α,
      (counted toLowercase adapters ts).filterMap f ≠ [] ↔
        ∃ t ∈ counted toLowercase adapters ts, (f t).isSome := by
    intro f
    rw [Ne, List.filterMap_eq_nil_iff]
    simp only [not_forall, ← Option.ne_none_iff_isSome, exists_prop, ne_eq]
  rw [List.countP_pos_iff, knownRx, knownTx, hnone, hnone]
  simp only [Traffic.known, Bool.or_eq_true, and_or_left, exists_or]

theorem sumKnown_of_ne {known : List α} (hne : known ≠ []) :
    sumKnown known = some (known.foldl (· + ·) 0.0) := by
  cases known with
  | nil => exact absurd rfl hne
  | cons x known => rfl

/-- The totals are right if rates of both directions are known, or of neither. -/
theorem truthful_iff (ts : List (Traffic α)) :
    Truthful toLowercase adapters ts ↔
      (knownRx toLowercase adapters ts = [] ↔ knownTx toLowercase adapters ts = []) := by
  have husable := usable_pos_iff toLowercase adapters ts
  have heq := sumNonLoopback_eq toLowercase adapters ts
  by_cases hrx : knownRx toLowercase adapters ts = []
  · by_cases htx : knownTx toLowercase adapters ts = []
    · have hzero : ¬ 0 < (counted toLowercase adapters ts).countP Traffic.known := by
        rw [husable, hrx, htx]
        simp
      refine iff_of_true ⟨?_, ?_⟩ (iff_of_true hrx htx)
      · rw [heq, hrx]
        exact if_neg hzero
      · rw [heq, htx]
        exact if_neg hzero
    · have hpos := husable.mpr (Or.inr htx)
      refine iff_of_false (fun h => ?_) (fun hiff => htx (hiff.mp hrx))
      -- the sent rates make the received total a zero
      have hfabricated := h.rx
      rw [heq, hrx] at hfabricated
      dsimp only at hfabricated
      rw [if_pos hpos] at hfabricated
      cases hfabricated
  · have hpos := husable.mpr (Or.inl hrx)
    by_cases htx : knownTx toLowercase adapters ts = []
    · refine iff_of_false (fun h => ?_) (fun hiff => hrx (hiff.mpr htx))
      -- and here the received rates do so to the sent total
      have hfabricated := h.tx
      rw [heq, htx] at hfabricated
      dsimp only at hfabricated
      rw [if_pos hpos] at hfabricated
      cases hfabricated
    · refine iff_of_true ⟨?_, ?_⟩ (iff_of_false hrx htx)
      · rw [heq, sumKnown_of_ne hrx]
        exact if_pos hpos
      · rw [heq, sumKnown_of_ne htx]
        exact if_pos hpos

/-- Exact totals do not depend on the order of the interfaces. -/
theorem sumNonLoopback_perm {ts other : List (Traffic ℚ)} (hperm : ts.Perm other) :
    sumNonLoopback toLowercase ts adapters = sumNonLoopback toLowercase other adapters := by
  have hcounted : (counted toLowercase adapters ts).Perm (counted toLowercase adapters other) :=
    hperm.filter _
  have hsum : ∀ f : Traffic ℚ → Option ℚ,
      ((counted toLowercase adapters ts).filterMap f).foldl (· + ·) 0.0 =
        ((counted toLowercase adapters other).filterMap f).foldl (· + ·) 0.0 := by
    intro f
    exact (hcounted.filterMap f).foldl_op_eq
  rw [sumNonLoopback_eq, sumNonLoopback_eq, hcounted.countP_eq, hperm.length_eq, knownRx, knownTx,
    hsum, hsum]
  rfl

/-- For every way of lowering names, a total is the sum of the known rates of its direction exactly
if rates of both directions are known or of neither, and exact totals do not depend on the order. -/
theorem totals_iff (toLowercase : String → String) (adapters : List NetAdapter) :
    (∀ {α : Type} [Scalar α] (ts : List (Traffic α)), Truthful toLowercase adapters ts ↔
      (knownRx toLowercase adapters ts = [] ↔ knownTx toLowercase adapters ts = [])) ∧
      ∀ ts other : List (Traffic ℚ), ts.Perm other →
        sumNonLoopback toLowercase ts adapters = sumNonLoopback toLowercase other adapters :=
  ⟨fun ts => truthful_iff toLowercase adapters ts,
    fun _ _ hperm => sumNonLoopback_perm toLowercase adapters hperm⟩

/-- What is sent is not known yet, and its total is zero. -/
theorem sent_fabricated : ¬ ∀ (toLowercase : String → String) (adapters : List NetAdapter)
    (throughput : List Throughput),
      Truthful toLowercase adapters (throughput.map Throughput.traffic) := by
  intro h
  have htx :=
    (h (fun s => .ofList (s.toList.map Char.toLower)) [] [⟨"Ethernet", some 1000, none⟩]).tx
  revert htx
  decide

end PowerForensics.Collectors
