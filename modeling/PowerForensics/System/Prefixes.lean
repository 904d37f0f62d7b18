import Mathlib.Data.List.Infix
import PowerForensics.System.Lookup

/-! # What the prefixes of a list yield

A loop over a list that makes an entry at some of its elements makes one for each of the prefixes
that end there. In the table of these entries the longest prefix with an entry for a key decides.
-/

namespace Prefixes

variable {α β κ ν : Type}

/-- The last of what a list is mapped to: nothing comes of the elements behind. -/
theorem getLast?_filterMap_eq_some {f : α → Option β} {l : List α} {b : β} :
    (l.filterMap f).getLast? = some b ↔
      ∃ before a behind, l = before ++ a :: behind ∧ f a = some b ∧ ∀ x ∈ behind, f x = none := by
  constructor
  · intro hlast
    induction l using List.reverseRecOn with
    | nil => simp at hlast
    | append_singleton l a ih =>
        cases ha : f a with
        | some b' =>
            obtain rfl : b' = b := by simpa [List.filterMap_append, ha] using hlast
            exact ⟨l, a, [], rfl, ha, by simp⟩
        | none =>
            obtain ⟨before, a', behind, rfl, ha', hbehind⟩ :=
              ih (by simpa [List.filterMap_append, ha] using hlast)
            refine ⟨before, a', behind ++ [a], by simp, ha', ?_⟩
            intro x hx
            rcases List.mem_append.mp hx with hx | hx
            · exact hbehind x hx
            · rw [List.mem_singleton.mp hx, ha]
  · rintro ⟨before, a, behind, rfl, ha, hbehind⟩
    rw [List.filterMap_append, List.filterMap_cons_some ha, List.filterMap_eq_nil_iff.mpr hbehind,
      List.getLast?_concat]

/-- What the prefixes of a list yield, the shorter ones first. -/
def yields (f : List α → Option β) (l : List α) : List β := l.inits.filterMap f

theorem yields_nil (f : List α → Option β) : yields f [] = (f []).toList := by
  cases h : f [] <;> simp [yields, h]

theorem yields_concat (f : List α → Option β) (l : List α) (a : α) :
    yields f (l ++ [a]) = yields f l ++ (f (l ++ [a])).toList := by
  have hinits : (l ++ [a]).inits = l.inits ++ [l ++ [a]] := by simp [List.inits_append]
  rw [yields, hinits, List.filterMap_append, yields]
  cases h : f (l ++ [a]) <;> simp [h]

/-- The longest prefix of a list with an entry for a key. -/
structure LastFor (entry : List α → κ → ν → Prop) (l : List α) (key : κ) (front : List α) (v : ν) :
    Prop where
  isPrefix : front <+: l
  holds : entry front key v
  longest : ∀ front' w, front' <+: l → entry front' key w → front'.length ≤ front.length

/-- There is one longest prefix. -/
theorem LastFor.eq_front {entry : List α → κ → ν → Prop} {l front front' : List α} {key : κ}
    {v w : ν} (h : LastFor entry l key front v) (h' : LastFor entry l key front' w) :
    front = front' :=
  (List.prefix_of_prefix_length_le h.isPrefix h'.isPrefix
    (h'.longest front v h.isPrefix h.holds)).eq_of_length
    (le_antisymm (h'.longest front v h.isPrefix h.holds) (h.longest front' w h'.isPrefix h'.holds))

/-- A prefix that yields nothing for a key leaves the last entry of the key where it was. -/
theorem exists_lastFor_concat {f : List α → Option (κ × ν)} {l : List α} {a : α} {key : κ} {v : ν}
    (hne : ∀ w, f (l ++ [a]) ≠ some (key, w)) :
    (∃ front, LastFor (fun front k w => f front = some (k, w)) (l ++ [a]) key front v) ↔
      ∃ front, LastFor (fun front k w => f front = some (k, w)) l key front v := by
  apply exists_congr
  intro front
  constructor
  · intro h
    have hlonger : ∀ {front'}, front' <+: l → front' <+: l ++ [a] :=
      fun hfront' => List.prefix_concat_iff.mpr (Or.inr hfront')
    refine ⟨?_, h.holds, fun front' w hfront' => h.longest front' w (hlonger hfront')⟩
    rcases List.prefix_concat_iff.mp h.isPrefix with rfl | hfront
    · exact absurd h.holds (hne v)
    · exact hfront
  · intro h
    refine ⟨List.prefix_concat_iff.mpr (Or.inr h.isPrefix), h.holds, ?_⟩
    intro front' w hfront' hentry
    rcases List.prefix_concat_iff.mp hfront' with rfl | hfront'
    · exact absurd hentry (hne w)
    · exact h.longest front' w hfront' hentry

section Latest

variable [DecidableEq κ]

theorem latest_concat (entries : List (κ × ν)) (key : κ) (e : κ × ν) :
    Lookup.latest (entries ++ [e]) key =
      if key = e.1 then some e.2 else Lookup.latest entries key := by
  obtain ⟨k, v⟩ := e
  rw [Lookup.latest, List.reverse_append, List.reverse_singleton, List.singleton_append,
    List.lookup_cons, Lookup.latest]
  by_cases hkey : key = k
  · simp [hkey]
  · have hbeq : (key == k) = false := by simpa using hkey
    simp [hkey, hbeq]

theorem latest_yields {f : List α → Option (κ × ν)} {l : List α} {key : κ} {v : ν} :
    Lookup.latest (yields f l) key = some v ↔
      ∃ front, LastFor (fun front k w => f front = some (k, w)) l key front v := by
  induction l using List.reverseRecOn with
  | nil =>
      rw [yields_nil]
      constructor
      · intro hlatest
        cases hf : f ([] : List α) with
        | none => simp [hf, Lookup.latest_nil] at hlatest
        | some e =>
            have hconcat := latest_concat ([] : List (κ × ν)) key e
            rw [List.nil_append] at hconcat
            rw [hf, Option.toList_some, hconcat] at hlatest
            split at hlatest
            next hkey =>
              obtain rfl := Option.some.inj hlatest
              refine ⟨[], List.prefix_rfl, by rw [hf, hkey], ?_⟩
              intro front' w hfront' _
              rw [List.prefix_nil.mp hfront']
            next => simp [Lookup.latest_nil] at hlatest
      · rintro ⟨front, hfront, hentry, -⟩
        rw [List.prefix_nil.mp hfront] at hentry
        rw [hentry]
        simp [Lookup.latest]
  | append_singleton l a ih =>
      rw [yields_concat]
      cases hf : f (l ++ [a]) with
      | none =>
          rw [Option.toList_none, List.append_nil, ih, exists_lastFor_concat]
          intro w hw
          rw [hf] at hw
          cases hw
      | some e =>
          obtain ⟨k, w⟩ := e
          rw [Option.toList_some, latest_concat]
          split
          next hkey =>
            obtain rfl : key = k := hkey
            -- the whole list is the longest prefix there is
            constructor
            · intro hv
              obtain rfl := Option.some.inj hv
              refine ⟨l ++ [a], List.prefix_rfl, hf, ?_⟩
              intro front' w' hfront' _
              exact hfront'.length_le
            · rintro ⟨front, hfront, hentry, hlongest⟩
              have hle := hlongest (l ++ [a]) w List.prefix_rfl hf
              obtain rfl := hfront.eq_of_length (le_antisymm hfront.length_le hle)
              exact congrArg some (congrArg Prod.snd (Option.some.inj (hf.symm.trans hentry)))
          next hkey =>
            rw [ih, exists_lastFor_concat]
            intro w' hw'
            rw [hf] at hw'
            exact hkey (congrArg Prod.fst (Option.some.inj hw')).symm

end Latest

end Prefixes
