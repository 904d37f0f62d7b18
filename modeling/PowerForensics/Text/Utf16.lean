import Mathlib.Data.UInt

/-! # UTF-16

A text as units of 16 bits. A unit is a character by itself unless it is a surrogate. A high
surrogate and a low one behind it are one character, from beyond the basic plane.
-/

namespace Utf16

/-- The character of a unit by itself. -/
def charOf (u : UInt16) : Option Char :=
  if u.toNat.isValidChar then some (Char.ofNat u.toNat) else none

def isHigh (u : UInt16) : Bool := 0xD800 ≤ u.toNat ∧ u.toNat < 0xDC00

def isLow (u : UInt16) : Bool := 0xDC00 ≤ u.toNat ∧ u.toNat < 0xE000

def pair (high low : UInt16) : Char :=
  Char.ofNat (0x10000 + (high.toNat - 0xD800) * 0x400 + (low.toNat - 0xDC00))

def decode : List UInt16 → Option (List Char)
  | [] => some []
  | u :: us =>
      match charOf u with
      | some c => (decode us).map (c :: ·)
      | none =>
          match us with
          | [] => none
          | v :: us =>
              if isHigh u ∧ isLow v then (decode us).map (pair u v :: ·) else none

theorem toNat_charOf {u : UInt16} {c : Char} (hc : charOf u = some c) : c.toNat = u.toNat := by
  rw [charOf] at hc
  split at hc
  next hvalid =>
    obtain rfl := Option.some.inj hc
    rw [Char.ofNat, dif_pos hvalid]
    rfl
  next => cases hc

theorem toNat_pair {u v : UInt16} (hu : isHigh u) (hv : isLow v) : 0x10000 ≤ (pair u v).toNat := by
  obtain ⟨hlow, hhigh⟩ := of_decide_eq_true hu
  obtain ⟨hlow', hhigh'⟩ := of_decide_eq_true hv
  have hvalid : (0x10000 + (u.toNat - 0xD800) * 0x400 + (v.toNat - 0xDC00)).isValidChar := by
    right
    omega
  rw [pair, Char.ofNat, dif_pos hvalid]
  change _ ≤ 0x10000 + (u.toNat - 0xD800) * 0x400 + (v.toNat - 0xDC00)
  omega

theorem decode_cons {u : UInt16} {c : Char} (hc : charOf u = some c) (us : List UInt16) :
    decode (u :: us) = (decode us).map (c :: ·) := by
  rw [decode.eq_def]
  simp only [hc]

/-- Units that are characters by themselves are the text of these. -/
theorem decode_of_charOf {us : List UInt16} (hus : ∀ u ∈ us, charOf u ≠ none) :
    decode us = some (us.filterMap charOf) := by
  induction us with
  | nil => rfl
  | cons u us ih =>
      obtain ⟨hu, hus⟩ := List.forall_mem_cons.mp hus
      obtain ⟨c, hc⟩ := Option.ne_none_iff_exists'.mp hu
      rw [List.filterMap_cons_some hc, decode_cons hc, ih hus, Option.map_some]

/-- A surrogate that is decoded gives a character from beyond the basic plane. -/
theorem beyond_of_decode {us : List UInt16} {cs : List Char} (hdecode : decode us = some cs)
    {u : UInt16} (hu : u ∈ us) (hsurrogate : charOf u = none) : ∃ c ∈ cs, 0x10000 ≤ c.toNat := by
  induction us using decode.induct generalizing cs with
  | case1 => cases hu
  | case2 u' us c hc ih =>
      rw [decode_cons hc] at hdecode
      obtain ⟨cs, hcs, rfl⟩ := Option.map_eq_some_iff.mp hdecode
      obtain rfl | hu := List.mem_cons.mp hu
      · rw [hc] at hsurrogate
        cases hsurrogate
      · obtain ⟨d, hd, hbeyond⟩ := ih hcs hu
        exact ⟨d, List.mem_cons_of_mem c hd, hbeyond⟩
  | case3 u' hc =>
      simp only [decode, hc] at hdecode
      cases hdecode
  | case4 u' hc v us hpair ih =>
      simp only [decode, hc, if_pos hpair] at hdecode
      obtain ⟨cs, -, rfl⟩ := Option.map_eq_some_iff.mp hdecode
      exact ⟨pair u' v, List.mem_cons_self, toNat_pair hpair.1 hpair.2⟩
  | case5 u' hc v us hpair =>
      simp only [decode, hc, if_neg hpair] at hdecode
      cases hdecode

end Utf16
