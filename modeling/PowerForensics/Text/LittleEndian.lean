import Mathlib.Algebra.Order.Ring.Nat
import Mathlib.Tactic.Ring

/-! # Little-endian integers

An unsigned integer as a fixed number of bytes, the lowest first.
-/

namespace LittleEndian

def encode : Nat → Nat → List UInt8
  | 0, _ => []
  | size + 1, n => UInt8.ofNat n :: encode size (n / 256)

def decode : List UInt8 → Nat
  | [] => 0
  | b :: bs => b.toNat + 256 * decode bs

@[simp] theorem length_encode (size n : Nat) : (encode size n).length = size := by
  induction size generalizing n with
  | zero => rfl
  | succ size ih => rw [encode, List.length_cons, ih]

/-- What does not fit into the bytes is lost. -/
theorem decode_encode (size n : Nat) : decode (encode size n) = n % 256 ^ size := by
  induction size generalizing n with
  | zero => simp [encode, decode, Nat.mod_one]
  | succ size ih =>
      have hlow : (UInt8.ofNat n).toNat = n % 256 := by simp
      rw [encode, decode, ih, hlow, Nat.pow_succ, Nat.mul_comm (256 ^ size), Nat.mod_mul]

theorem decode_encode_of_lt {size n : Nat} (hn : n < 256 ^ size) :
    decode (encode size n) = n := by
  rw [decode_encode, Nat.mod_eq_of_lt hn]

theorem encode_decode (bs : List UInt8) : encode bs.length (decode bs) = bs := by
  induction bs with
  | nil => rfl
  | cons b bs ih =>
      have hb := b.toNat_lt
      have hdiv : (b.toNat + 256 * decode bs) / 256 = decode bs := by omega
      have hlow : UInt8.ofNat (b.toNat + 256 * decode bs) = b := by
        rw [← UInt8.toNat_inj, UInt8.toNat_ofNat']
        omega
      rw [decode, List.length_cons, encode, hdiv, ih, hlow]

end LittleEndian
