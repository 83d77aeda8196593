import Mathlib.Algebra.Order.Ring.Nat

/-!
# Little-endian bytes

A natural number as a given number of bytes, least significant first, and back. The two are inverse
to each other on the numbers that fit.
-/

namespace CacheServer.LittleEndian

/-- The lowest bytes of a number, least significant first. -/
def toBytes : ℕ → ℕ → List UInt8
  | 0, _ => []
  | k + 1, n => UInt8.ofNat n :: toBytes k (n / 256)

/-- The number that the bytes stand for. -/
def ofBytes : List UInt8 → ℕ
  | [] => 0
  | b :: bs => b.toNat + 256 * ofBytes bs

/-- A number of bytes was asked for, and that many there are. -/
@[simp]
theorem length_toBytes (k n : ℕ) : (toBytes k n).length = k := by
  induction k generalizing n with
  | zero => rfl
  | succ k ih => simp [toBytes, ih]

/-- A number that fits is read back. -/
theorem ofBytes_toBytes {k n : ℕ} (h : n < 256^k) : ofBytes (toBytes k n) = n := by
  induction k generalizing n with
  | zero =>
    simp only [pow_zero] at h
    simp [toBytes, ofBytes]
    omega
  | succ k ih =>
    have hdiv : n / 256 < 256^k := by
      rw [pow_succ] at h
      exact Nat.div_lt_of_lt_mul (by rwa [Nat.mul_comm])
    simp only [toBytes, ofBytes, ih hdiv, UInt8.toNat_ofNat']
    omega

/-- The bytes of a number are written back. -/
theorem toBytes_ofBytes (bs : List UInt8) : toBytes bs.length (ofBytes bs) = bs := by
  induction bs with
  | nil => rfl
  | cons b bs ih =>
    have hlt := b.toNat_lt
    have hdiv : (b.toNat + 256 * ofBytes bs) / 256 = ofBytes bs := by omega
    have hbyte : UInt8.ofNat (b.toNat + 256 * ofBytes bs) = b := by
      apply UInt8.toNat_inj.mp
      rw [UInt8.toNat_ofNat']
      omega
    simp only [List.length_cons, toBytes, ofBytes, hdiv, hbyte, ih]

/-- The number is one of as many bytes. -/
theorem ofBytes_lt (bs : List UInt8) : ofBytes bs < 256^bs.length := by
  induction bs with
  | nil => simp [ofBytes]
  | cons b bs ih =>
    have hlt := b.toNat_lt
    simp only [ofBytes, List.length_cons, pow_succ]
    omega

end CacheServer.LittleEndian
