import Mathlib.Algebra.Group.Nat.Defs
import Mathlib.Data.Nat.Log

/-!
# Sizes on the wire

The sizes that the fields of a proto3 message take on the wire. A number is written in base 128, one
byte for each digit. A field whose number is below 16 has a tag of one byte, and a field that holds
its default is left out.
-/

namespace CacheServer.Wire

/-- The size of a number. -/
def varintSize (n : ℕ) : ℕ := Nat.log 128 n + 1

/-- The size of a field of type `bytes` or `string`, by the length of its content. -/
def bytesSize (length : ℕ) : ℕ := if length = 0 then 0 else 1 + varintSize length + length

/-- The size of a field of type `bool`. -/
def boolSize (b : Bool) : ℕ := if b then 2 else 0

/-- The size of a field of type `uint32`. -/
def uint32Size (n : UInt32) : ℕ := if n = 0 then 0 else 1 + varintSize n.toNat

/-- The size of a field of type `int64`. A negative number is written as the word that stands for
it. -/
def int64Size (n : Int64) : ℕ := if n = 0 then 0 else 1 + varintSize n.toUInt64.toNat

/-- A number with few digits is short. -/
theorem varintSize_le {n k : ℕ} (h : n < 128^(k + 1)) : varintSize n ≤ k + 1 :=
  Nat.succ_le_succ (Nat.lt_succ_iff.mp (Nat.log_lt_of_lt_pow' (Nat.succ_ne_zero k) h))

/-- A number with many digits is not. -/
theorem le_varintSize {n k : ℕ} (h : 128^k ≤ n) : k + 1 ≤ varintSize n :=
  Nat.succ_le_succ (Nat.le_log_of_pow_le (by decide) h)

/-- A field with a bounded content takes a tag, the digits of the length, and the content. -/
theorem bytesSize_le {length bound k : ℕ} (h : length ≤ bound) (hk : bound < 128^(k + 1)) :
    bytesSize length ≤ k + 2 + bound := by
  have hsize := varintSize_le (Nat.lt_of_le_of_lt h hk)
  unfold bytesSize
  split_ifs <;> omega

/-- A field of type `bool` takes at most two bytes. -/
theorem boolSize_le (b : Bool) : boolSize b ≤ 2 := by cases b <;> decide

/-- A field of type `uint32` takes at most six bytes. -/
theorem uint32Size_le (n : UInt32) : uint32Size n ≤ 6 := by
  have hsize : varintSize n.toNat ≤ 5 :=
    varintSize_le (Nat.lt_of_lt_of_le n.toNat_lt (by decide))
  unfold uint32Size
  split_ifs <;> omega

/-- A field of type `int64` takes at most eleven bytes. -/
theorem int64Size_le (n : Int64) : int64Size n ≤ 11 := by
  have hsize : varintSize n.toUInt64.toNat ≤ 10 :=
    varintSize_le (Nat.lt_of_lt_of_le n.toUInt64.toNat_lt (by decide))
  unfold int64Size
  split_ifs <;> omega

end CacheServer.Wire
