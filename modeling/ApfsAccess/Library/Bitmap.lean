import Mathlib

/-!
# Bitmaps

A bitmap is a list of bytes; bit `i` is bit `i % 8` of byte `i / 8`, and a bit behind the end is
clear.
-/

namespace Bitmap

/-- The bit is set. -/
def bitSet (bitmap : List UInt8) (bit : ℕ) : Bool :=
  match bitmap[bit / 8]? with
  | none => false
  | some byte => byte.toNat.testBit (bit % 8)

/-- A mask is in a number when each of its bits is. -/
theorem and_eq_mask_iff {number mask : ℕ} :
    number &&& mask = mask ↔ ∀ j, mask.testBit j = true → number.testBit j = true := by
  constructor
  · intro h j hj
    rw [← h, Nat.testBit_and, Bool.and_eq_true] at hj
    exact hj.1
  · intro h
    refine Nat.eq_of_testBit_eq fun j => ?_
    rw [Nat.testBit_and]
    cases hmask : mask.testBit j with
    | false => rw [Bool.and_false]
    | true => rw [h j hmask, Bool.and_true]

theorem bitSet_of_getElem? {bitmap : List UInt8} {bit : ℕ} {byte : UInt8}
    (h : bitmap[bit / 8]? = some byte) :
    bitSet bitmap bit = byte.toNat.testBit (bit % 8) := by
  rw [bitSet, h]

end Bitmap
