import ApfsAccess.Library.ByteBuffer

/-!
# Buffers of fixed-width fields

A big-endian word is the little-endian one turned.  A field of fixed width carries its width in its
type, and a list of records of one width is read back by index.

* `beValue_beBytes`, `beBytes_beValue` : a big-endian word and its number.
* `beValue_cons` : the first byte is the highest.
* `fieldAt_append` : a field after what stands in front of it.
* `records_flatMap` : the records of one width that were written one after another.
* `flatten_records` : the records of a buffer make the buffer.
-/

namespace ByteBuffer

section BigEndian

/-- The `w` big-endian bytes of `n`. -/
def beBytes (w n : ℕ) : List UInt8 := (leBytes w n).reverse

/-- The number with the given big-endian bytes. -/
def beValue (bytes : List UInt8) : ℕ := leValue bytes.reverse

@[simp] theorem length_beBytes (w n : ℕ) : (beBytes w n).length = w := by
  rw [beBytes, List.length_reverse, length_leBytes]

theorem beValue_beBytes {w n : ℕ} (h : n < 256 ^ w) : beValue (beBytes w n) = n := by
  rw [beValue, beBytes, List.reverse_reverse, leValue_leBytes h]

theorem beBytes_beValue (bytes : List UInt8) : beBytes bytes.length (beValue bytes) = bytes := by
  have h := leBytes_leValue bytes.reverse
  rw [List.length_reverse] at h
  rw [beBytes, beValue, h, List.reverse_reverse]

theorem beValue_lt (bytes : List UInt8) : beValue bytes < 256 ^ bytes.length := by
  have h := leValue_lt bytes.reverse
  rwa [List.length_reverse] at h

theorem leValue_append_singleton (bytes : List UInt8) (byte : UInt8) :
    leValue (bytes ++ [byte]) = leValue bytes + 256 ^ bytes.length * byte.toNat := by
  induction bytes with
  | nil => simp
  | cons first rest ih =>
    rw [List.cons_append, leValue_cons, leValue_cons, ih, List.length_cons]
    ring

theorem beValue_cons (byte : UInt8) (bytes : List UInt8) :
    beValue (byte :: bytes) = beValue bytes + 256 ^ bytes.length * byte.toNat := by
  rw [beValue, beValue, List.reverse_cons, leValue_append_singleton, List.length_reverse]

end BigEndian

section Fields

variable {α : Type*} [Inhabited α]

/-- The field of `n` elements from an offset on, filled up where the buffer ends before it does. -/
def fieldAt (n : ℕ) (xs : List α) (off : ℕ) : List.Vector α n :=
  ⟨(xs.drop off).takeD n default, List.takeD_length ..⟩

theorem fieldAt_val {n off : ℕ} {xs : List α} (h : off + n ≤ xs.length) :
    (fieldAt n xs off).val = slice xs off n := by
  have hroom : n ≤ (xs.drop off).length := by
    rw [List.length_drop]
    omega
  exact List.takeD_eq_take default hroom

/-- A field stands where what is in front of it ends. -/
theorem fieldAt_append {n off : ℕ} {front back : List α} (field : List.Vector α n)
    (hoff : front.length = off) : fieldAt n (front ++ (field.val ++ back)) off = field := by
  subst hoff
  refine Subtype.ext ?_
  calc (fieldAt n (front ++ (field.val ++ back)) front.length).val
      = ((front ++ (field.val ++ back)).drop front.length).takeD n default := rfl
    _ = (field.val ++ back).takeD n default := by rw [List.drop_left]
    _ = field.val := List.takeD_left' field.property

end Fields

section Records

variable {α β : Type*}

/-- A slice and what follows it. -/
theorem slice_append_drop (xs : List α) (off len : ℕ) :
    slice xs off len ++ xs.drop (off + len) = xs.drop off := by
  rw [slice, ← List.drop_drop, List.take_append_drop]

/-- The first `count` records of `w` elements. -/
def records (w count : ℕ) (xs : List α) : List (List α) :=
  (List.range count).map fun i => slice xs (w * i) w

theorem records_succ (w count : ℕ) (xs : List α) :
    records w (count + 1) xs = xs.take w :: records w count (xs.drop w) := by
  rw [records, List.range_succ_eq_map, List.map_cons, List.map_map]
  refine congrArg₂ List.cons ?_ (List.map_congr_left fun i _ => ?_)
  · rw [Nat.mul_zero, slice, List.drop_zero]
  · rw [Function.comp_apply, slice, slice, List.drop_drop, Nat.succ_eq_add_one, Nat.mul_add_one,
      Nat.add_comm]

theorem length_of_mem_records {w count : ℕ} {xs record : List α} (h : xs.length = w * count)
    (hrecord : record ∈ records w count xs) : record.length = w := by
  obtain ⟨i, hi, rfl⟩ := List.mem_map.mp hrecord
  refine length_slice_of_le ?_
  have hlast : w * (i + 1) ≤ w * count := Nat.mul_le_mul_left w (List.mem_range.mp hi)
  rwa [h, ← Nat.mul_add_one]

/-- **Records that were written one after another.** -/
theorem records_flatMap {w : ℕ} {write : β → List α} (hwidth : ∀ record, (write record).length = w)
    (written : List β) (back : List α) :
    records w written.length (written.flatMap write ++ back) = written.map write := by
  induction written with
  | nil => rfl
  | cons first rest ih =>
    rw [List.length_cons, records_succ, List.flatMap_cons, List.append_assoc,
      List.take_left' (hwidth first), List.drop_left' (hwidth first), ih, List.map_cons]

/-- **The records of a buffer make the buffer.** -/
theorem flatten_records {w count : ℕ} {xs : List α} (h : xs.length = w * count) :
    (records w count xs).flatten = xs := by
  induction count generalizing xs with
  | zero =>
    rw [Nat.mul_zero, List.length_eq_zero_iff] at h
    rw [h]
    rfl
  | succ count ih =>
    have hrest : (xs.drop w).length = w * count := by
      rw [List.length_drop, h, Nat.mul_add_one, Nat.add_sub_cancel]
    rw [records_succ, List.flatten_cons, ih hrest, List.take_append_drop]

end Records

end ByteBuffer
