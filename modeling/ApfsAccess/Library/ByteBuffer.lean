import Mathlib

/-!
# Buffers that are read and overwritten in place

A buffer is a list.  Reading a field takes a *slice* of it, writing a field
*splices* new elements over old ones, and a number is stored as a fixed number of
little-endian bytes.  Everything a fixed-layout encoder needs to know about its
buffer is here: how long it stays, what a slice of the field just written is, and
that every slice away from the field is untouched.

* `slice_splice_self`, `slice_splice_of_disjoint` : the two reading laws.
* `slice_writeAll_of_mem`, `slice_writeAll_of_apart` : the same for a list of fields.
* `leValue_leBytes`, `leBytes_leValue` : the two directions of the number codec.
-/

namespace ByteBuffer

section Slices

variable {α : Type*}

/-- The `len` elements from offset `off` on. -/
def slice (xs : List α) (off len : ℕ) : List α :=
  (xs.drop off).take len

/-- `xs` with `seg` written over it from offset `off` on. -/
def splice (xs : List α) (off : ℕ) (seg : List α) : List α :=
  xs.take off ++ seg ++ xs.drop (off + seg.length)

theorem length_slice_of_le {xs : List α} {off len : ℕ} (h : off + len ≤ xs.length) :
    (slice xs off len).length = len := by
  unfold slice
  rw [List.length_take, List.length_drop]
  omega

theorem length_slice_le (xs : List α) (off len : ℕ) : (slice xs off len).length ≤ len := by
  unfold slice
  exact List.length_take_le _ _

@[simp] theorem slice_zero_length (xs : List α) : slice xs 0 xs.length = xs := by
  unfold slice
  simp

@[simp] theorem slice_zero (xs : List α) (off : ℕ) : slice xs off 0 = [] := by
  unfold slice
  simp

theorem getElem?_slice (xs : List α) (off len i : ℕ) :
    (slice xs off len)[i]? = if i < len then xs[off + i]? else none := by
  unfold slice
  rw [List.getElem?_take]
  split
  · rw [List.getElem?_drop]
  · rfl

/-- A slice of a slice is a slice. -/
theorem slice_slice {xs : List α} {off len off' len' : ℕ} (h : off' + len' ≤ len) :
    slice (slice xs off len) off' len' = slice xs (off + off') len' := by
  apply List.ext_getElem?
  intro i
  rw [getElem?_slice, getElem?_slice, getElem?_slice]
  by_cases hi : i < len'
  · rw [if_pos hi, if_pos hi, if_pos (by omega), Nat.add_assoc]
  · rw [if_neg hi, if_neg hi]

/-- Two adjacent slices make one. -/
theorem slice_append_slice (xs : List α) (off len len' : ℕ) :
    slice xs off len ++ slice xs (off + len) len' = slice xs off (len + len') := by
  unfold slice
  rw [List.take_add, List.drop_drop]

theorem length_splice {xs seg : List α} {off : ℕ} (h : off + seg.length ≤ xs.length) :
    (splice xs off seg).length = xs.length := by
  unfold splice
  simp only [List.length_append, List.length_take, List.length_drop]
  omega

theorem getElem?_splice {xs seg : List α} {off : ℕ} (h : off + seg.length ≤ xs.length) (i : ℕ) :
    (splice xs off seg)[i]? =
      if i < off then xs[i]? else if i < off + seg.length then seg[i - off]? else xs[i]? := by
  have htake : (xs.take off).length = off := by
    rw [List.length_take]
    omega
  unfold splice
  rw [List.append_assoc]
  by_cases h1 : i < off
  · rw [if_pos h1, List.getElem?_append_left (by omega), List.getElem?_take, if_pos h1]
  · rw [if_neg h1, List.getElem?_append_right (by omega), htake]
    by_cases h2 : i < off + seg.length
    · rw [if_pos h2, List.getElem?_append_left (by omega)]
    · rw [if_neg h2, List.getElem?_append_right (by omega), List.getElem?_drop]
      congr 1
      omega

/-- **What has just been written is read back.** -/
theorem slice_splice_self {xs seg : List α} {off : ℕ} (h : off + seg.length ≤ xs.length) :
    slice (splice xs off seg) off seg.length = seg := by
  apply List.ext_getElem?
  intro i
  rw [getElem?_slice]
  split
  · rename_i hi
    rw [getElem?_splice h, if_neg (by omega), if_pos (by omega)]
    congr 1
    omega
  · rename_i hi
    exact (List.getElem?_eq_none (by omega)).symm

/-- **A slice away from the written field is untouched.** -/
theorem slice_splice_of_disjoint {xs seg : List α} {off off' len : ℕ}
    (h : off + seg.length ≤ xs.length) (hdisjoint : off' + len ≤ off ∨ off + seg.length ≤ off') :
    slice (splice xs off seg) off' len = slice xs off' len := by
  apply List.ext_getElem?
  intro i
  rw [getElem?_slice, getElem?_slice]
  split
  · rename_i hi
    rw [getElem?_splice h]
    rcases hdisjoint with hbefore | hafter
    · rw [if_pos (by omega)]
    · rw [if_neg (by omega), if_neg (by omega)]
  · rfl

/-- Two ranges of a buffer that do not meet. -/
def Apart (off len off' len' : ℕ) : Prop := off + len ≤ off' ∨ off' + len' ≤ off

theorem Apart.symm {off len off' len' : ℕ} (h : Apart off len off' len') :
    Apart off' len' off len := Or.symm h

/-- Writing two adjacent fields is writing one, also past the end of the buffer. -/
theorem splice_splice_adjacent (xs left right : List α) (off : ℕ) :
    splice (splice xs off left) (off + left.length) right = splice xs off (left ++ right) := by
  unfold splice
  rw [List.length_append, ← Nat.add_assoc]
  rcases Nat.le_total off xs.length with hle | hge
  · have hfront : (xs.take off ++ left).length = off + left.length := by
      rw [List.length_append, List.length_take, Nat.min_eq_left hle]
    rw [List.take_left' hfront, ← List.drop_drop, List.drop_left' hfront, List.drop_drop]
    simp only [List.append_assoc]
  · have hend : xs.drop (off + left.length) = [] :=
      List.drop_of_length_le (Nat.le_add_right_of_le hge)
    have hrest : xs.drop (off + left.length + right.length) = [] :=
      List.drop_of_length_le (Nat.le_add_right_of_le (Nat.le_add_right_of_le hge))
    have hfront : (xs ++ left).length ≤ off + left.length := by
      rw [List.length_append]
      exact Nat.add_le_add_right hge _
    rw [List.take_of_length_le hge, hend, hrest, List.append_nil, List.take_of_length_le hfront,
      List.drop_of_length_le (Nat.le_add_right_of_le hfront)]
    simp only [List.append_assoc, List.append_nil]

/-- A buffer after a list of fields has been written, first to last. -/
def writeAll (xs : List α) (fields : List (ℕ × List α)) : List α :=
  fields.foldl (fun ys field => splice ys field.1 field.2) xs

@[simp] theorem writeAll_nil (xs : List α) : writeAll xs [] = xs := rfl

@[simp] theorem writeAll_cons (xs : List α) (field : ℕ × List α) (fields : List (ℕ × List α)) :
    writeAll xs (field :: fields) = writeAll (splice xs field.1 field.2) fields := rfl

theorem writeAll_adjacent (xs : List α) {left right : List α} {off off' : ℕ}
    (fields : List (ℕ × List α)) (h : off' = off + left.length) :
    writeAll xs ((off, left) :: (off', right) :: fields) =
      writeAll xs ((off, left ++ right) :: fields) := by
  rw [writeAll_cons, writeAll_cons, writeAll_cons, h, splice_splice_adjacent]

theorem length_writeAll {xs : List α} {fields : List (ℕ × List α)}
    (h : ∀ field ∈ fields, field.1 + field.2.length ≤ xs.length) :
    (writeAll xs fields).length = xs.length := by
  induction fields generalizing xs with
  | nil => rfl
  | cons field fields ih =>
    obtain ⟨hfield, hfields⟩ := List.forall_mem_cons.mp h
    have hlength := length_splice hfield
    rw [writeAll_cons, ih (by rwa [hlength]), hlength]

/-- A slice away from every written field is untouched. -/
theorem slice_writeAll_of_apart {xs : List α} {fields : List (ℕ × List α)} {off len : ℕ}
    (h : ∀ field ∈ fields, field.1 + field.2.length ≤ xs.length)
    (hapart : ∀ field ∈ fields, Apart off len field.1 field.2.length) :
    slice (writeAll xs fields) off len = slice xs off len := by
  induction fields generalizing xs with
  | nil => rfl
  | cons field fields ih =>
    obtain ⟨hfield, hfields⟩ := List.forall_mem_cons.mp h
    obtain ⟨hapartField, hapartFields⟩ := List.forall_mem_cons.mp hapart
    rw [writeAll_cons, ih (by rwa [length_splice hfield]) hapartFields,
      slice_splice_of_disjoint hfield hapartField]

/-- **Fields that do not meet are all read back.** -/
theorem slice_writeAll_of_mem {xs : List α} {fields : List (ℕ × List α)}
    (h : ∀ field ∈ fields, field.1 + field.2.length ≤ xs.length)
    (hapart : fields.Pairwise fun f g => Apart f.1 f.2.length g.1 g.2.length)
    {field : ℕ × List α} (hmem : field ∈ fields) :
    slice (writeAll xs fields) field.1 field.2.length = field.2 := by
  induction fields generalizing xs with
  | nil => cases hmem
  | cons first fields ih =>
    obtain ⟨hfirst, hfields⟩ := List.forall_mem_cons.mp h
    obtain ⟨hapartFirst, hapartFields⟩ := List.pairwise_cons.mp hapart
    have hbounds : ∀ field ∈ fields,
        field.1 + field.2.length ≤ (splice xs first.1 first.2).length := by
      rwa [length_splice hfirst]
    rw [writeAll_cons]
    rcases List.mem_cons.mp hmem with rfl | hlater
    · rw [slice_writeAll_of_apart hbounds hapartFirst, slice_splice_self hfirst]
    · exact ih hbounds hapartFields hlater

end Slices

section LittleEndian

/-- The `w` little-endian bytes of `n`. -/
def leBytes : ℕ → ℕ → List UInt8
  | 0, _ => []
  | w + 1, n => UInt8.ofNat (n % 256) :: leBytes w (n / 256)

/-- The number with the given little-endian bytes. -/
def leValue : List UInt8 → ℕ
  | [] => 0
  | b :: bs => b.toNat + 256 * leValue bs

@[simp] theorem leValue_nil : leValue [] = 0 := rfl

@[simp] theorem leValue_cons (b : UInt8) (bs : List UInt8) :
    leValue (b :: bs) = b.toNat + 256 * leValue bs := rfl

@[simp] theorem length_leBytes (w n : ℕ) : (leBytes w n).length = w := by
  induction w generalizing n with
  | zero => rfl
  | succ w ih => simp [leBytes, ih]

theorem leValue_lt (bs : List UInt8) : leValue bs < 256 ^ bs.length := by
  induction bs with
  | nil => simp
  | cons b bs ih =>
    have hb : b.toNat < 256 := b.toNat_lt
    rw [leValue_cons, List.length_cons, pow_succ]
    omega

/-- **A number that fits is read back.** -/
theorem leValue_leBytes {w n : ℕ} (h : n < 256 ^ w) : leValue (leBytes w n) = n := by
  induction w generalizing n with
  | zero =>
    rw [pow_zero] at h
    simp only [leBytes, leValue_nil]
    omega
  | succ w ih =>
    have hmod : n % 256 < 256 := Nat.mod_lt n (by norm_num)
    have hbyte : (UInt8.ofNat (n % 256)).toNat = n % 256 := by
      rw [UInt8.toNat_ofNat']
      exact Nat.mod_eq_of_lt hmod
    rw [pow_succ] at h
    rw [leBytes, leValue_cons, hbyte, ih (by omega)]
    omega

/-- **Bytes are determined by the number they hold.** -/
theorem leBytes_leValue (bs : List UInt8) : leBytes bs.length (leValue bs) = bs := by
  induction bs with
  | nil => rfl
  | cons b bs ih =>
    have hb : b.toNat < 256 := b.toNat_lt
    have hmod : (b.toNat + 256 * leValue bs) % 256 = b.toNat := by omega
    have hdiv : (b.toNat + 256 * leValue bs) / 256 = leValue bs := by omega
    rw [List.length_cons, leBytes, leValue_cons, hmod, hdiv, ih, UInt8.ofNat_toNat]

end LittleEndian

end ByteBuffer
