import ApfsAccess.Library.ByteBuffer

/-!
# The byte codec of the format layer

`ReadU16LE`, `ReadU32LE` and `ReadU64LE` read a number at an offset and fail past
the end of the buffer; `PutU16`, `PutU32` and `PutU64` overwrite one in place;
`AppendU16`, `AppendU32` and `AppendU64` append one.  All nine are one reader, one
writer and one appender at three widths.
-/

namespace ApfsAccess
namespace Format

open ByteBuffer

/-- A byte vector. -/
abbrev Bytes := List UInt8

/-- `catalog::BtreeRecord`. -/
structure BtreeRecord where
  key : Bytes
  value : Bytes
  deriving DecidableEq, Repr

/-- The common body of the three little-endian readers. -/
def readLE (width : ℕ) (buffer : Bytes) (offset : ℕ) : Option ℕ :=
  if offset + width ≤ buffer.length then some (leValue (slice buffer offset width)) else none

/-- `ReadU16LE`. -/
def readU16LE (buffer : Bytes) (offset : ℕ) : Option ℕ := readLE 2 buffer offset

/-- `ReadU32LE`. -/
def readU32LE (buffer : Bytes) (offset : ℕ) : Option ℕ := readLE 4 buffer offset

/-- `ReadU64LE`. -/
def readU64LE (buffer : Bytes) (offset : ℕ) : Option ℕ := readLE 8 buffer offset

theorem readLE_lt {width : ℕ} {buffer : Bytes} {offset value : ℕ}
    (h : readLE width buffer offset = some value) : value < 256 ^ width := by
  unfold readLE at h
  split at h
  · rename_i hle
    obtain rfl := Option.some.inj h
    have hlt := leValue_lt (slice buffer offset width)
    rwa [length_slice_of_le hle] at hlt
  · cases h

/-- A reader's value, defaulting to zero, still fits its width. -/
theorem readLE_getD_lt (width : ℕ) (buffer : Bytes) (offset : ℕ) :
    (readLE width buffer offset).getD 0 < 256 ^ width := by
  cases h : readLE width buffer offset with
  | none => exact Nat.pow_pos (by norm_num)
  | some value => exact readLE_lt h

/-- The common body of the three little-endian writers `PutU16`, `PutU32` and `PutU64`. -/
def putLE (width : ℕ) (buffer : Bytes) (offset value : ℕ) : Bytes :=
  splice buffer offset (leBytes width value)

/-- `PutU16`. -/
def putU16 (buffer : Bytes) (offset value : ℕ) : Bytes := putLE 2 buffer offset value

/-- `PutU32`. -/
def putU32 (buffer : Bytes) (offset value : ℕ) : Bytes := putLE 4 buffer offset value

/-- `PutU64`. -/
def putU64 (buffer : Bytes) (offset value : ℕ) : Bytes := putLE 8 buffer offset value

theorem length_putLE {width : ℕ} {buffer : Bytes} {offset value : ℕ}
    (h : offset + width ≤ buffer.length) :
    (putLE width buffer offset value).length = buffer.length := by
  unfold putLE
  exact length_splice (by rwa [length_leBytes])

/-- A slice away from a number that was put is untouched. -/
theorem slice_putLE {width : ℕ} {buffer : Bytes} {offset value off len : ℕ}
    (h : offset + width ≤ buffer.length) (hdisjoint : off + len ≤ offset ∨ offset + width ≤ off) :
    slice (putLE width buffer offset value) off len = slice buffer off len := by
  unfold putLE
  exact slice_splice_of_disjoint (by rwa [length_leBytes]) (by rwa [length_leBytes])

/-- The number that was put is the slice it was put over. -/
theorem slice_putLE_self {width : ℕ} {buffer : Bytes} {offset value : ℕ}
    (h : offset + width ≤ buffer.length) :
    slice (putLE width buffer offset value) offset width = leBytes width value := by
  have hself : slice (splice buffer offset (leBytes width value)) offset
      (leBytes width value).length = leBytes width value :=
    slice_splice_self (by rwa [length_leBytes])
  rwa [length_leBytes] at hself

/-- A reader sees nothing but the slice it reads. -/
theorem readLE_of_slice {width : ℕ} {buffer : Bytes} {offset value : ℕ}
    (hbound : offset + width ≤ buffer.length)
    (hslice : slice buffer offset width = leBytes width value) (hvalue : value < 256 ^ width) :
    readLE width buffer offset = some value := by
  unfold readLE
  rw [if_pos hbound, hslice, leValue_leBytes hvalue]

/-- A number that was appended is read back. -/
theorem readLE_append {width value : ℕ} (front back : Bytes) (h : value < 256 ^ width) :
    readLE width (front ++ (leBytes width value ++ back)) front.length = some value := by
  have hslice : slice (front ++ (leBytes width value ++ back)) front.length width =
      leBytes width value := by
    unfold slice
    rw [List.drop_left, List.take_left' (length_leBytes width value)]
  unfold readLE
  rw [if_pos (by simp), hslice, leValue_leBytes h]

end Format
end ApfsAccess
