import Mathlib

/-!
# A disk of addressed cells

A disk has a size and a cell at every address.  A *write* stores a list of values from
an offset on; `contents` is the list of the cells of a range.

* `contents_write_self`, `byte_write_of_apart` : a write is read back, and changes
  nothing else.
* `contents_eq_iff` : a range holds a list when it does so cell by cell.
* `sectors_write`, `contents_eq_of_sectors` : the disk as a sequence of sectors.
-/

namespace Storage

/-- A disk of `sizeBytes` cells; cells past the end are never read. -/
structure Disk (α : Type*) where
  sizeBytes : ℕ
  byte : ℕ → α

variable {α : Type*}

namespace Disk

/-- The cells of a range. -/
def contents (disk : Disk α) (offset size : ℕ) : List α :=
  (List.range size).map fun i => disk.byte (offset + i)

/-- Read a range; a range past the end is refused. -/
def read (disk : Disk α) (offset size : ℕ) : Option (List α) :=
  if offset + size ≤ disk.sizeBytes then some (disk.contents offset size) else none

/-- Store a list from an offset on. -/
def write (disk : Disk α) (offset : ℕ) (values : List α) : Disk α where
  sizeBytes := disk.sizeBytes
  byte := fun x => if x < offset then disk.byte x else (values[x - offset]?).getD (disk.byte x)

@[simp] theorem sizeBytes_write (disk : Disk α) (offset : ℕ) (values : List α) :
    (disk.write offset values).sizeBytes = disk.sizeBytes := rfl

@[simp] theorem length_contents (disk : Disk α) (offset size : ℕ) :
    (disk.contents offset size).length = size := by
  unfold contents
  rw [List.length_map, List.length_range]

theorem read_of_le {disk : Disk α} {offset size : ℕ} (h : offset + size ≤ disk.sizeBytes) :
    disk.read offset size = some (disk.contents offset size) := by
  unfold read
  rw [if_pos h]

theorem getElem?_contents {disk : Disk α} {offset size i : ℕ} (h : i < size) :
    (disk.contents offset size)[i]? = some (disk.byte (offset + i)) := by
  unfold contents
  rw [List.getElem?_map, List.getElem?_range h]
  rfl

/-- **A range holds a list when it does so cell by cell.** -/
theorem contents_eq_iff {disk : Disk α} {offset : ℕ} {values : List α} :
    disk.contents offset values.length = values ↔
      ∀ i < values.length, values[i]? = some (disk.byte (offset + i)) := by
  constructor
  · intro h i hi
    rw [← getElem?_contents hi, h]
  · intro h
    apply List.ext_getElem?
    intro i
    by_cases hi : i < values.length
    · rw [getElem?_contents hi, h i hi]
    · rw [List.getElem?_eq_none (by rw [length_contents]; omega),
        List.getElem?_eq_none (by omega)]

/-- Two disks that agree on a range hold the same there. -/
theorem contents_congr {disk disk' : Disk α} {offset size : ℕ}
    (h : ∀ x, offset ≤ x → x < offset + size → disk.byte x = disk'.byte x) :
    disk.contents offset size = disk'.contents offset size := by
  unfold contents
  refine List.map_congr_left fun i hi => ?_
  rw [List.mem_range] at hi
  exact h (offset + i) (by omega) (by omega)

/-- Two adjacent ranges are one. -/
theorem contents_add (disk : Disk α) (offset first second : ℕ) :
    disk.contents offset (first + second) =
      disk.contents offset first ++ disk.contents (offset + first) second := by
  unfold contents
  rw [List.range_add, List.map_append, List.map_map]
  congr 1
  refine List.map_congr_left fun i _ => ?_
  rw [Function.comp_apply, Nat.add_assoc]

/-- A cell outside the range of a write is untouched. -/
theorem byte_write_of_apart {disk : Disk α} {offset x : ℕ} {values : List α}
    (h : x < offset ∨ offset + values.length ≤ x) : (disk.write offset values).byte x = disk.byte x := by
  show (if x < offset then disk.byte x else (values[x - offset]?).getD (disk.byte x)) = disk.byte x
  split
  · rfl
  · rw [List.getElem?_eq_none (by omega)]
    rfl

/-- What is stored is read back. -/
theorem contents_write_self (disk : Disk α) (offset : ℕ) (values : List α) :
    (disk.write offset values).contents offset values.length = values := by
  rw [contents_eq_iff]
  intro i hi
  show values[i]? = some (if offset + i < offset then disk.byte (offset + i)
    else (values[offset + i - offset]?).getD (disk.byte (offset + i)))
  rw [if_neg (by omega), Nat.add_sub_cancel_left, List.getElem?_eq_getElem hi]
  rfl

/-- A range apart from a write holds what it held. -/
theorem contents_write_of_apart {disk : Disk α} {offset offset' size : ℕ} {values : List α}
    (h : offset' + size ≤ offset ∨ offset + values.length ≤ offset') :
    (disk.write offset values).contents offset' size = disk.contents offset' size :=
  contents_congr fun x hlow hhigh => byte_write_of_apart (by omega)

/-- A slice of a range is a range. -/
theorem take_drop_contents {disk : Disk α} {offset size start len : ℕ} (h : start + len ≤ size) :
    ((disk.contents offset size).drop start).take len = disk.contents (offset + start) len := by
  apply List.ext_getElem?
  intro i
  rw [List.getElem?_take]
  split
  · rename_i hi
    rw [List.getElem?_drop, getElem?_contents (by omega), getElem?_contents hi, Nat.add_assoc]
  · exact (List.getElem?_eq_none (by rw [length_contents]; omega)).symm

theorem take_contents {disk : Disk α} {offset size len : ℕ} (h : len ≤ size) :
    (disk.contents offset size).take len = disk.contents offset len := by
  have hpart : ((disk.contents offset size).drop 0).take len = disk.contents (offset + 0) len :=
    take_drop_contents (by omega)
  rwa [List.drop_zero, Nat.add_zero] at hpart

/-! ## Sectors -/

/-- The disk as a sequence of sectors of one size. -/
def sectors (disk : Disk α) (sector : ℕ) : ℕ → List α :=
  fun lba => disk.contents (lba * sector) sector

/-- **Writing a whole sector replaces that sector and no other.** -/
theorem sectors_write {disk : Disk α} {sector lba : ℕ} {values : List α}
    (h : values.length = sector) :
    (disk.write (lba * sector) values).sectors sector =
      Function.update (disk.sectors sector) lba values := by
  subst h
  ext1 other
  by_cases hother : other = lba
  · rw [hother, Function.update_self]
    exact contents_write_self disk _ values
  · rw [Function.update_of_ne hother]
    refine contents_write_of_apart ?_
    rcases Nat.lt_or_gt_of_ne hother with hlt | hgt
    · left
      calc other * values.length + values.length = (other + 1) * values.length := by ring
        _ ≤ lba * values.length := Nat.mul_le_mul_right _ hlt
    · right
      calc lba * values.length + values.length = (lba + 1) * values.length := by ring
        _ ≤ other * values.length := Nat.mul_le_mul_right _ hgt

/-- A range of whole sectors is read sector by sector. -/
theorem take_drop_contents_sectors {disk : Disk α} {sector lba count k : ℕ} (h : k < count) :
    ((disk.contents (lba * sector) (count * sector)).drop (k * sector)).take sector =
      disk.sectors sector (lba + k) := by
  have hle : k * sector + sector ≤ count * sector := by
    calc k * sector + sector = (k + 1) * sector := by ring
      _ ≤ count * sector := Nat.mul_le_mul_right _ h
  rw [take_drop_contents hle, ← Nat.add_mul]
  rfl

/-- **A range of whole sectors holds a list when every sector holds its part.** -/
theorem contents_eq_of_sectors {disk : Disk α} {sector lba count : ℕ} {values : List α}
    (hsector : 0 < sector) (hlength : values.length = count * sector)
    (h : ∀ k < count, disk.sectors sector (lba + k) = (values.drop (k * sector)).take sector) :
    disk.contents (lba * sector) (count * sector) = values := by
  rw [← hlength, contents_eq_iff]
  intro i hi
  have hdiv : i / sector < count := by
    rw [Nat.div_lt_iff_lt_mul hsector]
    omega
  have hmod := Nat.mod_lt i hsector
  have hsplit := Nat.div_add_mod' i sector
  have hpart := congrArg (fun part => part[i % sector]?) (h (i / sector) hdiv)
  rw [List.getElem?_take, if_pos hmod, List.getElem?_drop, hsplit] at hpart
  rw [← hpart]
  have hcell : (disk.sectors sector (lba + i / sector))[i % sector]? =
      some (disk.byte ((lba + i / sector) * sector + i % sector)) := getElem?_contents hmod
  rw [hcell, Nat.add_mul, Nat.add_assoc, hsplit]

end Disk
end Storage
