import ApfsAccess.Library.Bitmap

/-!
# The range test of the Fusion bitmap

`RangeAllocated` charges the bytes of a range to the read budget and then tests the range byte by
byte: the first and the last byte under a mask, the bytes between them whole.

* `Admits` : the ranges that reach the bytes.
* `rangeAllocated_iff_every_bit_set` : the test passes exactly when every bit of an admitted range is
  set.
-/

namespace ApfsAccess
namespace Fusion

open Bitmap

/-! ## The read budget -/

/-- `ApfsReadBudget`, the part that `Materialize` reads and writes. -/
structure ReadBudget where
  recordsLeft : UInt64
  recordBytesLeft : UInt64
  failure : Option String
  consumedRecords : UInt64
  consumedRecordBytes : UInt64
  refused : UInt64 × UInt64
  deriving DecidableEq

namespace ReadBudget

/-- `Refuse`: the first reason stays. -/
def refuse (budget : ReadBudget) (reason : String) : ReadBudget :=
  { budget with failure := some (budget.failure.getD reason) }

/-- `Failure`. -/
def failureText (budget : ReadBudget) : String := budget.failure.getD ""

/-- `Materialize`. -/
def materialize (budget : ReadBudget) (count bytes : UInt64) : Bool × ReadBudget :=
  if budget.failure.isSome then (false, budget)
  else if count > budget.recordsLeft ∨ bytes > budget.recordBytesLeft then
    (false, { budget with refused := (count, bytes) }.refuse "ApfsReadBudgetRecordLimit")
  else
    (true, { budget with
      recordsLeft := budget.recordsLeft - count
      recordBytesLeft := budget.recordBytesLeft - bytes
      consumedRecords := budget.consumedRecords + count
      consumedRecordBytes := budget.consumedRecordBytes + bytes })

/-- What the budget becomes by a charge of records that it has. -/
theorem materialize_fst_iff {budget : ReadBudget} {count : UInt64} :
    (budget.materialize count 0).1 = true ↔
      budget.failure = none ∧ count ≤ budget.recordsLeft := by
  rw [materialize]
  by_cases hfailed : budget.failure.isSome
  · rw [if_pos hfailed]
    refine iff_of_false nofun fun h => ?_
    rw [h.1] at hfailed
    exact absurd hfailed nofun
  · rw [if_neg hfailed]
    have hnone : budget.failure = none := Option.not_isSome_iff_eq_none.mp hfailed
    have hbytes : ¬ (0 : UInt64) > budget.recordBytesLeft := by
      rw [gt_iff_lt, UInt64.not_lt, UInt64.le_iff_toNat_le]
      exact Nat.zero_le _
    by_cases hcount : count > budget.recordsLeft
    · rw [if_pos (.inl hcount)]
      exact iff_of_false nofun fun h => UInt64.not_lt.mpr h.2 hcount
    · rw [if_neg (not_or.mpr ⟨hcount, hbytes⟩)]
      exact iff_of_true rfl ⟨hnone, UInt64.not_lt.mp hcount⟩

end ReadBudget

/-! ## The test -/

/-- The lambda `contains` of `RangeAllocated`. -/
def contains (bitmap : List UInt8) (index mask : ℕ) : Bool :=
  match bitmap[index]? with
  | none => false
  | some byte => byte.toNat &&& mask == mask

/-- The bits of a byte from the one where the range starts. -/
def headMask (startBit : ℕ) : ℕ := (0xff <<< (startBit % 8)) &&& 0xff

/-- The bits of a byte up to the last one of the range. -/
def tailMask (finalBit : ℕ) : ℕ := 0xff >>> (7 - finalBit % 8)

/-- The tests of the bytes at the end of `RangeAllocated`. -/
def bytesAllocated (bitmap : List UInt8) (startBit finalBit : ℕ) : Bool :=
  let first := startBit / 8
  let last := finalBit / 8
  if first = last then contains bitmap first (headMask startBit &&& tailMask finalBit)
  else
    contains bitmap first (headMask startBit) &&
      (List.range' (first + 1) (last - (first + 1))).all (fun byte => bitmap[byte]? == some 0xff) &&
      contains bitmap last (tailMask finalBit)

/-- `RangeAllocated`. -/
def rangeAllocated (bitmap : List UInt8) (startBit count : UInt64) :
    Option ReadBudget → Except String Unit × Option ReadBudget
  | none => (.error "FusionBitmapBudgetRequired", none)
  | some budget =>
    if budget.failure.isSome then (.error budget.failureText, some budget)
    else if count = 0 ∨ count > UInt64.ofNat (2 ^ 64 - 1) - startBit then
      (.error "FusionBitmapRangeInvalid", some budget)
    else
      let first := startBit / 8
      let finalBit := startBit + count - 1
      let last := finalBit / 8
      if last.toNat ≥ bitmap.length then (.error "FusionBitmapRangeInvalid", some budget)
      else
        let (charged, after) := budget.materialize (last - first + 1) 0
        if !charged then (.error after.failureText, some after)
        else if bytesAllocated bitmap startBit.toNat finalBit.toNat then (.ok (), some after)
        else (.error "FusionVolumeOwnerFree", some after)

/-- The ranges whose bytes `RangeAllocated` looks at: the range is in the bitmap, and the budget has
not failed and covers the bytes. -/
structure Admits (bitmap : List UInt8) (startBit count : UInt64) (budget : ReadBudget) : Prop where
  notFailed : budget.failure = none
  notEmpty : count ≠ 0
  noWrap : startBit.toNat + count.toNat < 2 ^ 64
  inBitmap : (startBit.toNat + count.toNat - 1) / 8 < bitmap.length
  covered : (startBit.toNat + count.toNat - 1) / 8 - startBit.toNat / 8 + 1 ≤
    budget.recordsLeft.toNat

/-! ## Masks -/

theorem testBit_headMask (startBit : ℕ) {j : ℕ} (hj : j < 8) :
    (headMask startBit).testBit j = decide (startBit % 8 ≤ j) := by
  rw [headMask, Nat.testBit_and, Nat.testBit_shiftLeft, show 0xff = 2 ^ 8 - 1 from rfl,
    Nat.testBit_two_pow_sub_one, Nat.testBit_two_pow_sub_one, decide_eq_true hj, Bool.and_true,
    decide_eq_true (by omega : j - startBit % 8 < 8), Bool.and_true]

theorem testBit_tailMask (finalBit j : ℕ) :
    (tailMask finalBit).testBit j = decide (j ≤ finalBit % 8) := by
  rw [tailMask, Nat.testBit_shiftRight, show 0xff = 2 ^ 8 - 1 from rfl,
    Nat.testBit_two_pow_sub_one, decide_eq_decide]
  omega

theorem headMask_lt (startBit : ℕ) : headMask startBit < 2 ^ 8 :=
  lt_of_le_of_lt Nat.and_le_right (by norm_num)

theorem tailMask_lt (finalBit : ℕ) : tailMask finalBit < 2 ^ 8 :=
  lt_of_le_of_lt (Nat.shiftRight_le _ _) (by norm_num)

/-- A byte passes a mask when the bits of the mask are set in it. -/
theorem contains_iff {bitmap : List UInt8} {index mask : ℕ} (hindex : index < bitmap.length)
    (hmask : mask < 2 ^ 8) :
    contains bitmap index mask = true ↔
      ∀ j < 8, mask.testBit j = true → bitSet bitmap (8 * index + j) = true := by
  have hget : bitmap[index]? = some bitmap[index] := List.getElem?_eq_getElem hindex
  have hbit : ∀ j < 8, bitSet bitmap (8 * index + j) = bitmap[index].toNat.testBit j := by
    intro j hj
    have hdiv : (8 * index + j) / 8 = index := by omega
    have hmod : (8 * index + j) % 8 = j := by omega
    rw [bitSet_of_getElem? (by rw [hdiv]; exact hget), hmod]
  rw [contains, hget]
  show (bitmap[index].toNat &&& mask == mask) = true ↔ _
  rw [beq_iff_eq, and_eq_mask_iff]
  constructor
  · intro h j hj hset
    rw [hbit j hj]
    exact h j hset
  · intro h j hset
    have hj : j < 8 := by
      by_contra hge
      have hlt : mask < 2 ^ j :=
        lt_of_lt_of_le hmask (Nat.pow_le_pow_right (by norm_num) (not_lt.mp hge))
      rw [Nat.testBit_lt_two_pow hlt] at hset
      exact absurd hset nofun
    rw [← hbit j hj]
    exact h j hj hset

/-- A byte is `0xff` when all its bits are set. -/
theorem getElem?_eq_full_iff {bitmap : List UInt8} {index : ℕ} (hindex : index < bitmap.length) :
    bitmap[index]? = some 0xff ↔ ∀ j < 8, bitSet bitmap (8 * index + j) = true := by
  have hfull : contains bitmap index 0xff = true ↔ bitmap[index]? = some 0xff := by
    have hget : bitmap[index]? = some bitmap[index] := List.getElem?_eq_getElem hindex
    rw [contains, hget]
    show (bitmap[index].toNat &&& 0xff == 0xff) = true ↔ _
    rw [beq_iff_eq, Option.some_inj, show 0xff = 2 ^ 8 - 1 from rfl, Nat.and_two_pow_sub_one_eq_mod,
      Nat.mod_eq_of_lt bitmap[index].toNat_lt, ← UInt8.toNat_inj]
    rfl
  rw [← hfull, contains_iff hindex (by norm_num)]
  refine forall₂_congr fun j hj => ?_
  rw [show 0xff = 2 ^ 8 - 1 from rfl, Nat.testBit_two_pow_sub_one, decide_eq_true hj]
  exact ⟨fun h => h rfl, fun h _ => h⟩

/-! ## The bytes of a range -/

/-- The bits of a byte that lie in the range are set. -/
def SetInByte (bitmap : List UInt8) (startBit finalBit byte : ℕ) : Prop :=
  ∀ j < 8, startBit ≤ 8 * byte + j → 8 * byte + j ≤ finalBit → bitSet bitmap (8 * byte + j) = true

section Bytes

variable {bitmap : List UInt8} {startBit finalBit : ℕ}

/-- Each bit of the range is in one byte of it. -/
theorem forall_bitSet_iff :
    (∀ bit, startBit ≤ bit → bit ≤ finalBit → bitSet bitmap bit = true) ↔
      ∀ byte, startBit / 8 ≤ byte → byte ≤ finalBit / 8 →
        SetInByte bitmap startBit finalBit byte := by
  constructor
  · intro h byte _ _ j _ hstart hfinal
    exact h _ hstart hfinal
  · intro h bit hstart hfinal
    have hbit := h (bit / 8) (by omega) (by omega) (bit % 8) (by omega) (by omega) (by omega)
    rwa [Nat.div_add_mod] at hbit

theorem contains_head_iff (hindex : startBit / 8 < bitmap.length)
    (hne : startBit / 8 < finalBit / 8) :
    contains bitmap (startBit / 8) (headMask startBit) = true ↔
      SetInByte bitmap startBit finalBit (startBit / 8) := by
  rw [contains_iff hindex (headMask_lt _)]
  refine forall₂_congr fun j hj => ?_
  rw [testBit_headMask _ hj, decide_eq_true_eq]
  exact ⟨fun h hstart _ => h (by omega), fun h hstart => h (by omega) (by omega)⟩

theorem contains_tail_iff (hindex : finalBit / 8 < bitmap.length)
    (hne : startBit / 8 < finalBit / 8) :
    contains bitmap (finalBit / 8) (tailMask finalBit) = true ↔
      SetInByte bitmap startBit finalBit (finalBit / 8) := by
  rw [contains_iff hindex (tailMask_lt _)]
  refine forall₂_congr fun j hj => ?_
  rw [testBit_tailMask, decide_eq_true_eq]
  exact ⟨fun h _ hfinal => h (by omega), fun h hfinal => h (by omega) (by omega)⟩

theorem contains_both_iff (hindex : startBit / 8 < bitmap.length)
    (hsame : startBit / 8 = finalBit / 8) :
    contains bitmap (startBit / 8) (headMask startBit &&& tailMask finalBit) = true ↔
      SetInByte bitmap startBit finalBit (startBit / 8) := by
  rw [contains_iff hindex (lt_of_le_of_lt Nat.and_le_left (headMask_lt _))]
  refine forall₂_congr fun j hj => ?_
  rw [Nat.testBit_and, testBit_headMask _ hj, testBit_tailMask, Bool.and_eq_true,
    decide_eq_true_eq, decide_eq_true_eq]
  exact ⟨fun h hstart hfinal => h ⟨by omega, by omega⟩, fun h hin => h (by omega) (by omega)⟩

theorem full_iff {byte : ℕ} (hindex : byte < bitmap.length) (hafter : startBit / 8 < byte)
    (hbefore : byte < finalBit / 8) :
    bitmap[byte]? = some 0xff ↔ SetInByte bitmap startBit finalBit byte := by
  rw [getElem?_eq_full_iff hindex]
  refine forall₂_congr fun j hj => ?_
  exact ⟨fun h _ _ => h, fun h => h (by omega) (by omega)⟩

/-- **The tests by bytes** pass when every bit of the range is set. -/
theorem bytesAllocated_iff (hle : startBit ≤ finalBit) (hin : finalBit / 8 < bitmap.length) :
    bytesAllocated bitmap startBit finalBit = true ↔
      ∀ bit, startBit ≤ bit → bit ≤ finalBit → bitSet bitmap bit = true := by
  have hfirst : startBit / 8 ≤ finalBit / 8 := Nat.div_le_div_right hle
  rw [forall_bitSet_iff, bytesAllocated]
  by_cases hsame : startBit / 8 = finalBit / 8
  · rw [if_pos hsame, contains_both_iff (by omega) hsame]
    constructor
    · intro h byte hstart hfinal
      have hbyte : byte = startBit / 8 := by omega
      exact hbyte ▸ h
    · intro h
      exact h _ le_rfl hfirst
  · have hlt : startBit / 8 < finalBit / 8 := by omega
    rw [if_neg hsame, Bool.and_eq_true, Bool.and_eq_true, contains_head_iff (by omega) hlt,
      contains_tail_iff hin hlt, List.all_eq_true]
    have hmiddle : (∀ byte ∈ List.range' (startBit / 8 + 1) (finalBit / 8 - (startBit / 8 + 1)),
        (bitmap[byte]? == some 0xff) = true) ↔
        ∀ byte, startBit / 8 < byte → byte < finalBit / 8 →
          SetInByte bitmap startBit finalBit byte := by
      constructor
      · intro h byte hafter hbefore
        rw [← full_iff (by omega) hafter hbefore]
        exact beq_iff_eq.mp (h byte (List.mem_range'_1.mpr ⟨by omega, by omega⟩))
      · intro h byte hbyte
        obtain ⟨hafter, hbefore⟩ := List.mem_range'_1.mp hbyte
        have hset := h byte (by omega) (by omega)
        exact beq_iff_eq.mpr ((full_iff (by omega) (by omega) (by omega)).mpr hset)
    rw [hmiddle]
    constructor
    · rintro ⟨⟨hhead, hbetween⟩, htail⟩ byte hstart hfinal
      rcases hstart.eq_or_lt with rfl | hafter
      · exact hhead
      · rcases hfinal.eq_or_lt with rfl | hbefore
        · exact htail
        · exact hbetween byte hafter hbefore
    · intro h
      exact ⟨⟨h _ le_rfl hfirst, fun byte hafter hbefore => h byte hafter.le hbefore.le⟩,
        h _ hfirst le_rfl⟩

end Bytes

/-! ## The range -/

section Range

variable {bitmap : List UInt8} {startBit count : UInt64} {budget : ReadBudget}

/-- What is refused before the arithmetic. -/
theorem refused_iff :
    (count = 0 ∨ count > UInt64.ofNat (2 ^ 64 - 1) - startBit) ↔
      count = 0 ∨ 2 ^ 64 ≤ startBit.toNat + count.toNat := by
  have hle : startBit ≤ UInt64.ofNat (2 ^ 64 - 1) := by
    rw [UInt64.le_iff_toNat_le]
    exact Nat.le_sub_one_of_lt startBit.toNat_lt
  have hlt := startBit.toNat_lt
  refine or_congr Iff.rfl ?_
  rw [gt_iff_lt, UInt64.lt_iff_toNat_lt, UInt64.toNat_sub_of_le _ _ hle]
  show 2 ^ 64 - 1 - startBit.toNat < count.toNat ↔ _
  omega

/-- Below the bound nothing wraps. -/
theorem toNat_finalBit (hcount : count ≠ 0) (hwrap : startBit.toNat + count.toNat < 2 ^ 64) :
    (startBit + count - 1).toNat = startBit.toNat + count.toNat - 1 := by
  have hpos : count.toNat ≠ 0 := fun h => hcount (UInt64.toNat_inj.mp h)
  have hsum : (startBit + count).toNat = startBit.toNat + count.toNat := by
    rw [UInt64.toNat_add, Nat.mod_eq_of_lt hwrap]
  have hone : (1 : UInt64) ≤ startBit + count := by
    rw [UInt64.le_iff_toNat_le, hsum]
    show 1 ≤ _
    omega
  rw [UInt64.toNat_sub_of_le _ _ hone, hsum]
  rfl

theorem toNat_coveredBytes (hcount : count ≠ 0)
    (hwrap : startBit.toNat + count.toNat < 2 ^ 64) :
    ((startBit + count - 1) / 8 - startBit / 8 + 1).toNat =
      (startBit.toNat + count.toNat - 1) / 8 - startBit.toNat / 8 + 1 := by
  have hfinal := toNat_finalBit hcount hwrap
  have hlast : ((startBit + count - 1) / 8).toNat = (startBit.toNat + count.toNat - 1) / 8 := by
    rw [UInt64.toNat_div, hfinal]
    rfl
  have hfirst : (startBit / 8).toNat = startBit.toNat / 8 := UInt64.toNat_div ..
  have hpos : count.toNat ≠ 0 := fun h => hcount (UInt64.toNat_inj.mp h)
  have hle : startBit / 8 ≤ (startBit + count - 1) / 8 := by
    rw [UInt64.le_iff_toNat_le, hlast, hfirst]
    omega
  rw [UInt64.toNat_add, UInt64.toNat_sub_of_le _ _ hle, hlast, hfirst]
  show ((startBit.toNat + count.toNat - 1) / 8 - startBit.toNat / 8 + 1) % 2 ^ 64 = _
  exact Nat.mod_eq_of_lt (by omega)

/-- **On an admitted range** the bytes decide. -/
theorem rangeAllocated_of_admits (h : Admits bitmap startBit count budget) :
    (rangeAllocated bitmap startBit count (some budget)).1 =
      if bytesAllocated bitmap startBit.toNat (startBit.toNat + count.toNat - 1) then .ok ()
      else .error "FusionVolumeOwnerFree" := by
  have hfinal := toNat_finalBit h.notEmpty h.noWrap
  have hlast : ((startBit + count - 1) / 8).toNat = (startBit.toNat + count.toNat - 1) / 8 := by
    rw [UInt64.toNat_div, hfinal]
    rfl
  have hcharged : (budget.materialize ((startBit + count - 1) / 8 - startBit / 8 + 1) 0).1 = true :=
    ReadBudget.materialize_fst_iff.mpr ⟨h.notFailed, by
      rw [UInt64.le_iff_toNat_le, toNat_coveredBytes h.notEmpty h.noWrap]
      exact h.covered⟩
  rw [rangeAllocated, if_neg (by rw [h.notFailed]; exact nofun),
    if_neg (by rw [refused_iff, not_or]; exact ⟨h.notEmpty, not_le.mpr h.noWrap⟩)]
  dsimp only
  rw [if_neg (by rw [hlast]; exact not_le.mpr h.inBitmap), hcharged, if_neg (by exact nofun), hfinal]
  split_ifs <;> rfl

/-- A range that passes is admitted. -/
theorem admits_of_rangeAllocated
    (h : (rangeAllocated bitmap startBit count (some budget)).1 = .ok ()) :
    Admits bitmap startBit count budget := by
  rw [rangeAllocated] at h
  by_cases hfailed : budget.failure.isSome
  · rw [if_pos hfailed] at h
    exact absurd h nofun
  rw [if_neg hfailed] at h
  by_cases hrefused : count = 0 ∨ count > UInt64.ofNat (2 ^ 64 - 1) - startBit
  · rw [if_pos hrefused] at h
    exact absurd h nofun
  rw [if_neg hrefused] at h
  rw [refused_iff, not_or] at hrefused
  obtain ⟨hcount, hwrap⟩ := hrefused
  have hnowrap := not_le.mp hwrap
  dsimp only at h
  by_cases hlast : ((startBit + count - 1) / 8).toNat ≥ bitmap.length
  · rw [if_pos hlast] at h
    exact absurd h nofun
  rw [if_neg hlast] at h
  by_cases hcharged :
      (budget.materialize ((startBit + count - 1) / 8 - startBit / 8 + 1) 0).1 = true
  · have hbudget := ReadBudget.materialize_fst_iff.mp hcharged
    refine ⟨hbudget.1, hcount, hnowrap, ?_, ?_⟩
    · rw [UInt64.toNat_div, toNat_finalBit hcount hnowrap] at hlast
      exact not_le.mp hlast
    · rw [← toNat_coveredBytes hcount hnowrap]
      exact UInt64.le_iff_toNat_le.mp hbudget.2
  · rw [if_pos (by rw [Bool.not_eq_true', Bool.eq_false_iff]; exact hcharged)] at h
    exact absurd h nofun

/-- **The range test is the test of every bit**, and a clear bit of an admitted range is what it
reports. -/
theorem rangeAllocated_iff_every_bit_set (bitmap : List UInt8) (startBit count : UInt64)
    (budget : ReadBudget) :
    ((rangeAllocated bitmap startBit count (some budget)).1 = .ok () ↔
      Admits bitmap startBit count budget ∧
        ∀ bit, startBit.toNat ≤ bit → bit < startBit.toNat + count.toNat →
          bitSet bitmap bit = true) ∧
    (Admits bitmap startBit count budget →
      (rangeAllocated bitmap startBit count (some budget)).1 ≠ .ok () →
        (rangeAllocated bitmap startBit count (some budget)).1 =
          .error "FusionVolumeOwnerFree") := by
  have hbits : Admits bitmap startBit count budget →
      (bytesAllocated bitmap startBit.toNat (startBit.toNat + count.toNat - 1) = true ↔
        ∀ bit, startBit.toNat ≤ bit → bit < startBit.toNat + count.toNat →
          bitSet bitmap bit = true) := by
    intro h
    have hpos : count.toNat ≠ 0 := fun hzero => h.notEmpty (UInt64.toNat_inj.mp hzero)
    rw [bytesAllocated_iff (by omega) h.inBitmap]
    refine forall₂_congr fun bit _ => ?_
    rw [Nat.le_sub_one_iff_lt (by omega)]
  refine ⟨⟨fun hok => ?_, fun ⟨hadmits, hset⟩ => ?_⟩, fun hadmits hne => ?_⟩
  · have hadmits := admits_of_rangeAllocated hok
    refine ⟨hadmits, (hbits hadmits).mp ?_⟩
    by_contra hclear
    rw [rangeAllocated_of_admits hadmits, if_neg hclear] at hok
    exact absurd hok nofun
  · rw [rangeAllocated_of_admits hadmits, if_pos ((hbits hadmits).mpr hset)]
  · rw [rangeAllocated_of_admits hadmits] at hne ⊢
    by_cases hbytes : bytesAllocated bitmap startBit.toNat (startBit.toNat + count.toNat - 1) = true
    · rw [if_pos hbytes] at hne
      exact absurd rfl hne
    · rw [if_neg hbytes]

end Range

/-- A range across three bytes, neither end on a byte's bound. -/
example : (rangeAllocated [0x80, 0xff, 0x01] 7 10 (some ⟨3, 0, none, 0, 0, (0, 0)⟩)).1 = .ok () := by
  decide +kernel

end Fusion
end ApfsAccess
