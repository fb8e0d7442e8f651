import ApfsAccess.Library.Sorting
import ApfsAccess.Format.Object
import ApfsAccess.Extents.Records

/-!
# Keys and their orders

A tree is written in one of seven key orders.  `compareKeys` embeds the comparison
of the writer; where the source takes the value of a read that may fail, the model
returns no result, so that a comparison of malformed keys is visible.

The comparison is not a linear order on bytes.  On keys that were validated it is
the lexicographic comparison of a *rank*, a list of numbers read off one key at a
time, and everything later needs of it follows from that: `compareKeys_eq_compareValues`.

`sortAppleBtreeRecords_spec` is the result the writer uses: what comes out is the
input rearranged, strictly increasing, with every record validated.
-/

namespace ApfsAccess
namespace Btree

open Format ByteBuffer Extents Sorting

/-- `AppleBtreeKeyOrder`. -/
inductive AppleBtreeKeyOrder where
  | lexicographic
  | objectMap
  | spacemanFreeQueue
  | physicalExtent
  | fileSystemCaseSensitive
  | fileSystemHashedDirectory
  | snapshotObjectMap
  deriving DecidableEq, Repr

/-- `kMaximumFsKeyBytes`. -/
def maximumFsKeyBytes : ℕ := 832

/-- `kMaximumFsValueBytes`. -/
def maximumFsValueBytes : ℕ := 3808

/-! ## The comparison of the source -/

/-- `CompareBytes` on the two regions it is given. -/
def compareBytes : Bytes → Bytes → Ordering
  | [], [] => .eq
  | [], _ :: _ => .lt
  | _ :: _, [] => .gt
  | l :: ls, r :: rs =>
    if l ≠ r then (if l < r then .lt else .gt) else compareBytes ls rs

/-- The comparison of two values with `==` and `<`. -/
def compareValues {β : Type} [LinearOrder β] (left right : β) : Ordering :=
  if left = right then .eq else if left < right then .lt else .gt

/-- `ValidateFsKey`. -/
def validateFsKey (key : Bytes) (order : AppleBtreeKeyOrder) : Except String Unit :=
  if key.length < 8 ∨ maximumFsKeyBytes < key.length then .error "AppleBtreeFsKeyInvalid"
  else
    let header := (readU64LE key 0).getD 0
    let objectId := recordObjectId header
    let type := recordType header
    if objectId = 0 ∨ type = 0 ∨ 13 < type then .error "AppleBtreeFsKeyInvalid"
    else if type = 4 ∨ type = 11 then
      let length := (readU16LE key 8).getD 0
      if length = 0 ∨ key.length ≠ 10 + length ∨ key.getLast? ≠ some 0 ∨
          (type = 11 ∧ objectId ≠ fsObjectIdMask) then
        .error (if type = 4 then "AppleBtreeXattrKeyInvalid"
          else "AppleBtreeSnapshotNameKeyInvalid")
      else .ok ()
    else if type = 9 then
      if order = .fileSystemHashedDirectory then
        let length := (readU32LE key 8).getD 0 % 2 ^ 10
        if length = 0 ∨ key.length ≠ 12 + length ∨ key.getLast? ≠ some 0 then
          .error "AppleBtreeDirectoryKeyInvalid"
        else .ok ()
      else
        let length := (readU16LE key 8).getD 0
        if length = 0 ∨ key.length ≠ 10 + length ∨ key.getLast? ≠ some 0 then
          .error "AppleBtreeDirectoryKeyInvalid"
        else .ok ()
    else if (type = 5 ∨ type = 8 ∨ type = 13) ∧ key.length ≠ 16 then
      .error "AppleBtreeFsKeyInvalid"
    else if (type = 1 ∨ type = 2 ∨ type = 3 ∨ type = 6 ∨ type = 7 ∨ type = 10 ∨ type = 12) ∧
        key.length ≠ 8 then
      .error "AppleBtreeFsKeyInvalid"
    else .ok ()

/-- `CompareFsKeys`. -/
def compareFsKeys (left right : Bytes) (order : AppleBtreeKeyOrder) : Option Ordering := do
  let leftHeader ← readU64LE left 0
  let rightHeader ← readU64LE right 0
  let leftId := recordObjectId leftHeader
  let rightId := recordObjectId rightHeader
  let type := recordType leftHeader
  if leftId ≠ rightId ∨ type ≠ recordType rightHeader then
    return if leftId < rightId ∨ (leftId = rightId ∧ type < recordType rightHeader) then .lt
      else .gt
  else if type = 4 ∨ type = 11 then
    return compareBytes (slice left 10 (left.length - 11)) (slice right 10 (right.length - 11))
  else if type = 9 then
    if order = .fileSystemHashedDirectory then
      let leftHash := (← readU32LE left 8) / 2 ^ 10
      let rightHash := (← readU32LE right 8) / 2 ^ 10
      if leftHash ≠ rightHash then
        return if leftHash < rightHash then .lt else .gt
      else
        return compareBytes (slice left 12 (left.length - 13))
          (slice right 12 (right.length - 13))
    else
      return compareBytes (slice left 10 (left.length - 11)) (slice right 10 (right.length - 11))
  else if (type = 5 ∨ type = 8 ∨ type = 13) ∧ left.length = 16 then
    let lhs ← readU64LE left 8
    let rhs ← readU64LE right 8
    return compareValues lhs rhs
  else
    return compareBytes (slice left 8 (left.length - 8)) (slice right 8 (right.length - 8))

/-- `CompareKeys`. No result stands for a read past the end of a key. -/
def compareKeys (order : AppleBtreeKeyOrder) (left right : Bytes) : Option Ordering :=
  match order with
  | .objectMap | .spacemanFreeQueue => do
    let left0 ← readU64LE left 0
    let left8 ← readU64LE left 8
    let right0 ← readU64LE right 0
    let right8 ← readU64LE right 8
    return if left0 = right0 ∧ left8 = right8 then .eq
      else if left0 < right0 ∨ (left0 = right0 ∧ left8 < right8) then .lt else .gt
  | .physicalExtent | .snapshotObjectMap => do
    let lhs ← readU64LE left 0
    let rhs ← readU64LE right 0
    return compareValues lhs rhs
  | .fileSystemCaseSensitive => compareFsKeys left right .fileSystemCaseSensitive
  | .fileSystemHashedDirectory => compareFsKeys left right .fileSystemHashedDirectory
  | .lexicographic => some (compareBytes left right)

/-! ## Ranks -/

/-- The bytes of a region as numbers. -/
def byteRank (bytes : Bytes) : List ℕ := bytes.map UInt8.toNat

/-- The part of a file-system key's rank behind its object id and record type. -/
def fsTailRank (order : AppleBtreeKeyOrder) (type : ℕ) (key : Bytes) : List ℕ :=
  if type = 4 ∨ type = 11 then byteRank (slice key 10 (key.length - 11))
  else if type = 9 then
    if order = .fileSystemHashedDirectory then
      (readU32LE key 8).getD 0 / 2 ^ 10 :: byteRank (slice key 12 (key.length - 13))
    else byteRank (slice key 10 (key.length - 11))
  else if type = 5 ∨ type = 8 ∨ type = 13 then [(readU64LE key 8).getD 0]
  else byteRank (slice key 8 (key.length - 8))

/-- What a key is compared by. -/
def keyRank (order : AppleBtreeKeyOrder) (key : Bytes) : List ℕ :=
  match order with
  | .objectMap | .spacemanFreeQueue => [(readU64LE key 0).getD 0, (readU64LE key 8).getD 0]
  | .physicalExtent | .snapshotObjectMap => [(readU64LE key 0).getD 0]
  | .fileSystemCaseSensitive | .fileSystemHashedDirectory =>
    let header := (readU64LE key 0).getD 0
    recordObjectId header :: recordType header :: fsTailRank order (recordType header) key
  | .lexicographic => byteRank key

section CompareValues

variable {β : Type} [LinearOrder β] {left right : β}

theorem compareValues_eq_lt_iff : compareValues left right = .lt ↔ left < right := by
  unfold compareValues
  rcases lt_trichotomy left right with hlt | rfl | hgt
  · simp [hlt, hlt.ne]
  · simp
  · simp [hgt.ne', hgt.not_gt]

theorem compareValues_eq_eq_iff : compareValues left right = .eq ↔ left = right := by
  unfold compareValues
  rcases lt_trichotomy left right with hlt | rfl | hgt
  · simp [hlt, hlt.ne]
  · simp
  · simp [hgt.ne', hgt.not_gt]

theorem compareValues_eq_gt_iff : compareValues left right = .gt ↔ right < left := by
  unfold compareValues
  rcases lt_trichotomy left right with hlt | rfl | hgt
  · simp [hlt, hlt.ne, hlt.not_gt]
  · simp
  · simp [hgt, hgt.ne', hgt.not_gt]

end CompareValues

/-- Ranks are compared number by number. -/
theorem compareValues_cons (a b : ℕ) (as bs : List ℕ) :
    compareValues (a :: as) (b :: bs) =
      if a = b then compareValues as bs else if a < b then .lt else .gt := by
  split
  · rename_i h
    subst h
    rcases lt_trichotomy as bs with hlt | rfl | hgt
    · rw [compareValues_eq_lt_iff.mpr hlt, compareValues_eq_lt_iff]
      exact List.cons_lt_cons_iff.mpr (.inr ⟨rfl, hlt⟩)
    · rw [compareValues_eq_eq_iff.mpr rfl, compareValues_eq_eq_iff.mpr rfl]
    · rw [compareValues_eq_gt_iff.mpr hgt, compareValues_eq_gt_iff]
      exact List.cons_lt_cons_iff.mpr (.inr ⟨rfl, hgt⟩)
  · rename_i h
    split
    · rename_i hlt
      exact compareValues_eq_lt_iff.mpr (List.cons_lt_cons_iff.mpr (.inl hlt))
    · rename_i hlt
      exact compareValues_eq_gt_iff.mpr (List.cons_lt_cons_iff.mpr (.inl (by omega)))

theorem compareBytes_eq_compareValues (left right : Bytes) :
    compareBytes left right = compareValues (byteRank left) (byteRank right) := by
  induction left generalizing right with
  | nil =>
    cases right with
    | nil => rfl
    | cons r rs => exact (compareValues_eq_lt_iff.mpr (List.nil_lt_cons _ _)).symm
  | cons l ls ih =>
    cases right with
    | nil => exact (compareValues_eq_gt_iff.mpr (List.nil_lt_cons _ _)).symm
    | cons r rs =>
      show _ = compareValues (l.toNat :: byteRank ls) (r.toNat :: byteRank rs)
      rw [compareValues_cons, compareBytes, ih]
      by_cases h : l = r
      · rw [if_neg (not_not.mpr h), if_pos (congrArg UInt8.toNat h)]
      · have hne : l.toNat ≠ r.toNat := fun hcontra => h (UInt8.toNat_inj.mp hcontra)
        rw [if_pos h, if_neg hne]
        exact if_congr UInt8.lt_iff_toNat_lt rfl rfl

theorem compareValues_singleton (a b : ℕ) : compareValues [a] [b] = compareValues a b := by
  rw [compareValues_cons]
  rfl

theorem compareValues_pair (a b a' b' : ℕ) :
    compareValues [a, a'] [b, b'] =
      if a = b ∧ a' = b' then .eq else if a < b ∨ (a = b ∧ a' < b') then .lt else .gt := by
  rw [compareValues_cons, compareValues_singleton]
  unfold compareValues
  by_cases h : a = b
  · simp [h]
  · simp [h]

/-! ## Validated keys -/

/-- A key that passed the check of its order. -/
def KeyValid : AppleBtreeKeyOrder → Bytes → Prop
  | .lexicographic, key => key ≠ []
  | .objectMap, key | .spacemanFreeQueue, key => key.length = 16
  | .physicalExtent, key | .snapshotObjectMap, key => key.length = 8
  | .fileSystemCaseSensitive, key => validateFsKey key .fileSystemCaseSensitive = .ok ()
  | .fileSystemHashedDirectory, key => validateFsKey key .fileSystemHashedDirectory = .ok ()

/-- A read that stays inside the buffer has a value. -/
theorem readLE_eq_some_getD {width : ℕ} {buffer : Bytes} {offset : ℕ}
    (h : offset + width ≤ buffer.length) :
    readLE width buffer offset = some ((readLE width buffer offset).getD 0) := by
  unfold readLE
  rw [if_pos h, Option.getD_some]

/-- What the comparison of file-system keys needs to know of a validated key. -/
theorem validateFsKey_length {key : Bytes} {order : AppleBtreeKeyOrder}
    (h : validateFsKey key order = .ok ()) :
    8 ≤ key.length ∧
      (recordType ((readU64LE key 0).getD 0) = 9 → order = .fileSystemHashedDirectory →
        12 ≤ key.length) ∧
      (recordType ((readU64LE key 0).getD 0) = 5 ∨ recordType ((readU64LE key 0).getD 0) = 8 ∨
        recordType ((readU64LE key 0).getD 0) = 13 → key.length = 16) := by
  unfold validateFsKey at h
  split at h
  · cases h
  · rename_i hsize
    simp only at h
    split at h
    · cases h
    · generalize recordType ((readU64LE key 0).getD 0) = type at h ⊢
      refine ⟨by omega, fun hdirectory hhashed => ?_, fun hword => ?_⟩
      · rw [if_neg (by omega), if_pos hdirectory, if_pos hhashed] at h
        split at h
        · cases h
        · rename_i hlength
          simp only [not_or, not_not] at hlength
          omega
      · rw [if_neg (by omega), if_neg (by omega)] at h
        split at h
        · cases h
        · rename_i hlength
          by_contra hne
          exact hlength ⟨hword, hne⟩

/-- Two file-system keys of one record type are compared by the rest of their ranks. -/
theorem compareFsKeys_tail {left right : Bytes} {order : AppleBtreeKeyOrder} {type : ℕ}
    (hhash : type = 9 → order = .fileSystemHashedDirectory →
      12 ≤ left.length ∧ 12 ≤ right.length)
    (hword : type = 5 ∨ type = 8 ∨ type = 13 → left.length = 16 ∧ right.length = 16) :
    (if type = 4 ∨ type = 11 then
      some (compareBytes (slice left 10 (left.length - 11)) (slice right 10 (right.length - 11)))
    else if type = 9 then
      if order = .fileSystemHashedDirectory then do
        let leftHash := (← readU32LE left 8) / 2 ^ 10
        let rightHash := (← readU32LE right 8) / 2 ^ 10
        if leftHash ≠ rightHash then
          return if leftHash < rightHash then .lt else .gt
        else
          return compareBytes (slice left 12 (left.length - 13))
            (slice right 12 (right.length - 13))
      else
        some (compareBytes (slice left 10 (left.length - 11))
          (slice right 10 (right.length - 11)))
    else if (type = 5 ∨ type = 8 ∨ type = 13) ∧ left.length = 16 then do
      let lhs ← readU64LE left 8
      let rhs ← readU64LE right 8
      return compareValues lhs rhs
    else
      some (compareBytes (slice left 8 (left.length - 8)) (slice right 8 (right.length - 8)))) =
      some (compareValues (fsTailRank order type left) (fsTailRank order type right)) := by
  unfold fsTailRank
  split
  · rw [compareBytes_eq_compareValues]
  · split
    · rename_i hdirectory
      split
      · rename_i hhashed
        obtain ⟨hleft, hright⟩ := hhash hdirectory hhashed
        have hreadLeft : readU32LE left 8 = some ((readU32LE left 8).getD 0) :=
          readLE_eq_some_getD (by omega)
        have hreadRight : readU32LE right 8 = some ((readU32LE right 8).getD 0) :=
          readLE_eq_some_getD (by omega)
        rw [hreadLeft, hreadRight, compareValues_cons, compareBytes_eq_compareValues]
        simp only [Option.bind_eq_bind, Option.bind_some, Option.getD_some, ne_eq, ite_not]
        split <;> rfl
      · rw [compareBytes_eq_compareValues]
    · by_cases htype : type = 5 ∨ type = 8 ∨ type = 13
      · obtain ⟨hleft, hright⟩ := hword htype
        have hreadLeft : readU64LE left 8 = some ((readU64LE left 8).getD 0) :=
          readLE_eq_some_getD (by omega)
        have hreadRight : readU64LE right 8 = some ((readU64LE right 8).getD 0) :=
          readLE_eq_some_getD (by omega)
        rw [if_pos ⟨htype, hleft⟩, if_pos htype, if_pos htype, hreadLeft, hreadRight,
          compareValues_singleton]
        rfl
      · rw [if_neg (fun hcontra => htype hcontra.1), if_neg htype, if_neg htype,
          compareBytes_eq_compareValues]

theorem compareFsKeys_eq_compareValues {left right : Bytes} {order : AppleBtreeKeyOrder}
    (hleft : validateFsKey left order = .ok ()) (hright : validateFsKey right order = .ok ()) :
    compareFsKeys left right order =
      some (compareValues
        (recordObjectId ((readU64LE left 0).getD 0) :: recordType ((readU64LE left 0).getD 0) ::
          fsTailRank order (recordType ((readU64LE left 0).getD 0)) left)
        (recordObjectId ((readU64LE right 0).getD 0) :: recordType ((readU64LE right 0).getD 0) ::
          fsTailRank order (recordType ((readU64LE right 0).getD 0)) right)) := by
  obtain ⟨hlength, hhash, hword⟩ := validateFsKey_length hleft
  obtain ⟨hlength', hhash', hword'⟩ := validateFsKey_length hright
  have hreadLeft : readU64LE left 0 = some ((readU64LE left 0).getD 0) :=
    readLE_eq_some_getD (by omega)
  have hreadRight : readU64LE right 0 = some ((readU64LE right 0).getD 0) :=
    readLE_eq_some_getD (by omega)
  unfold compareFsKeys
  rw [hreadLeft, hreadRight]
  simp only [Option.bind_eq_bind, Option.bind_some, Option.getD_some, Option.pure_def]
  generalize recordObjectId ((readU64LE left 0).getD 0) = leftId
  generalize recordObjectId ((readU64LE right 0).getD 0) = rightId
  generalize recordType ((readU64LE left 0).getD 0) = leftType at hhash hword ⊢
  generalize recordType ((readU64LE right 0).getD 0) = rightType at hhash' hword' ⊢
  rw [compareValues_cons, compareValues_cons]
  by_cases hid : leftId = rightId
  · by_cases htype : leftType = rightType
    · subst hid htype
      rw [if_neg (by simp), if_pos rfl, if_pos rfl]
      exact compareFsKeys_tail (fun h h' => ⟨hhash h h', hhash' h h'⟩)
        (fun h => ⟨hword h, hword' h⟩)
    · simp [hid, htype]
  · simp [hid]

/-- **On validated keys the comparison of the source compares ranks.** -/
theorem compareKeys_eq_compareValues {order : AppleBtreeKeyOrder} {left right : Bytes}
    (hleft : KeyValid order left) (hright : KeyValid order right) :
    compareKeys order left right =
      some (compareValues (keyRank order left) (keyRank order right)) := by
  have hread : ∀ (key : Bytes) (offset : ℕ), offset + 8 ≤ key.length →
      readU64LE key offset = some ((readU64LE key offset).getD 0) :=
    fun _ _ h => readLE_eq_some_getD h
  have hpair : left.length = 16 → right.length = 16 →
      compareKeys .objectMap left right =
        some (compareValues (keyRank .objectMap left) (keyRank .objectMap right)) := by
    intro hleft hright
    simp only [compareKeys, keyRank, compareValues_pair]
    rw [hread left 0 (by omega), hread left 8 (by omega),
      hread right 0 (by omega), hread right 8 (by omega)]
    rfl
  have hword : left.length = 8 → right.length = 8 →
      compareKeys .physicalExtent left right =
        some (compareValues (keyRank .physicalExtent left) (keyRank .physicalExtent right)) := by
    intro hleft hright
    simp only [compareKeys, keyRank, compareValues_singleton]
    rw [hread left 0 (by omega), hread right 0 (by omega)]
    rfl
  cases order with
  | lexicographic => exact congrArg some (compareBytes_eq_compareValues left right)
  | objectMap => exact hpair hleft hright
  | spacemanFreeQueue => exact hpair hleft hright
  | physicalExtent => exact hword hleft hright
  | snapshotObjectMap => exact hword hleft hright
  | fileSystemCaseSensitive => exact compareFsKeys_eq_compareValues hleft hright
  | fileSystemHashedDirectory => exact compareFsKeys_eq_compareValues hleft hright

/-! ## Sorting records -/

/-- The check of one record in `SortAppleBtreeRecords`. -/
def validateAppleBtreeRecord (order : AppleBtreeKeyOrder) (record : BtreeRecord) :
    Except String Unit :=
  if record.key = [] then .error "AppleBtreeKeyEmpty"
  else
    match order with
    | .objectMap =>
      if record.key.length ≠ 16 ∨ record.value.length ≠ 16 then
        .error "AppleBtreeOmapRecordInvalid"
      else .ok ()
    | .spacemanFreeQueue =>
      if record.key.length ≠ 16 ∨ (record.value ≠ [] ∧ record.value.length ≠ 8) ∨
          (readU64LE record.key 0).getD 0 = 0 ∨ (readU64LE record.key 8).getD 0 = 0 ∨
          (record.value ≠ [] ∧ (readU64LE record.value 0).getD 0 ≤ 1) then
        .error "AppleBtreeFreeQueueRecordInvalid"
      else .ok ()
    | .snapshotObjectMap =>
      if record.key.length ≠ 8 ∨ record.value.length ≠ 16 ∨
          (readU64LE record.key 0).getD 0 = 0 ∨ (readU64LE record.value 0).getD 1 ≠ 0 ∨
          (readU64LE record.value 8).getD 1 ≠ 0 then
        .error "AppleBtreeSnapshotOmapRecordUnsupported"
      else .ok ()
    | .physicalExtent => (decodeApplePhysicalExtentRecord record).map fun _ => ()
    | .fileSystemCaseSensitive | .fileSystemHashedDirectory =>
      match validateFsKey record.key order with
      | .error text => .error text
      | .ok () =>
        if maximumFsValueBytes < record.value.length then .error "AppleBtreeFsValueInvalid"
        else .ok ()
    | .lexicographic => .ok ()

/-- The checks of all records, in order. -/
def validateAppleBtreeRecords (order : AppleBtreeKeyOrder) : List BtreeRecord → Except String Unit
  | [] => .ok ()
  | record :: records =>
    match validateAppleBtreeRecord order record with
    | .error text => .error text
    | .ok () => validateAppleBtreeRecords order records

/-- `SortAppleBtreeRecords`. -/
def sortAppleBtreeRecords (records : List BtreeRecord) (order : AppleBtreeKeyOrder) :
    Except String (List BtreeRecord) :=
  match validateAppleBtreeRecords order records with
  | .error text => .error text
  | .ok () =>
    let sorted := sortBy records fun a b => compareKeys order b.key a.key != some .lt
    if sorted.IsChain fun a b => compareKeys order a.key b.key ≠ some .eq then .ok sorted
    else .error "AppleBtreeDuplicateKey"

theorem validateAppleBtreeRecord_key {order : AppleBtreeKeyOrder} {record : BtreeRecord}
    (h : validateAppleBtreeRecord order record = .ok ()) :
    record.key ≠ [] ∧ KeyValid order record.key := by
  unfold validateAppleBtreeRecord at h
  split at h
  · cases h
  · rename_i hne
    refine ⟨hne, ?_⟩
    cases order with
    | lexicographic => exact hne
    | objectMap =>
      simp only at h
      split at h
      · cases h
      · rename_i hguard
        simp only [not_or, not_not] at hguard
        exact hguard.1
    | spacemanFreeQueue =>
      simp only at h
      split at h
      · cases h
      · rename_i hguard
        simp only [not_or, not_not] at hguard
        exact hguard.1
    | snapshotObjectMap =>
      simp only at h
      split at h
      · cases h
      · rename_i hguard
        simp only [not_or, not_not] at hguard
        exact hguard.1
    | physicalExtent =>
      simp only [decodeApplePhysicalExtentRecord] at h
      split at h
      · cases h
      · rename_i hguard
        simp only [not_or, not_not] at hguard
        exact hguard.1
    | fileSystemCaseSensitive =>
      simp only at h
      split at h
      · cases h
      · rename_i hvalid
        exact hvalid
    | fileSystemHashedDirectory =>
      simp only at h
      split at h
      · cases h
      · rename_i hvalid
        exact hvalid

theorem validateAppleBtreeRecord_of_mem {order : AppleBtreeKeyOrder} {records : List BtreeRecord}
    (h : validateAppleBtreeRecords order records = .ok ()) :
    ∀ record ∈ records, validateAppleBtreeRecord order record = .ok () := by
  induction records with
  | nil => simp
  | cons record records ih =>
    unfold validateAppleBtreeRecords at h
    split at h
    · cases h
    · rename_i hrecord
      rintro other (_ | ⟨_, hother⟩)
      · exact hrecord
      · exact ih h other hother

/-- The strict order in which a tree holds its records. -/
def KeyLt (order : AppleBtreeKeyOrder) (a b : BtreeRecord) : Prop :=
  compareKeys order a.key b.key = some .lt

theorem keyLt_iff {order : AppleBtreeKeyOrder} {a b : BtreeRecord} (ha : KeyValid order a.key)
    (hb : KeyValid order b.key) : KeyLt order a b ↔ keyRank order a.key < keyRank order b.key := by
  unfold KeyLt
  rw [compareKeys_eq_compareValues ha hb, Option.some_inj, compareValues_eq_lt_iff]

/-- **What sorting gives.**  The records rearranged, in strictly increasing order. -/
theorem sortAppleBtreeRecords_spec {order : AppleBtreeKeyOrder} {records sorted : List BtreeRecord}
    (h : sortAppleBtreeRecords records order = .ok sorted) :
    sorted.Perm records ∧ (∀ record ∈ sorted, record.key ≠ [] ∧ KeyValid order record.key) ∧
      sorted.Pairwise (fun a b => keyRank order a.key < keyRank order b.key) := by
  unfold sortAppleBtreeRecords at h
  split at h
  · cases h
  · rename_i hvalidate
    simp only at h
    split at h
    · rename_i hchain
      obtain rfl := Except.ok.inj h
      have hvalid : ∀ record ∈ records, record.key ≠ [] ∧ KeyValid order record.key :=
        fun record hrecord =>
          validateAppleBtreeRecord_key (validateAppleBtreeRecord_of_mem hvalidate record hrecord)
      have hperm := sortBy_perm records fun a b => compareKeys order b.key a.key != some .lt
      have hvalidSorted := fun record hrecord => hvalid record (hperm.subset hrecord)
      refine ⟨hperm, hvalidSorted, ?_⟩
      have hle : (sortBy records fun a b => compareKeys order b.key a.key != some .lt).Pairwise
          fun a b => keyRank order a.key ≤ keyRank order b.key := by
        refine pairwise_sortBy_of_rank (fun record : BtreeRecord => keyRank order record.key)
          fun a ha b hb => ?_
        rw [bne_iff_ne, compareKeys_eq_compareValues (hvalid b hb).2 (hvalid a ha).2, ne_eq,
          Option.some_inj, compareValues_eq_lt_iff, not_lt]
      refine pairwise_lt_of_isChain_ne hle (hchain.imp_of_mem_imp fun a b ha hb hne heq => ?_)
      rw [compareKeys_eq_compareValues (hvalidSorted a ha).2 (hvalidSorted b hb).2] at hne
      exact hne (congrArg some (compareValues_eq_eq_iff.mpr heq))
    · cases h

end Btree
end ApfsAccess
