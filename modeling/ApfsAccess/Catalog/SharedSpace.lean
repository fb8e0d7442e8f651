import ApfsAccess.Format.Object
import ApfsAccess.Library.Loops
import ApfsAccess.Library.SharedPool

/-!
# The space that the volumes of a container share

`TryProjectAppleSharedSpace` says for every volume of a checkpoint how much it may still allocate:
the free blocks less the unmet reserves of its siblings, and no more than its quota leaves.  The
counters are `uint64_t`, so every sum, difference and product here is one of machine words.

* `tryProject_eq_ok_iff` : the projection says what the shared pool says, and nothing wraps.
* `tryProject_run` : allocations within the projection keep it succeeding and keep the reserves
  covered, and take no volume beyond its quota.
-/

namespace ApfsAccess
namespace Catalog

open Format SharedPool

/-! ## The view -/

/-- `AppleSpacemanDeviceView`. -/
structure SpacemanDevice where
  blockCount : UInt64
  chunkCount : UInt64
  freeCount : UInt64
  cibCount : UInt32
  cabCount : UInt32
  deriving DecidableEq, Repr

/-- `ApfsVolumeSpaceCounters`. -/
structure VolumeSpaceCounters where
  allocatedBlockCount : UInt64
  reserveBlockCount : UInt64
  quotaBlockCount : UInt64
  deriving DecidableEq, Repr

/-- A volume of a checkpoint: the identity in its superblock, that of the object it was read from,
and its counters. -/
structure CheckpointVolume where
  objectId : UInt64
  xid : UInt64
  superblockObjectId : UInt64
  superblockObjectXid : UInt64
  space : VolumeSpaceCounters
  deriving DecidableEq, Repr

/-- What the projection reads of an `AppleCheckpointView`. -/
structure CheckpointView where
  uuidHex : String
  xid : UInt64
  blockSize : UInt32
  blockCount : UInt64
  checkpointMapBlocks : List UInt64
  fsOids : List UInt64
  spacemanOid : UInt64
  spacemanObjectId : UInt64
  spacemanXid : UInt64
  device : SpacemanDevice
  tier2 : SpacemanDevice
  volumes : List CheckpointVolume
  deriving DecidableEq, Repr

/-! ## The projection -/

/-- `ApfsSpaceAmount`. -/
structure SpaceAmount where
  blocks : UInt64
  bytes : UInt64
  deriving DecidableEq, Repr

/-- `ApfsVolumeSpaceProjection`. -/
structure VolumeSpaceProjection where
  objectId : UInt64
  allocated : SpaceAmount
  reserve : Option SpaceAmount
  quota : Option SpaceAmount
  siblingReserveRemaining : SpaceAmount
  available : SpaceAmount
  deriving DecidableEq, Repr

/-- `ApfsSharedSpaceProjection`. -/
structure SharedSpaceProjection where
  containerUuidHex : String
  checkpointXid : UInt64
  allocationUnitBytes : UInt32
  total : SpaceAmount
  free : SpaceAmount
  used : SpaceAmount
  volumes : List VolumeSpaceProjection
  deriving DecidableEq, Repr

/-- The largest `uint64_t`. -/
def uint64Max : UInt64 := UInt64.ofNat (2 ^ 64 - 1)

/-- `amount`. -/
def amount (blockSize : UInt32) (blocks : UInt64) : Except String SpaceAmount :=
  if uint64Max / blockSize.toUInt64 < blocks then .error "SharedSpaceByteOverflow"
  else .ok ⟨blocks, blocks * blockSize.toUInt64⟩

/-- `amount` of a limit that is set. -/
def limitAmount (blockSize : UInt32) (blocks : UInt64) : Except String (Option SpaceAmount) :=
  if blocks = 0 then .ok none else do
    let value ← amount blockSize blocks
    .ok (some value)

/-- `unmet` and `own_unmet`. -/
def VolumeSpaceCounters.unmet (space : VolumeSpaceCounters) : UInt64 :=
  if space.allocatedBlockCount < space.reserveBlockCount then
    space.reserveBlockCount - space.allocatedBlockCount
  else 0

/-- The first test of a volume, but for the one that its identity is new. -/
def CheckpointVolume.identityIsInvalid (volume : CheckpointVolume) (checkpointXid fsOid : UInt64) :
    Bool :=
  volume.objectId == 0 || volume.objectId != fsOid || volume.xid == 0 ||
    decide (checkpointXid < volume.xid) || volume.superblockObjectId != volume.objectId ||
    volume.superblockObjectXid != volume.xid

/-- The second test of a volume. -/
def VolumeSpaceCounters.areInvalid (space : VolumeSpaceCounters) (used blockCount : UInt64) : Bool :=
  decide (used < space.allocatedBlockCount) || decide (blockCount < space.reserveBlockCount) ||
    (space.quotaBlockCount != 0 && decide (space.quotaBlockCount < space.reserveBlockCount))

/-- One pass of the first loop over the volumes, which has seen the identities and added up the
unmet reserves of those before. -/
def checkVolume (view : CheckpointView) (used : UInt64) (seen : List UInt64 × UInt64)
    (entry : CheckpointVolume × UInt64) : Except String (List UInt64 × UInt64) := do
  let volume := entry.1
  rejectIf (volume.identityIsInvalid view.xid entry.2 ∨ volume.objectId ∈ seen.1)
    "SharedSpaceVolumeIdentityInvalid"
  rejectIf (volume.space.areInvalid used view.blockCount) "SharedSpaceVolumeCountersInvalid"
  rejectIf (uint64Max - seen.2 < volume.space.unmet) "SharedSpaceReserveOverflow"
  .ok (volume.objectId :: seen.1, seen.2 + volume.space.unmet)

/-- `available`, before it is turned into bytes. -/
def availableBlocks (free unmetReserves : UInt64) (space : VolumeSpaceCounters) : UInt64 :=
  let available := free - (unmetReserves - space.unmet)
  if space.quotaBlockCount = 0 then available
  else
    let remaining := if space.allocatedBlockCount < space.quotaBlockCount then
      space.quotaBlockCount - space.allocatedBlockCount else 0
    min available remaining

/-- One pass of the second loop over the volumes. -/
def projectVolume (view : CheckpointView) (unmetReserves : UInt64) (volume : CheckpointVolume) :
    Except String VolumeSpaceProjection := do
  let space := volume.space
  let quota ← limitAmount view.blockSize space.quotaBlockCount
  let reserve ← limitAmount view.blockSize space.reserveBlockCount
  let allocated ← amount view.blockSize space.allocatedBlockCount
  let siblings ← amount view.blockSize (unmetReserves - space.unmet)
  let available ← amount view.blockSize
    (availableBlocks view.device.freeCount unmetReserves space)
  .ok ⟨volume.objectId, allocated, reserve, quota, siblings, available⟩

/-- The test of the container and its space manager. -/
def CheckpointView.isInvalid (view : CheckpointView) : Bool :=
  view.uuidHex.length != 32 || view.xid == 0 || view.blockCount == 0 ||
    decide (view.blockSize < 4096) || decide (65536 < view.blockSize) ||
    view.blockSize &&& (view.blockSize - 1) != 0 || view.checkpointMapBlocks.isEmpty ||
    view.spacemanOid == 0 || view.spacemanObjectId != view.spacemanOid ||
    view.spacemanXid != view.xid || view.device.blockCount != view.blockCount ||
    decide (view.device.blockCount < view.device.freeCount)

/-- The test of the second device. -/
def CheckpointView.isMultiStore (view : CheckpointView) : Bool :=
  view.tier2.blockCount != 0 || view.tier2.chunkCount != 0 || view.tier2.freeCount != 0 ||
    view.tier2.cibCount != 0 || view.tier2.cabCount != 0

/-- `TryProjectAppleSharedSpace`. -/
def tryProjectAppleSharedSpace (view : CheckpointView) : Except String SharedSpaceProjection := do
  rejectIf view.isInvalid "SharedSpaceCheckpointInvalid"
  rejectIf view.isMultiStore "SharedSpaceMultiStoreUnsupported"
  rejectIf (view.volumes = [] ∨ view.volumes.length ≠ view.fsOids.length)
    "SharedSpaceVolumeSetInvalid"
  let total ← amount view.blockSize view.blockCount
  let free ← amount view.blockSize view.device.freeCount
  let used ← amount view.blockSize (view.blockCount - view.device.freeCount)
  let seen ← (view.volumes.zip view.fsOids).foldlM (checkVolume view used.blocks) ([], 0)
  rejectIf (view.device.freeCount < seen.2) "SharedSpaceReservesExceedFree"
  let volumes ← view.volumes.mapM (projectVolume view seen.2)
  .ok ⟨view.uuidHex, view.xid, view.blockSize, total, free, used, volumes⟩

/-! ## The pool that the volumes share -/

/-- A volume as a member of the pool. -/
def VolumeSpaceCounters.member (space : VolumeSpaceCounters) : Member where
  allocated := space.allocatedBlockCount.toNat
  reserve := space.reserveBlockCount.toNat
  quota := if space.quotaBlockCount = 0 then none else some space.quotaBlockCount.toNat

/-- The free blocks of a container, shared by its volumes. -/
def CheckpointView.pool (view : CheckpointView) : Pool where
  free := view.device.freeCount.toNat
  members := view.volumes.map (·.space.member)

/-- An amount says a number of blocks and what they are in bytes. -/
def SpaceAmount.Is (amount : SpaceAmount) (blockSize : UInt32) (blocks : ℕ) : Prop :=
  amount.blocks.toNat = blocks ∧ amount.bytes.toNat = blocks * blockSize.toNat

/-- What a view says apart from how its blocks are distributed. -/
structure CheckpointView.Projectable (view : CheckpointView) : Prop where
  checkpoint : view.isInvalid = false
  singleStore : view.isMultiStore = false
  volumeSet : ¬(view.volumes = [] ∨ view.volumes.length ≠ view.fsOids.length)
  identities : ∀ entry ∈ view.volumes.zip view.fsOids,
    entry.1.identityIsInvalid view.xid entry.2 = false
  distinct : (view.volumes.map (·.objectId)).Nodup
  counters : ∀ volume ∈ view.volumes,
    volume.space.areInvalid (view.blockCount - view.device.freeCount) view.blockCount = false
  bytes : view.blockCount.toNat * view.blockSize.toNat < 2 ^ 64
  quotaBytes : ∀ volume ∈ view.volumes,
    volume.space.quotaBlockCount.toNat * view.blockSize.toNat < 2 ^ 64
  covers : view.pool.Covers

section Amounts

variable {blockSize : UInt32} {blocks : UInt64} {value : SpaceAmount} {space : VolumeSpaceCounters}

/-- **Turning blocks into bytes** succeeds when the bytes fit, and only then. -/
theorem amount_eq_ok_iff (hsize : 0 < blockSize.toNat) :
    amount blockSize blocks = .ok value ↔
      blocks.toNat * blockSize.toNat < 2 ^ 64 ∧ value.Is blockSize blocks.toNat := by
  have hmax : uint64Max.toNat = 2 ^ 64 - 1 := rfl
  have hguard : uint64Max / blockSize.toUInt64 < blocks ↔
      2 ^ 64 ≤ blocks.toNat * blockSize.toNat := by
    rw [UInt64.lt_iff_toNat_lt, UInt64.toNat_div, hmax, UInt32.toNat_toUInt64,
      Nat.div_lt_iff_lt_mul hsize]
    omega
  have hproduct : (blocks * blockSize.toUInt64).toNat =
      blocks.toNat * blockSize.toNat % 2 ^ 64 := by
    rw [UInt64.toNat_mul, UInt32.toNat_toUInt64]
  rw [amount]
  split_ifs with hlarge
  · rw [hguard] at hlarge
    exact iff_of_false nofun fun h => absurd h.1 (not_lt.mpr hlarge)
  · rw [hguard, not_le] at hlarge
    rw [Nat.mod_eq_of_lt hlarge] at hproduct
    rw [Except.ok.injEq]
    constructor
    · rintro rfl
      exact ⟨hlarge, rfl, hproduct⟩
    · rintro ⟨-, hblocks, hbytes⟩
      obtain ⟨valueBlocks, valueBytes⟩ := value
      rw [SpaceAmount.mk.injEq]
      exact ⟨UInt64.toNat_inj.mp hblocks.symm, UInt64.toNat_inj.mp (hproduct.trans hbytes.symm)⟩

/-- A difference that the source takes only when it is positive. -/
theorem toNat_difference (left right : UInt64) :
    (if right < left then left - right else 0).toNat = left.toNat - right.toNat := by
  split_ifs with hless
  · exact UInt64.toNat_sub_of_le _ _ (UInt64.le_of_lt hless)
  · rw [UInt64.lt_iff_toNat_lt, not_lt] at hless
    rw [Nat.sub_eq_zero_of_le hless]
    rfl

theorem toNat_unmet (space : VolumeSpaceCounters) : space.unmet.toNat = space.member.unmet :=
  toNat_difference _ _

theorem toNat_max (left right : UInt64) : (max left right).toNat = max left.toNat right.toNat := by
  show (if left ≤ right then right else left).toNat = _
  split_ifs with hle
  · exact (max_eq_right (UInt64.le_iff_toNat_le.mp hle)).symm
  · exact (max_eq_left (le_of_not_ge fun hge => hle (UInt64.le_iff_toNat_le.mpr hge))).symm

theorem toNat_min (left right : UInt64) : (min left right).toNat = min left.toNat right.toNat := by
  show (if left ≤ right then left else right).toNat = _
  split_ifs with hle
  · exact (min_eq_left (UInt64.le_iff_toNat_le.mp hle)).symm
  · exact (min_eq_right (le_of_not_ge fun hge => hle (UInt64.le_iff_toNat_le.mpr hge))).symm

end Amounts

/-! ## The loop over the volumes -/

section Volumes

variable {view : CheckpointView} {used : UInt64}

/-- The unmet reserves of some volumes. -/
def unmetReserves (entries : List (CheckpointVolume × UInt64)) : ℕ :=
  (entries.map fun entry => entry.1.space.member.unmet).sum

/-- One pass of the first loop. -/
theorem checkVolume_eq_ok_iff {entry : CheckpointVolume × UInt64}
    {seen next : List UInt64 × UInt64} :
    checkVolume view used seen entry = .ok next ↔
      (entry.1.identityIsInvalid view.xid entry.2 = false ∧
        entry.1.space.areInvalid used view.blockCount = false ∧ entry.1.objectId ∉ seen.1) ∧
      seen.2.toNat + entry.1.space.member.unmet < 2 ^ 64 ∧
      next = (entry.1.objectId :: seen.1, seen.2 + entry.1.space.unmet) := by
  have hroom : uint64Max - seen.2 < entry.1.space.unmet ↔
      ¬seen.2.toNat + entry.1.space.member.unmet < 2 ^ 64 := by
    have hlt := seen.2.toNat_lt
    have hmax : uint64Max.toNat = 2 ^ 64 - 1 := rfl
    rw [UInt64.lt_iff_toNat_lt, UInt64.toNat_sub_of_le _ _
      (UInt64.le_iff_toNat_le.mpr (by omega)), toNat_unmet, hmax]
    omega
  rw [checkVolume]
  simp only [rejectIf_bind_eq_ok_iff, Except.ok.injEq, hroom, not_or, not_not,
    Bool.not_eq_true]
  constructor
  · rintro ⟨⟨hidentity, hnew⟩, hcounters, hfits, rfl⟩
    exact ⟨⟨hidentity, hcounters, hnew⟩, hfits, rfl⟩
  · rintro ⟨⟨hidentity, hcounters, hnew⟩, hfits, rfl⟩
    exact ⟨⟨hidentity, hnew⟩, hcounters, hfits, rfl⟩

/-- **The first loop** passes over volumes with distinct identities, valid counters and unmet
reserves that can be added up. -/
theorem checkVolumes_eq_ok_iff {entries : List (CheckpointVolume × UInt64)}
    {seen after : List UInt64 × UInt64} :
    entries.foldlM (checkVolume view used) seen = .ok after ↔
      (∀ entry ∈ entries, entry.1.identityIsInvalid view.xid entry.2 = false ∧
        entry.1.space.areInvalid used view.blockCount = false ∧ entry.1.objectId ∉ seen.1) ∧
      (entries.map (·.1.objectId)).Nodup ∧ seen.2.toNat + unmetReserves entries < 2 ^ 64 ∧
      after.1 = (entries.map (·.1.objectId)).reverse ++ seen.1 ∧
      after.2.toNat = seen.2.toNat + unmetReserves entries := by
  induction entries generalizing seen with
  | nil =>
    have hlt := seen.2.toNat_lt
    rw [List.foldlM_nil]
    constructor
    · rintro ⟨⟩
      exact ⟨nofun, List.nodup_nil, hlt, rfl, rfl⟩
    · rintro ⟨-, -, -, hids, hsum⟩
      exact congrArg Except.ok (Prod.ext hids.symm (UInt64.toNat_inj.mp hsum.symm))
  | cons entry entries ih =>
    have hsum : unmetReserves (entry :: entries) =
        entry.1.space.member.unmet + unmetReserves entries := List.sum_cons
    have hadd : seen.2.toNat + entry.1.space.member.unmet < 2 ^ 64 →
        (seen.2 + entry.1.space.unmet).toNat = seen.2.toNat + entry.1.space.member.unmet := by
      intro hfits
      rw [UInt64.toNat_add, toNat_unmet, Nat.mod_eq_of_lt hfits]
    rw [List.foldlM_cons, bind_eq_ok_iff]
    simp only [checkVolume_eq_ok_iff]
    rw [List.map_cons, List.nodup_cons, List.reverse_cons, List.append_assoc, hsum,
      List.forall_mem_cons]
    constructor
    · rintro ⟨next, ⟨hfirst, hfits, rfl⟩, hrest⟩
      obtain ⟨hothers, hnodup, hlt, hids, htotal⟩ := ih.mp hrest
      rw [hadd hfits] at hlt htotal
      refine ⟨⟨hfirst, fun other hother => ?_⟩, ⟨fun hmem => ?_, hnodup⟩, by omega, hids, by omega⟩
      · obtain ⟨hidentity, hcounters, hnew⟩ := hothers other hother
        exact ⟨hidentity, hcounters, fun hmem => hnew (List.mem_cons_of_mem _ hmem)⟩
      · obtain ⟨other, hother, hsame⟩ := List.mem_map.mp hmem
        exact (hothers other hother).2.2 (hsame ▸ List.mem_cons_self)
    · rintro ⟨⟨hfirst, hothers⟩, ⟨hfresh, hnodup⟩, hlt, hids, htotal⟩
      have hfits : seen.2.toNat + entry.1.space.member.unmet < 2 ^ 64 := by omega
      refine ⟨_, ⟨hfirst, hfits, rfl⟩, ih.mpr ⟨fun other hother => ?_, hnodup, ?_, hids, ?_⟩⟩
      · obtain ⟨hidentity, hcounters, hnew⟩ := hothers other hother
        refine ⟨hidentity, hcounters, fun hmem => ?_⟩
        rcases List.mem_cons.mp hmem with hsame | hmem
        · exact hfresh (hsame ▸ List.mem_map_of_mem hother)
        · exact hnew hmem
      · show (seen.2 + entry.1.space.unmet).toNat + unmetReserves entries < 2 ^ 64
        rw [hadd hfits]
        omega
      · show after.2.toNat = (seen.2 + entry.1.space.unmet).toNat + unmetReserves entries
        rw [hadd hfits]
        omega

/-- The amount of a limit, if it is set. -/
def LimitIs (limit : Option SpaceAmount) (blockSize : UInt32) (blocks : UInt64) : Prop :=
  match limit with
  | none => blocks = 0
  | some value => blocks ≠ 0 ∧ value.Is blockSize blocks.toNat

theorem limitAmount_eq_ok_iff {blockSize : UInt32} {blocks : UInt64} {limit : Option SpaceAmount}
    (hsize : 0 < blockSize.toNat) :
    limitAmount blockSize blocks = .ok limit ↔
      blocks.toNat * blockSize.toNat < 2 ^ 64 ∧ LimitIs limit blockSize blocks := by
  rw [limitAmount]
  split_ifs with hunset
  · rw [hunset, Except.ok.injEq]
    constructor
    · rintro rfl
      exact ⟨by rw [UInt64.toNat_zero]; omega, rfl⟩
    · rintro ⟨-, hlimit⟩
      cases limit with
      | none => rfl
      | some value => exact absurd rfl hlimit.1
  · simp only [bind_eq_ok_iff, amount_eq_ok_iff hsize, Except.ok.injEq]
    constructor
    · rintro ⟨value, ⟨hfits, hvalue⟩, rfl⟩
      exact ⟨hfits, hunset, hvalue⟩
    · rintro ⟨hfits, hlimit⟩
      cases limit with
      | none => exact absurd hlimit hunset
      | some value => exact ⟨value, ⟨hfits, hlimit.2⟩, rfl⟩

/-- The projection of a volume says what the pool says of its member. -/
structure VolumeSpaceProjection.Exact (projection : VolumeSpaceProjection) (view : CheckpointView)
    (volume : CheckpointVolume) : Prop where
  objectId : projection.objectId = volume.objectId
  allocated : projection.allocated.Is view.blockSize volume.space.member.allocated
  reserve : LimitIs projection.reserve view.blockSize volume.space.reserveBlockCount
  quota : LimitIs projection.quota view.blockSize volume.space.quotaBlockCount
  siblings : projection.siblingReserveRemaining.Is view.blockSize
    (view.pool.siblings volume.space.member)
  available : projection.available.Is view.blockSize (view.pool.available volume.space.member)

/-- What is available to a volume, in blocks. -/
theorem toNat_availableBlocks {volume : CheckpointVolume} {unmetBlocks : UInt64}
    (hvolume : volume ∈ view.volumes) (hunmet : unmetBlocks.toNat = view.pool.unmet)
    (hcovers : view.pool.Covers) :
    (unmetBlocks - volume.space.unmet).toNat = view.pool.siblings volume.space.member ∧
      (availableBlocks view.device.freeCount unmetBlocks volume.space).toNat =
        view.pool.available volume.space.member := by
  have hmember : volume.space.member ∈ view.pool.members := List.mem_map_of_mem hvolume
  obtain ⟨index, hindex⟩ := List.mem_iff_getElem?.mp hmember
  have hown := unmet_le hindex
  have hsiblings : (unmetBlocks - volume.space.unmet).toNat =
      view.pool.siblings volume.space.member := by
    rw [UInt64.toNat_sub_of_le _ _ (by rw [UInt64.le_iff_toNat_le, toNat_unmet, hunmet]; exact hown),
      toNat_unmet, hunmet]
    rfl
  refine ⟨hsiblings, ?_⟩
  have hfree : (view.device.freeCount - (unmetBlocks - volume.space.unmet)).toNat =
      view.pool.free - view.pool.siblings volume.space.member := by
    have hle : view.pool.siblings volume.space.member ≤ view.device.freeCount.toNat :=
      (Nat.sub_le _ _).trans hcovers
    rw [UInt64.toNat_sub_of_le _ _ (by rw [UInt64.le_iff_toNat_le, hsiblings]; exact hle),
      hsiblings]
    rfl
  rw [availableBlocks, Pool.available, Member.within]
  by_cases hquota : volume.space.quotaBlockCount = 0
  · have hnone : volume.space.member.quota = none := if_pos hquota
    rw [if_pos hquota, hnone]
    exact hfree
  · have hsome : volume.space.member.quota = some volume.space.quotaBlockCount.toNat :=
      if_neg hquota
    have hleft : (if volume.space.allocatedBlockCount < volume.space.quotaBlockCount then
        volume.space.quotaBlockCount - volume.space.allocatedBlockCount else 0).toNat =
        volume.space.quotaBlockCount.toNat - volume.space.member.allocated :=
      toNat_difference _ _
    rw [if_neg hquota, hsome]
    dsimp only
    rw [toNat_min, hfree, hleft]

/-- **The projection of a volume** succeeds when the bytes of its counters fit. -/
theorem projectVolume_eq_ok_iff {volume : CheckpointVolume} {unmetBlocks : UInt64}
    {projection : VolumeSpaceProjection} (hsize : 0 < view.blockSize.toNat)
    (hvolume : volume ∈ view.volumes) (hunmet : unmetBlocks.toNat = view.pool.unmet)
    (hcovers : view.pool.Covers)
    (hfree : view.device.freeCount.toNat * view.blockSize.toNat < 2 ^ 64) :
    projectVolume view unmetBlocks volume = .ok projection ↔
      (volume.space.quotaBlockCount.toNat * view.blockSize.toNat < 2 ^ 64 ∧
        volume.space.reserveBlockCount.toNat * view.blockSize.toNat < 2 ^ 64 ∧
        volume.space.allocatedBlockCount.toNat * view.blockSize.toNat < 2 ^ 64) ∧
      projection.Exact view volume := by
  obtain ⟨hsiblings, havailable⟩ := toNat_availableBlocks hvolume hunmet hcovers
  have hfits : ∀ {blocks}, blocks ≤ view.device.freeCount.toNat →
      blocks * view.blockSize.toNat < 2 ^ 64 :=
    fun hle => (Nat.mul_le_mul_right _ hle).trans_lt hfree
  have hsiblingsFit := hfits ((Nat.sub_le _ _).trans hcovers :
    view.pool.siblings volume.space.member ≤ view.device.freeCount.toNat)
  have havailableFit := hfits ((available_le _ _).trans (Nat.sub_le _ _) :
    view.pool.available volume.space.member ≤ view.device.freeCount.toNat)
  rw [projectVolume]
  simp only [bind_eq_ok_iff, limitAmount_eq_ok_iff hsize, amount_eq_ok_iff hsize, hsiblings,
    havailable, Except.ok.injEq]
  constructor
  · rintro ⟨quota, ⟨hquotaFits, hquota⟩, reserve, ⟨hreserveFits, hreserve⟩, allocated,
      ⟨hallocatedFits, hallocated⟩, siblings, ⟨-, hsiblings⟩, available, ⟨-, havailable⟩, rfl⟩
    exact ⟨⟨hquotaFits, hreserveFits, hallocatedFits⟩,
      ⟨rfl, hallocated, hreserve, hquota, hsiblings, havailable⟩⟩
  · rintro ⟨⟨hquotaFits, hreserveFits, hallocatedFits⟩, hexact⟩
    obtain ⟨objectId, allocated, reserve, quota, siblings, available⟩ := projection
    refine ⟨quota, ⟨hquotaFits, hexact.quota⟩, reserve, ⟨hreserveFits, hexact.reserve⟩, allocated,
      ⟨hallocatedFits, hexact.allocated⟩, siblings, ⟨hsiblingsFit, hexact.siblings⟩, available,
      ⟨havailableFit, hexact.available⟩, ?_⟩
    rw [show objectId = volume.objectId from hexact.objectId]

end Volumes

/-! ## The whole projection -/

/-- The projection says what the pool says, in blocks and in bytes. -/
structure SharedSpaceProjection.Exact (projection : SharedSpaceProjection) (view : CheckpointView) :
    Prop where
  total : projection.total.Is view.blockSize view.blockCount.toNat
  free : projection.free.Is view.blockSize view.device.freeCount.toNat
  used : projection.used.Is view.blockSize (view.blockCount.toNat - view.device.freeCount.toNat)
  volumes : List.Forall₂ (fun volume projected =>
    VolumeSpaceProjection.Exact projected view volume) view.volumes projection.volumes
  identity : projection.containerUuidHex = view.uuidHex ∧ projection.checkpointXid = view.xid ∧
    projection.allocationUnitBytes = view.blockSize

section Projection

variable {view : CheckpointView} {projection : SharedSpaceProjection}

theorem blockSize_pos (h : view.isInvalid = false) : 0 < view.blockSize.toNat := by
  simp only [CheckpointView.isInvalid, Bool.or_eq_false_iff, decide_eq_false_iff_not,
    UInt32.lt_iff_toNat_lt] at h
  have hlow : ¬view.blockSize.toNat < 4096 := h.1.1.1.1.1.1.1.1.2
  omega

theorem freeCount_le (h : view.isInvalid = false) :
    view.device.freeCount.toNat ≤ view.blockCount.toNat := by
  simp only [CheckpointView.isInvalid, Bool.or_eq_false_iff, decide_eq_false_iff_not, bne_eq_false_iff_eq] at h
  obtain ⟨⟨-, hcount⟩, hfree⟩ := h
  rw [UInt64.lt_iff_toNat_lt, hcount] at hfree
  exact not_lt.mp hfree

/-- The blocks in use. -/
theorem toNat_used (h : view.isInvalid = false) :
    (view.blockCount - view.device.freeCount).toNat =
      view.blockCount.toNat - view.device.freeCount.toNat :=
  UInt64.toNat_sub_of_le _ _ (UInt64.le_iff_toNat_le.mpr (freeCount_le h))

/-- The unmet reserves that the first loop adds up are those of the pool. -/
theorem unmetReserves_zip (h : view.volumes.length = view.fsOids.length) :
    unmetReserves (view.volumes.zip view.fsOids) = view.pool.unmet := by
  have hfirst : (view.volumes.zip view.fsOids).map Prod.fst = view.volumes :=
    List.map_fst_zip h.le
  rw [unmetReserves, Pool.unmet, CheckpointView.pool, List.map_map, ← hfirst, List.map_map,
    hfirst]
  rfl

theorem objectIds_zip (h : view.volumes.length = view.fsOids.length) :
    (view.volumes.zip view.fsOids).map (·.1.objectId) = view.volumes.map (·.objectId) := by
  have hfirst : (view.volumes.zip view.fsOids).map Prod.fst = view.volumes :=
    List.map_fst_zip h.le
  conv_rhs => rw [← hfirst]
  rw [List.map_map]
  rfl

/-- What the second test of a volume asks for. -/
theorem areInvalid_eq_false_iff {space : VolumeSpaceCounters} {used blockCount : UInt64} :
    space.areInvalid used blockCount = false ↔
      space.allocatedBlockCount.toNat ≤ used.toNat ∧
      space.reserveBlockCount.toNat ≤ blockCount.toNat ∧
      (space.quotaBlockCount = 0 ∨
        space.reserveBlockCount.toNat ≤ space.quotaBlockCount.toNat) := by
  simp only [VolumeSpaceCounters.areInvalid, Bool.or_eq_false_iff, Bool.and_eq_false_iff,
    decide_eq_false_iff_not, bne_eq_false_iff_eq, UInt64.lt_iff_toNat_lt, not_lt, and_assoc]

/-- The passes over a view, whose loops carry the identities and the unmet reserves. -/
theorem tryProject_unfold : tryProjectAppleSharedSpace view = .ok projection ↔
    view.isInvalid = false ∧ view.isMultiStore = false ∧
      ¬(view.volumes = [] ∨ view.volumes.length ≠ view.fsOids.length) ∧
      ∃ total free used seen volumes,
        amount view.blockSize view.blockCount = .ok total ∧
        amount view.blockSize view.device.freeCount = .ok free ∧
        amount view.blockSize (view.blockCount - view.device.freeCount) = .ok used ∧
        (view.volumes.zip view.fsOids).foldlM (checkVolume view used.blocks) ([], 0) = .ok seen ∧
        ¬view.device.freeCount < seen.2 ∧
        List.Forall₂ (fun volume projected => projectVolume view seen.2 volume = .ok projected)
          view.volumes volumes ∧
        projection = ⟨view.uuidHex, view.xid, view.blockSize, total, free, used, volumes⟩ := by
  rw [tryProjectAppleSharedSpace, rejectIf_bind_eq_ok_iff, rejectIf_bind_eq_ok_iff,
    rejectIf_bind_eq_ok_iff, Bool.not_eq_true, Bool.not_eq_true]
  refine and_congr_right fun _ => and_congr_right fun _ => and_congr_right fun _ => ?_
  constructor
  · intro h
    obtain ⟨total, htotal, h⟩ := bind_eq_ok_iff.mp h
    obtain ⟨free, hfree, h⟩ := bind_eq_ok_iff.mp h
    obtain ⟨used, hused, h⟩ := bind_eq_ok_iff.mp h
    obtain ⟨seen, hseen, h⟩ := bind_eq_ok_iff.mp h
    obtain ⟨hcover, h⟩ := rejectIf_bind_eq_ok_iff.mp h
    obtain ⟨volumes, hvolumes, h⟩ := bind_eq_ok_iff.mp h
    exact ⟨total, free, used, seen, volumes, htotal, hfree, hused, hseen, hcover,
      Loops.mapM_eq_ok_iff.mp hvolumes, (Except.ok.inj h).symm⟩
  · rintro ⟨total, free, used, seen, volumes, htotal, hfree, hused, hseen, hcover, hvolumes, rfl⟩
    rw [htotal, ok_bind, hfree, ok_bind, hused, ok_bind, hseen, ok_bind,
      rejectIf_bind_of_not _ _ hcover, Loops.mapM_eq_ok_iff.mpr hvolumes, ok_bind]

/-- The second loop, on a view whose unmet reserves are added up. -/
theorem projectVolumes_iff {unmetBlocks : UInt64} {projections : List VolumeSpaceProjection}
    (hvalid : view.isInvalid = false) (hunmet : unmetBlocks.toNat = view.pool.unmet)
    (hcovers : view.pool.Covers) (hbytes : view.blockCount.toNat * view.blockSize.toNat < 2 ^ 64)
    (hcounters : ∀ volume ∈ view.volumes,
      volume.space.areInvalid (view.blockCount - view.device.freeCount) view.blockCount = false) :
    List.Forall₂ (fun volume projected => projectVolume view unmetBlocks volume = .ok projected)
        view.volumes projections ↔
      (∀ volume ∈ view.volumes,
        volume.space.quotaBlockCount.toNat * view.blockSize.toNat < 2 ^ 64) ∧
      List.Forall₂ (fun volume projected => VolumeSpaceProjection.Exact projected view volume)
        view.volumes projections := by
  have hfits : ∀ {blocks}, blocks ≤ view.blockCount.toNat →
      blocks * view.blockSize.toNat < 2 ^ 64 :=
    fun hle => (Nat.mul_le_mul_right _ hle).trans_lt hbytes
  have hvolume : ∀ volume ∈ view.volumes, ∀ projected,
      projectVolume view unmetBlocks volume = .ok projected ↔
        volume.space.quotaBlockCount.toNat * view.blockSize.toNat < 2 ^ 64 ∧
          VolumeSpaceProjection.Exact projected view volume := by
    intro volume hmem projected
    obtain ⟨hallocated, hreserve, -⟩ := areInvalid_eq_false_iff.mp (hcounters volume hmem)
    rw [toNat_used hvalid] at hallocated
    have hothers := hfits hreserve
    have hown := hfits (hallocated.trans (Nat.sub_le _ _))
    rw [projectVolume_eq_ok_iff (blockSize_pos hvalid) hmem hunmet hcovers
      (hfits (freeCount_le hvalid))]
    exact ⟨fun h => ⟨h.1.1, h.2⟩, fun h => ⟨⟨h.1, hothers, hown⟩, h.2⟩⟩
  have hwith : ∀ {related : CheckpointVolume → VolumeSpaceProjection → Prop},
      List.Forall₂ related view.volumes projections →
        List.Forall₂ (fun volume projected => volume ∈ view.volumes ∧ related volume projected)
          view.volumes projections :=
    fun h => (List.forall₂_and_left _ _).mpr ⟨fun _ hmem => hmem, h⟩
  rw [← List.forall₂_and_left]
  constructor
  · exact fun h => (hwith h).imp fun volume projected h => (hvolume volume h.1 projected).mp h.2
  · exact fun h => (hwith h).imp fun volume projected h => (hvolume volume h.1 projected).mpr h.2

/-- **The projection of a view that can be projected** is what the pool says, and no other view is
projected. -/
theorem tryProject_eq_ok_iff : tryProjectAppleSharedSpace view = .ok projection ↔
    view.Projectable ∧ projection.Exact view := by
  rw [tryProject_unfold]
  constructor
  · rintro ⟨hvalid, hsingle, hset, total, free, used, seen, volumes, htotal, hfree, hused, hseen,
      hcover, hvolumes, rfl⟩
    have hsize := blockSize_pos hvalid
    rw [amount_eq_ok_iff hsize] at htotal hfree hused
    rw [toNat_used hvalid] at hused
    have hlength : view.volumes.length = view.fsOids.length := not_not.mp (not_or.mp hset).2
    obtain ⟨hchecked, hnodup, -, -, hsum⟩ := checkVolumes_eq_ok_iff.mp hseen
    rw [unmetReserves_zip hlength, UInt64.toNat_zero, Nat.zero_add] at hsum
    rw [objectIds_zip hlength] at hnodup
    have hcovers : view.pool.Covers := by
      rw [UInt64.lt_iff_toNat_lt, hsum, not_lt] at hcover
      exact hcover
    have husedBlocks : used.blocks = view.blockCount - view.device.freeCount :=
      UInt64.toNat_inj.mp (hused.2.1.trans (toNat_used hvalid).symm)
    rw [husedBlocks] at hchecked
    have hcounters : ∀ volume ∈ view.volumes, volume.space.areInvalid
        (view.blockCount - view.device.freeCount) view.blockCount = false := by
      intro volume hvolume
      have hfirst : (view.volumes.zip view.fsOids).map Prod.fst = view.volumes :=
        List.map_fst_zip hlength.le
      obtain ⟨entry, hentry, rfl⟩ := List.mem_map.mp (hfirst ▸ hvolume)
      exact (hchecked entry hentry).2.1
    obtain ⟨hquotas, hexact⟩ :=
      (projectVolumes_iff hvalid hsum hcovers htotal.1 hcounters).mp hvolumes
    exact ⟨⟨hvalid, hsingle, hset, fun entry hentry => (hchecked entry hentry).1, hnodup, hcounters,
      htotal.1, hquotas, hcovers⟩, ⟨htotal.2, hfree.2, hused.2, hexact, rfl, rfl, rfl⟩⟩
  · rintro ⟨hview, hexact⟩
    obtain ⟨containerUuidHex, checkpointXid, unitBytes, total, free, used, volumes⟩ := projection
    obtain ⟨htotal, hfree, hused, hvolumes, rfl, rfl, rfl⟩ := hexact
    have hvalid := hview.checkpoint
    have hsize := blockSize_pos hvalid
    have hlength : view.volumes.length = view.fsOids.length :=
      not_not.mp (not_or.mp hview.volumeSet).2
    have hfits : ∀ {blocks}, blocks ≤ view.blockCount.toNat →
        blocks * view.blockSize.toNat < 2 ^ 64 :=
      fun hle => (Nat.mul_le_mul_right _ hle).trans_lt hview.bytes
    have husedBlocks : used.blocks = view.blockCount - view.device.freeCount :=
      UInt64.toNat_inj.mp (hused.1.trans (toNat_used hvalid).symm)
    have hlt : view.pool.unmet < 2 ^ 64 := hview.covers.trans_lt view.device.freeCount.toNat_lt
    have hunmet : (UInt64.ofNat view.pool.unmet).toNat = view.pool.unmet :=
      UInt64.toNat_ofNat_of_lt hlt
    refine ⟨hvalid, hview.singleStore, hview.volumeSet, total, free, used,
      (((view.volumes.zip view.fsOids).map (·.1.objectId)).reverse ++ [],
        UInt64.ofNat view.pool.unmet), volumes,
      (amount_eq_ok_iff hsize).mpr ⟨hview.bytes, htotal⟩,
      (amount_eq_ok_iff hsize).mpr ⟨hfits (freeCount_le hvalid), hfree⟩,
      (amount_eq_ok_iff hsize).mpr ?_, checkVolumes_eq_ok_iff.mpr ?_, ?_,
      (projectVolumes_iff hvalid hunmet hview.covers hview.bytes hview.counters).mpr
        ⟨hview.quotaBytes, hvolumes⟩, rfl⟩
    · rw [toNat_used hvalid]
      exact ⟨hfits (Nat.sub_le _ _), hused⟩
    · rw [unmetReserves_zip hlength, UInt64.toNat_zero, Nat.zero_add, objectIds_zip hlength,
        husedBlocks]
      exact ⟨fun entry hentry => ⟨hview.identities entry hentry,
        hview.counters _ (List.of_mem_zip hentry).1, List.not_mem_nil⟩, hview.distinct, hlt, rfl,
        hunmet⟩
    · rw [UInt64.lt_iff_toNat_lt, hunmet]
      exact not_lt.mpr hview.covers

/-- The amount of a number of blocks. -/
def exactAmount (blockSize : UInt32) (blocks : ℕ) : SpaceAmount :=
  ⟨UInt64.ofNat blocks, UInt64.ofNat (blocks * blockSize.toNat)⟩

/-- The amount of a limit. -/
def exactLimit (blockSize : UInt32) (blocks : UInt64) : Option SpaceAmount :=
  if blocks = 0 then none else some (exactAmount blockSize blocks.toNat)

/-- What the pool says of a volume. -/
def exactVolume (view : CheckpointView) (volume : CheckpointVolume) : VolumeSpaceProjection where
  objectId := volume.objectId
  allocated := exactAmount view.blockSize volume.space.allocatedBlockCount.toNat
  reserve := exactLimit view.blockSize volume.space.reserveBlockCount
  quota := exactLimit view.blockSize volume.space.quotaBlockCount
  siblingReserveRemaining := exactAmount view.blockSize (view.pool.siblings volume.space.member)
  available := exactAmount view.blockSize (view.pool.available volume.space.member)

theorem exactAmount_is {blockSize : UInt32} {blocks : ℕ} (hblocks : blocks < 2 ^ 64)
    (hbytes : blocks * blockSize.toNat < 2 ^ 64) :
    (exactAmount blockSize blocks).Is blockSize blocks :=
  ⟨UInt64.toNat_ofNat_of_lt hblocks, UInt64.toNat_ofNat_of_lt hbytes⟩

theorem exactLimit_is {blockSize : UInt32} {blocks : UInt64}
    (hbytes : blocks.toNat * blockSize.toNat < 2 ^ 64) :
    LimitIs (exactLimit blockSize blocks) blockSize blocks := by
  rw [exactLimit]
  split_ifs with hunset
  · exact hunset
  · exact ⟨hunset, exactAmount_is blocks.toNat_lt hbytes⟩

/-- **A view that can be projected is projected.** -/
theorem CheckpointView.Projectable.exists_projection (h : view.Projectable) :
    ∃ projection, tryProjectAppleSharedSpace view = .ok projection ∧ projection.Exact view := by
  have hblocks := view.blockCount.toNat_lt
  have hamount : ∀ {blocks}, blocks ≤ view.blockCount.toNat →
      (exactAmount view.blockSize blocks).Is view.blockSize blocks := fun hle =>
    exactAmount_is (hle.trans_lt hblocks) ((Nat.mul_le_mul_right _ hle).trans_lt h.bytes)
  have hfree := freeCount_le h.checkpoint
  have hexact : (⟨view.uuidHex, view.xid, view.blockSize,
      exactAmount view.blockSize view.blockCount.toNat,
      exactAmount view.blockSize view.device.freeCount.toNat,
      exactAmount view.blockSize (view.blockCount.toNat - view.device.freeCount.toNat),
      view.volumes.map (exactVolume view)⟩ : SharedSpaceProjection).Exact view := by
    refine ⟨hamount le_rfl, hamount hfree, hamount (Nat.sub_le _ _), ?_, rfl, rfl, rfl⟩
    rw [List.forall₂_map_right_iff, List.forall₂_same]
    intro volume hvolume
    obtain ⟨hallocated, hreserve, -⟩ := areInvalid_eq_false_iff.mp (h.counters volume hvolume)
    rw [toNat_used h.checkpoint] at hallocated
    have hsiblings : view.pool.siblings volume.space.member ≤ view.device.freeCount.toNat :=
      (Nat.sub_le _ _).trans h.covers
    have havailable : view.pool.available volume.space.member ≤ view.device.freeCount.toNat :=
      (available_le _ _).trans (Nat.sub_le _ _)
    exact ⟨rfl, hamount (hallocated.trans (Nat.sub_le _ _)),
      exactLimit_is ((Nat.mul_le_mul_right _ hreserve).trans_lt h.bytes),
      exactLimit_is (h.quotaBytes volume hvolume), hamount (hsiblings.trans hfree),
      hamount (havailable.trans hfree)⟩
  exact ⟨_, tryProject_eq_ok_iff.mpr ⟨h, hexact⟩, hexact⟩

end Projection

/-! ## Allocations within the projection -/

/-- A volume with more blocks. -/
def CheckpointVolume.grow (volume : CheckpointVolume) (count : UInt64) : CheckpointVolume :=
  { volume with
    space := { volume.space with
      allocatedBlockCount := volume.space.allocatedBlockCount + count } }

/-- The view after blocks were moved from the free count to the count of a volume. -/
def CheckpointView.allocate (view : CheckpointView) (index : ℕ) (count : UInt64) :
    CheckpointView :=
  { view with
    device := { view.device with freeCount := view.device.freeCount - count }
    volumes := view.volumes.modify index (·.grow count) }

/-- A volume allocates no more than the projection says is available to it. -/
def CheckpointView.Allocates (view after : CheckpointView) : Prop :=
  ∃ projection index projected count, tryProjectAppleSharedSpace view = .ok projection ∧
    projection.volumes[index]? = some projected ∧ count ≤ projected.available.blocks ∧
    after = view.allocate index count

section Allocations

variable {view after : CheckpointView} {index : ℕ} {count : UInt64} {volume : CheckpointVolume}

theorem getElem?_modify_grow (volumes : List CheckpointVolume) (index place : ℕ)
    (count : UInt64) : (volumes.modify index (·.grow count))[place]? =
      if index = place then volumes[place]?.map (·.grow count) else volumes[place]? := by
  rw [List.getElem?_modify]
  by_cases hsame : index = place
  · simp only [if_pos hsame]
    rfl
  · simp only [if_neg hsame]
    exact Option.map_id'

/-- What does not depend on the blocks of a volume stays. -/
theorem map_modify_grow {β : Type} (volumes : List CheckpointVolume) (index : ℕ) (count : UInt64)
    (read : CheckpointVolume → β) (hread : ∀ volume, read (volume.grow count) = read volume) :
    (volumes.modify index (·.grow count)).map read = volumes.map read := by
  apply List.ext_getElem?
  intro place
  rw [List.getElem?_map, List.getElem?_map, getElem?_modify_grow]
  split
  · rw [Option.map_map]
    exact congrArg (Option.map · volumes[place]?) (funext hread)
  · rfl

/-- An allocation that fits wraps nowhere, and is one of the pool. -/
theorem pool_allocate (hvolume : view.volumes[index]? = some volume)
    (hfree : count ≤ view.device.freeCount)
    (hgrown : volume.space.allocatedBlockCount.toNat + count.toNat < 2 ^ 64) :
    (view.allocate index count).pool = view.pool.take index count.toNat := by
  have hfreeCount : (view.device.freeCount - count).toNat =
      view.device.freeCount.toNat - count.toNat := UInt64.toNat_sub_of_le _ _ hfree
  rw [CheckpointView.pool, CheckpointView.allocate, Pool.take, CheckpointView.pool]
  dsimp only
  rw [hfreeCount, Pool.mk.injEq]
  refine ⟨rfl, List.ext_getElem? fun other => ?_⟩
  rw [List.getElem?_map, List.getElem?_modify, List.getElem?_modify, List.getElem?_map]
  by_cases hsame : index = other
  · subst hsame
    have hadd : (volume.space.allocatedBlockCount + count).toNat =
        volume.space.allocatedBlockCount.toNat + count.toNat := by
      rw [UInt64.toNat_add, Nat.mod_eq_of_lt hgrown]
    simp only [hvolume, if_pos, Option.map_some]
    show some (CheckpointVolume.grow volume count).space.member = some (volume.space.member.grow _)
    rw [CheckpointVolume.grow, VolumeSpaceCounters.member]
    dsimp only
    rw [hadd]
    rfl
  · simp only [if_neg hsame]
    cases view.volumes[other]? with
    | none => rfl
    | some other => rfl

/-- What the projection of a volume bounds. -/
theorem available_bounds (hview : view.Projectable) (hvolume : view.volumes[index]? = some volume)
    (hcount : count.toNat ≤ view.pool.available volume.space.member) :
    count ≤ view.device.freeCount ∧
      volume.space.allocatedBlockCount.toNat + count.toNat ≤
        view.blockCount.toNat - (view.device.freeCount.toNat - count.toNat) := by
  have hfree : count.toNat ≤ view.device.freeCount.toNat :=
    hcount.trans ((available_le _ _).trans (Nat.sub_le _ _))
  obtain ⟨hallocated, -⟩ :=
    areInvalid_eq_false_iff.mp (hview.counters volume (List.mem_of_getElem? hvolume))
  have hbound := freeCount_le hview.checkpoint
  rw [toNat_used hview.checkpoint] at hallocated
  exact ⟨UInt64.le_iff_toNat_le.mpr hfree, by omega⟩

/-- **An allocation within the projection** leaves a view that can be projected. -/
theorem CheckpointView.Projectable.allocate (hview : view.Projectable)
    (hvolume : view.volumes[index]? = some volume)
    (hcount : count.toNat ≤ view.pool.available volume.space.member) :
    (view.allocate index count).Projectable := by
  obtain ⟨hfree, hgrown⟩ := available_bounds hview hvolume hcount
  have hfreeCount : (view.device.freeCount - count).toNat =
      view.device.freeCount.toNat - count.toNat := UInt64.toNat_sub_of_le _ _ hfree
  have hbound := freeCount_le hview.checkpoint
  have hblocks := view.blockCount.toNat_lt
  have hpool := pool_allocate hvolume hfree (by omega)
  have hmodified : ∀ other ∈ (view.allocate index count).volumes, other ∈ view.volumes ∨
      other = volume.grow count := by
    intro other hother
    obtain ⟨place, hplace⟩ := List.mem_iff_getElem?.mp hother
    rw [CheckpointView.allocate, getElem?_modify_grow] at hplace
    split_ifs at hplace with hsame
    · rw [← hsame, hvolume] at hplace
      exact Or.inr (Option.some.inj hplace).symm
    · exact Or.inl (List.mem_of_getElem? hplace)
  have hvalid : (view.allocate index count).isInvalid = false := by
    have hchecks := hview.checkpoint
    simp only [CheckpointView.isInvalid, Bool.or_eq_false_iff, decide_eq_false_iff_not] at hchecks ⊢
    obtain ⟨hothers, hless⟩ := hchecks
    refine ⟨hothers, fun hmore => hless ?_⟩
    rw [UInt64.lt_iff_toNat_lt] at hmore ⊢
    exact hmore.trans_le (hfreeCount.trans_le (Nat.sub_le _ _))
  have hids := map_modify_grow view.volumes index count (·.objectId) fun _ => rfl
  refine ⟨hvalid, hview.singleStore, ?_, ?_, ?_, ?_, hview.bytes, ?_, ?_⟩
  · show ¬(view.volumes.modify index _ = [] ∨ (view.volumes.modify index _).length ≠ _)
    rw [List.length_modify, ← List.length_eq_zero_iff, List.length_modify, List.length_eq_zero_iff]
    exact hview.volumeSet
  · intro entry hentry
    obtain ⟨place, hplace⟩ := List.mem_iff_getElem?.mp hentry
    obtain ⟨hfirst, hsecond⟩ := List.getElem?_zip_eq_some.mp hplace
    rw [CheckpointView.allocate, getElem?_modify_grow] at hfirst
    have hback : ∀ other, view.volumes[place]? = some other →
        other.identityIsInvalid view.xid entry.2 = false := fun other hother =>
      hview.identities (other, entry.2) (List.mem_iff_getElem?.mpr
        ⟨place, List.getElem?_zip_eq_some.mpr ⟨hother, hsecond⟩⟩)
    split_ifs at hfirst
    · obtain ⟨other, hother, hgrow⟩ := Option.map_eq_some_iff.mp hfirst
      rw [← hgrow]
      exact hback other hother
    · exact hback _ hfirst
  · exact (congrArg List.Nodup hids).mpr hview.distinct
  · intro other hother
    have hused := toNat_used hvalid
    have hbefore := toNat_used hview.checkpoint
    have hafter : (view.allocate index count).device.freeCount.toNat =
        view.device.freeCount.toNat - count.toNat := hfreeCount
    rw [hafter] at hused
    rw [areInvalid_eq_false_iff, hused]
    rcases hmodified other hother with hother | rfl
    · obtain ⟨hallocated, hlimits⟩ := areInvalid_eq_false_iff.mp (hview.counters other hother)
      rw [hbefore] at hallocated
      exact ⟨hallocated.trans (Nat.sub_le_sub_left (Nat.sub_le _ _) _), hlimits⟩
    · obtain ⟨-, hlimits⟩ :=
        areInvalid_eq_false_iff.mp (hview.counters volume (List.mem_of_getElem? hvolume))
      refine ⟨?_, hlimits⟩
      show (volume.space.allocatedBlockCount + count).toNat ≤ _
      rw [UInt64.toNat_add, Nat.mod_eq_of_lt (by omega)]
      exact hgrown
  · intro other hother
    rcases hmodified other hother with hother | rfl
    · exact hview.quotaBytes other hother
    · exact hview.quotaBytes volume (List.mem_of_getElem? hvolume)
  · rw [hpool]
    refine hview.covers.take ?_ hcount
    rw [CheckpointView.pool, List.getElem?_map, hvolume, Option.map_some]

/-- An allocation within the projection is one that the pool admits. -/
theorem CheckpointView.Allocates.takes (h : view.Allocates after) :
    after.Projectable ∧ view.pool.Takes after.pool := by
  obtain ⟨projection, index, projected, count, hprojection, hprojected, hcount, rfl⟩ := h
  obtain ⟨hview, hexact⟩ := tryProject_eq_ok_iff.mp hprojection
  obtain ⟨hlt, rfl⟩ := List.getElem?_eq_some_iff.mp hprojected
  have hlength := hexact.volumes.length_eq
  have hvolume : view.volumes[index]? = some view.volumes[index] := List.getElem?_eq_getElem _
  have havailable := (hexact.volumes.get (hlength ▸ hlt) hlt).available
  have hwithin : count.toNat ≤ view.pool.available view.volumes[index].space.member :=
    (UInt64.le_iff_toNat_le.mp hcount).trans havailable.1.le
  obtain ⟨hfree, hgrown⟩ := available_bounds hview hvolume hwithin
  have hblocks := view.blockCount.toNat_lt
  refine ⟨hview.allocate hvolume hwithin, index, _, count.toNat, ?_, hwithin,
    pool_allocate hvolume hfree (by omega)⟩
  rw [CheckpointView.pool, List.getElem?_map, hvolume, Option.map_some]

/-- A run of allocations keeps a view that can be projected, and is a run of the pool. -/
theorem allocates_run (hview : view.Projectable)
    (hrun : Relation.ReflTransGen CheckpointView.Allocates view after) :
    after.Projectable ∧ Relation.ReflTransGen Pool.Takes view.pool after.pool := by
  induction hrun with
  | refl => exact ⟨hview, Relation.ReflTransGen.refl⟩
  | tail _ hlast ih => exact ⟨hlast.takes.1, ih.2.tail hlast.takes.2⟩

/-- The differences that the projection takes are those of natural numbers. -/
structure CheckpointView.Unwrapped (view : CheckpointView) : Prop where
  freeCount_le : view.device.freeCount ≤ view.blockCount
  unmet_le : ∀ volume ∈ view.volumes, volume.space.member.unmet ≤ view.pool.unmet
  siblings_le : ∀ volume ∈ view.volumes,
    view.pool.siblings volume.space.member ≤ view.device.freeCount.toNat

theorem CheckpointView.Projectable.unwrapped (h : view.Projectable) : view.Unwrapped where
  freeCount_le := UInt64.le_iff_toNat_le.mpr (Catalog.freeCount_le h.checkpoint)
  unmet_le := by
    intro volume hvolume
    obtain ⟨index, hindex⟩ := List.mem_iff_getElem?.mp
      (List.mem_map_of_mem hvolume : volume.space.member ∈ view.pool.members)
    exact SharedPool.unmet_le hindex
  siblings_le := fun _ _ => (Nat.sub_le _ _).trans h.covers

/-- **Allocations within the projection**, by any volumes in any order.  The projection succeeds
after each and says what the pool says; the free blocks cover the unmet reserves; and a volume gets
beyond its quota only if, and as far as, it was beyond it before. -/
theorem tryProject_run {projection : SharedSpaceProjection}
    (hprojection : tryProjectAppleSharedSpace view = .ok projection)
    (hrun : Relation.ReflTransGen CheckpointView.Allocates view after) :
    (∃ projected, tryProjectAppleSharedSpace after = .ok projected ∧ projected.Exact after) ∧
    Relation.ReflTransGen Pool.Takes view.pool after.pool ∧ after.Unwrapped ∧ after.pool.Covers ∧
    ∀ (index : ℕ) (volume grown : CheckpointVolume), view.volumes[index]? = some volume →
      after.volumes[index]? = some grown → volume.space.quotaBlockCount ≠ 0 →
        grown.space.allocatedBlockCount ≤
          max volume.space.quotaBlockCount volume.space.allocatedBlockCount := by
  obtain ⟨hview, -⟩ := tryProject_eq_ok_iff.mp hprojection
  obtain ⟨hafter, htakes⟩ := allocates_run hview hrun
  obtain ⟨hcovers, hgrows⟩ := takes_run htakes hview.covers
  refine ⟨hafter.exists_projection, htakes, hafter.unwrapped, hcovers, ?_⟩
  intro index volume grown hvolume hgrown hquota
  obtain ⟨member, hmember, hgrew⟩ := hgrows index volume.space.member
    (by rw [CheckpointView.pool, List.getElem?_map, hvolume, Option.map_some])
  rw [CheckpointView.pool, List.getElem?_map, hgrown, Option.map_some, Option.some.injEq]
    at hmember
  have hwithin := hgrew.within volume.space.quotaBlockCount.toNat (if_neg hquota)
  rw [← hmember] at hwithin
  rw [UInt64.le_iff_toNat_le, toNat_max]
  exact hwithin

/-- A container of a hundred blocks, of which half are free, with one volume. -/
def sampleSpaceView (allocated reserve quota : UInt64) : CheckpointView where
  uuidHex := "00112233445566778899aabbccddeeff"
  xid := 7
  blockSize := 4096
  blockCount := 100
  checkpointMapBlocks := [1]
  fsOids := [1026]
  spacemanOid := 1024
  spacemanObjectId := 1024
  spacemanXid := 7
  device := ⟨100, 1, 50, 1, 0⟩
  tier2 := ⟨0, 0, 0, 0, 0⟩
  volumes := [⟨1026, 7, 1026, 7, ⟨allocated, reserve, quota⟩⟩]

/-- Ten blocks for a volume that has a quota of thirty. -/
theorem tryProject_run_sample :
    ∃ view after : CheckpointView, view.Allocates after ∧ after.Unwrapped ∧ after.pool.Covers := by
  have hstep : CheckpointView.Allocates (sampleSpaceView 20 0 30)
      ((sampleSpaceView 20 0 30).allocate 0 10) :=
    ⟨_, 0, _, 10, rfl, rfl, by decide, rfl⟩
  have hprojection : tryProjectAppleSharedSpace (sampleSpaceView 20 0 30) = .ok _ := rfl
  have hrun := tryProject_run hprojection (Relation.ReflTransGen.single hstep)
  exact ⟨_, _, hstep, hrun.2.2.1, hrun.2.2.2.1⟩

/-- **A volume that is beyond its quota** is projected all the same, and nothing is available to
it. -/
theorem tryProject_beyond_quota :
    ¬∀ (view : CheckpointView) (projection : SharedSpaceProjection),
      tryProjectAppleSharedSpace view = .ok projection →
        ∀ after, Relation.ReflTransGen CheckpointView.Allocates view after →
          ∀ volume ∈ after.volumes, volume.space.quotaBlockCount ≠ 0 →
            volume.space.allocatedBlockCount ≤ volume.space.quotaBlockCount := by
  intro h
  have hprojection : tryProjectAppleSharedSpace (sampleSpaceView 20 0 10) = .ok _ := rfl
  exact absurd (h _ _ hprojection _ Relation.ReflTransGen.refl _ List.mem_cons_self (by decide))
    (by decide)

end Allocations

end Catalog
end ApfsAccess
