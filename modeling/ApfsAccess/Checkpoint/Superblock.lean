import ApfsAccess.Format.Object

/-!
# The container superblock

`ParseNxSuperblock` reads one block: the magic, the block size, the object checksum,
the geometry of the two checkpoint rings and the slots of the volumes.  The model
keeps every field the checkpoint code reads, and a block that is refused for any
reason is `none`, as in the source.
-/

namespace ApfsAccess
namespace Checkpoint

open ByteBuffer Format

/-- `kMaxFsOidSlots`. -/
def maxFsOidSlots : ℕ := 100

/-- `kNxSuperblockObjectType`. -/
def nxSuperblockObjectType : ℕ := 1

/-- `NxSuperblock`. -/
structure NxSuperblock where
  objectId : ℕ
  xid : ℕ
  blockSize : ℕ
  blockCount : ℕ
  features : ℕ
  readonlyFeatures : ℕ
  incompatibleFeatures : ℕ
  uuid : Bytes
  nextOid : ℕ
  nextXid : ℕ
  omapOid : ℕ
  spacemanOid : ℕ
  reaperOid : ℕ
  fsOids : List ℕ
  xpDescBlocksRaw : ℕ
  xpDataBlocksRaw : ℕ
  xpDescBlockCount : ℕ
  xpDataBlockCount : ℕ
  xpDescNoncontiguous : Bool
  xpDataNoncontiguous : Bool
  xpDescBaseBlock : ℕ
  xpDataBaseBlock : ℕ
  xpDescNext : ℕ
  xpDataNext : ℕ
  xpDescIndex : ℕ
  xpDescLen : ℕ
  xpDataIndex : ℕ
  xpDataLen : ℕ
  fusionUuid : Bytes
  fusionMiddleTreeOid : ℕ
  fusionWritebackOid : ℕ
  fusionWritebackStart : ℕ
  fusionWritebackBlocks : ℕ
  deriving DecidableEq, Repr

/-- The test of a block size: a power of two between one page and sixteen. -/
def blockSizeAdmitted (blockSize : ℕ) : Bool :=
  4096 ≤ blockSize && blockSize ≤ 65536 && blockSize &&& (blockSize - 1) == 0

/-- `ReadU32LE(...).value_or(0)`. -/
def u32At (block : Bytes) (offset : ℕ) : ℕ := (readU32LE block offset).getD 0

/-- `ReadU64LE(...).value_or(0)`. -/
def u64At (block : Bytes) (offset : ℕ) : ℕ := (readU64LE block offset).getD 0

/-- The oid in one `nx_fs_oid` slot. -/
def fsOidSlot (block : Bytes) (slot : ℕ) : ℕ := u64At block (0xB8 + slot * 8)

/-- The fields of a superblock, before its last checks. -/
def superblockFields (block : Bytes) : NxSuperblock where
  objectId := u64At block 0x08
  xid := u64At block 0x10
  blockSize := u32At block 0x24
  blockCount := u64At block 0x28
  features := u64At block 0x30
  readonlyFeatures := u64At block 0x38
  incompatibleFeatures := u64At block 0x40
  uuid := slice block 0x48 16
  nextOid := u64At block 0x58
  nextXid := u64At block 0x60
  omapOid := u64At block 0xA0
  spacemanOid := u64At block 0x98
  reaperOid := u64At block 0xA8
  fsOids := ((List.range maxFsOidSlots).map (fsOidSlot block)).filter (· ≠ 0)
  xpDescBlocksRaw := u32At block 0x68
  xpDataBlocksRaw := u32At block 0x6C
  xpDescBlockCount := u32At block 0x68 % 2 ^ 31
  xpDataBlockCount := u32At block 0x6C % 2 ^ 31
  xpDescNoncontiguous := 2 ^ 31 ≤ u32At block 0x68
  xpDataNoncontiguous := 2 ^ 31 ≤ u32At block 0x6C
  xpDescBaseBlock := u64At block 0x70
  xpDataBaseBlock := u64At block 0x78
  xpDescNext := u32At block 0x80
  xpDataNext := u32At block 0x84
  xpDescIndex := u32At block 0x88
  xpDescLen := u32At block 0x8C
  xpDataIndex := u32At block 0x90
  xpDataLen := u32At block 0x94
  fusionUuid := slice block 0x500 16
  fusionMiddleTreeOid := u64At block 0x548
  fusionWritebackOid := u64At block 0x550
  fusionWritebackStart := u64At block 0x558
  fusionWritebackBlocks := u64At block 0x560

/-- `ParseNxSuperblock`. -/
def parseNxSuperblock (block : Bytes) : Option NxSuperblock :=
  let out := superblockFields block
  if block.length < 0xC0 ∨ slice block 0x20 4 ≠ [0x4E, 0x58, 0x53, 0x42] then none
  else if blockSizeAdmitted out.blockSize = false ∨ block.length < out.blockSize then none
  else if verifyObjectChecksum block out.blockSize = false then none
  else if out.blockCount = 0 then none
  else if ∀ byte ∈ out.uuid, byte = 0 then none
  else if out.objectId ≠ 1 ∨ out.xid = 0 ∨
      u32At block 0x18 % 2 ^ 16 ≠ nxSuperblockObjectType then none
  else if out.omapOid = 0 then none
  else if out.xpDescBlockCount ≠ 0 ∧ out.xpDescBaseBlock = 0 then none
  else if out.xpDataBlockCount ≠ 0 ∧ out.xpDataBaseBlock = 0 then none
  else if u32At block 0xB4 = 0 ∨ maxFsOidSlots < u32At block 0xB4 then none
  -- a slot past the announced number of file systems must be empty
  else if ∃ slot ∈ List.range maxFsOidSlots,
      fsOidSlot block slot ≠ 0 ∧ u32At block 0xB4 ≤ slot then none
  else some out

end Checkpoint
end ApfsAccess
