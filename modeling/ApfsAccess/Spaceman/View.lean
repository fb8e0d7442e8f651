import ApfsAccess.Format.Object

/-!
# The space manager in memory

What `ApfsFormat.h` keeps of a space manager that the rotation of the bitmaps and the queues of
deferred frees work on: the internal pool with its rotating bitmaps, the entries of the queues, and
the blocks that a plan writes.  Counters and addresses are natural numbers; where the source compares
with the largest `uint64_t` so do the functions here.
-/

namespace ApfsAccess
namespace Spaceman

open Format

/-- The largest value of `uint64_t`. -/
def uint64Max : ℕ := 2 ^ 64 - 1

/-- `AppleSpacemanFreeQueueEntry`. -/
structure FreeQueueEntry where
  xid : ℕ
  physicalBlock : ℕ
  blockCount : ℕ
  deriving DecidableEq, Repr

/-- `AppleSpacemanInternalPoolBitmapView`. -/
structure InternalPoolBitmapView where
  xid : ℕ
  physicalBlock : ℕ
  rotationIndex : ℕ
  bytes : Bytes
  deriving DecidableEq, Repr

/-- `AppleSpacemanInternalPoolView`. -/
structure InternalPoolView where
  blockCount : ℕ
  bitmapBlockCount : ℕ
  bitmapBaseBlock : ℕ
  baseBlock : ℕ
  bitmapFreeHead : ℕ
  bitmapFreeTail : ℕ
  bitmapXidOffset : ℕ
  bitmapIndexOffset : ℕ
  bitmapFreeNextOffset : ℕ
  bitmapFreeNext : List ℕ
  activeBitmaps : List InternalPoolBitmapView
  deriving DecidableEq, Repr

/-- `AppleSpacemanDeferredFree`. -/
structure DeferredFree where
  queueIndex : ℕ
  physicalBlock : ℕ
  blockCount : ℕ
  deriving DecidableEq, Repr

/-- `AppleSpacemanWriteKind`. -/
inductive WriteKind
  | chunkBitmap
  | chunkInfoBlock
  | chunkInfoAddressBlock
  | freeQueueTree
  | internalPoolBitmap
  deriving DecidableEq, Repr

/-- `AppleSpacemanPlannedWrite`. -/
structure PlannedWrite where
  kind : WriteKind
  physicalBlock : ℕ
  objectLocation : Option AppleObjectLocation
  bytes : Bytes
  deriving DecidableEq, Repr

end Spaceman
end ApfsAccess
