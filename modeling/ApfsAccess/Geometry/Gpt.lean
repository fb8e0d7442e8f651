import ApfsAccess.Geometry.PhysicalPolicy
import ApfsAccess.Library.Sorting
import ApfsAccess.Library.Storage

/-!
# The partition table of a resized volume

`Build` takes what was read of a disk's partition table and plans the four sector writes
that move the end of one partition; `Verify` compares a disk with a plan, and `Publish`
carries the plan out.  `crc32` is zlib's, a parameter here.

Every read of a number or an identifier stands behind a check of the length of what is
read, so the reads are total.  Sizes and offsets are below `2 ^ 63` by the policy, so no
product or sum of the source wraps.
-/

namespace ApfsAccess
namespace Geometry

open Format ByteBuffer Storage

/-! ## Reading and writing fields -/

/-- `N`. -/
def readN (bytes : Bytes) (offset : ℕ) : ℕ := leValue (slice bytes offset 8)

/-- `D`. -/
def readD (bytes : Bytes) (offset : ℕ) : ℕ := leValue (slice bytes offset 4)

/-- `Zero`. -/
def zero (bytes : Bytes) : Bool := bytes.all (· == 0)

/-- The order in which `Guid` takes the bytes. -/
def guidOrder : List ℕ := [3, 2, 1, 0, 5, 4, 7, 6, 8, 9, 10, 11, 12, 13, 14, 15]

/-- `Guid`. -/
def guid (bytes : Bytes) (offset : ℕ) : Guid :=
  fun i => (bytes[offset + guidOrder.getD i 0]?).getD 0

/-- `Zero` of an identifier. -/
def zeroGuid (g : Guid) : Prop := ∀ i, g i = 0

instance (g : Guid) : Decidable (zeroGuid g) := by
  unfold zeroGuid
  infer_instance

/-- The identifier of the type of APFS partitions. -/
def apfsType : Guid := fun i =>
  [0x7c, 0x34, 0x57, 0xef, 0, 0, 0x11, 0xaa, 0xaa, 0x11, 0, 0x30, 0x65, 0x43, 0xec, 0xac].getD i 0

/-- `Profile`. -/
inductive Profile where
  | legacyPartition
  | partition
  | containerWindow
  deriving DecidableEq, Repr

/-- `volume_physical::Envelope`. -/
structure Envelope where
  binding : RawSnapshotBinding
  inst : List UInt16

/-- `Snapshot`. -/
structure Snapshot where
  original : Envelope
  targetBytes : ℕ
  mbr : Bytes
  primaryHeader : Bytes
  backupHeader : Bytes
  primaryArray : Bytes
  backupArray : Bytes
  profile : Profile

/-- The media of the binding. -/
def Snapshot.media (s : Snapshot) : RawSnapshotMediaBinding := s.original.binding.media

/-- The sector size. -/
def Snapshot.sector (s : Snapshot) : ℕ := s.media.logicalSectorBytes

/-- The last sector of the disk. -/
def Snapshot.diskLast (s : Snapshot) : ℕ := s.media.diskSizeBytes / s.sector - 1

/-- `Write`. -/
structure Write where
  offset : ℕ
  before : Bytes
  after : Bytes
  deriving DecidableEq, Repr

/-- `Plan`. -/
structure Plan where
  snapshot : Snapshot
  after : RawSnapshotBinding
  writes : List Write

/-- `Header`. -/
structure Header where
  first : ℕ
  last : ℕ
  arrayLba : ℕ
  count : ℕ
  entryBytes : ℕ
  deriving DecidableEq, Repr

variable (crc32 : Bytes → UInt32)

/-- `HeaderOf`. -/
def headerOf (bytes : Bytes) (here other : ℕ) (binding : RawSnapshotBinding) :
    Except String Header := do
  need (bytes.length = binding.media.logicalSectorBytes ∧ readN bytes 0 = 0x5452415020494645 ∧
      readD bytes 8 = 0x10000 ∧ readD bytes 12 = 92 ∧ readD bytes 20 = 0 ∧
      readN bytes 24 = here ∧ readN bytes 32 = other ∧ guid bytes 56 = binding.media.diskGuid)
    "VolumeGptHeaderProfileInvalid"
  need ((crc32 (putLE 4 (bytes.take 92) 16 0)).toNat = readD bytes 16)
    "VolumeGptHeaderChecksumInvalid"
  let result : Header :=
    { first := readN bytes 40
      last := readN bytes 48
      arrayLba := readN bytes 72
      count := readD bytes 80
      entryBytes := readD bytes 84 }
  need (result.first ≤ result.last ∧ 128 ≤ result.count ∧ result.count ≤ 4096 ∧
      result.entryBytes = 128)
    "VolumeGptArrayProfileInvalid"
  return result

/-- `ValidHeader`. -/
def validHeader (bytes : Bytes) : Bool :=
  if bytes.length < 92 || readN bytes 0 != 0x5452415020494645 || readD bytes 12 < 92 ||
      bytes.length < readD bytes 12 then false
  else (crc32 (putLE 4 (bytes.take (readD bytes 12)) 16 0)).toNat == readD bytes 16

/-- `HeaderChecksum`: the checksum of the first `count` bytes of the array, then that of
the header with its own field cleared. -/
def headerChecksum (header array : Bytes) (count : ℕ) : Bytes :=
  let header := putLE 4 header 88 (crc32 (array.take count)).toNat
  let header := putLE 4 header 16 0
  putLE 4 header 16 (crc32 (header.take 92)).toNat

/-! ## Build -/

/-- An entry of the array. -/
def entryOf (array : Bytes) (i : ℕ) : Bytes := slice array (i * 128) 128

/-- What the loop over the entries collects. -/
structure Census where
  ids : List Guid := []
  ranges : List (ℕ × ℕ) := []
  originals : List (ℕ × ℕ) := []
  selected : Option ℕ := none

/-- The body of the loop over the entries. -/
def censusStep (media : RawSnapshotMediaBinding) (window : Bool) (newLast : ℕ) (primary : Header)
    (array : Bytes) (census : Census) (i : ℕ) : Except String Census :=
  let entry := entryOf array i
  let type := guid entry 0
  let id := guid entry 16
  if zeroGuid type then do
    need (zero entry = true) "VolumeGptUnusedEntryNotEmpty"
    return census
  else do
    let first := readN entry 32
    let last := readN entry 40
    need (¬ zeroGuid id ∧ id ∉ census.ids ∧ primary.first ≤ first ∧ first ≤ last ∧
      last ≤ primary.last) "VolumeGptPartitionCensusInvalid"
    if id = media.partitionGuid then do
      need (census.selected = none ∧ type = apfsType ∧
          first * media.logicalSectorBytes = media.baseOffsetBytes ∧
          (last - first + 1) * media.logicalSectorBytes = media.partitionLengthBytes)
        "VolumeGptSelectedPartitionMismatch"
      return { ids := id :: census.ids
               ranges := census.ranges ++ [(first, if window then last else newLast)]
               originals := census.originals ++ [(first, last)]
               selected := some i }
    else
      return { census with
               ids := id :: census.ids
               ranges := census.ranges ++ [(first, last)]
               originals := census.originals ++ [(first, last)] }

/-- The order of `std::pair`. -/
def rangeLe (a b : ℕ × ℕ) : Bool := a.1 < b.1 || (a.1 == b.1 && a.2 ≤ b.2)

/-- Every range ends before the next one starts. -/
def neighborsApart : List (ℕ × ℕ) → Bool
  | [] => true
  | [_] => true
  | a :: b :: ranges => a.2 < b.1 && neighborsApart (b :: ranges)

/-- The lambda `add_array`: a write for each sector that changes. -/
def addArray (sector : ℕ) (old next : Bytes) (lba : ℕ) : List Write :=
  (List.range (old.length / sector)).filterMap fun k =>
    if slice old (k * sector) sector = slice next (k * sector) sector then none
    else some { offset := lba * sector + k * sector
                before := slice old (k * sector) sector
                after := slice next (k * sector) sector }

/-- The end of the selected partition after the resize. -/
def Snapshot.newLast (s : Snapshot) : ℕ :=
  s.media.baseOffsetBytes / s.sector + s.targetBytes / s.sector - 1

/-- The binding after the resize. -/
def Snapshot.after (s : Snapshot) : RawSnapshotBinding :=
  { s.original.binding with
    media := { s.media with
      limitBytes := s.targetBytes
      partitionLengthBytes :=
        if s.profile = .containerWindow then s.media.partitionLengthBytes else s.targetBytes } }

/-- The four writes of a partition profile. -/
def Snapshot.writes (s : Snapshot) (primary backup : Header) (selected : ℕ) : List Write :=
  let arrayBytes := primary.count * primary.entryBytes
  let primaryArray := putU64 s.primaryArray (selected * 128 + 40) s.newLast
  let backupArray := putU64 s.backupArray (selected * 128 + 40) s.newLast
  addArray s.sector s.backupArray backupArray backup.arrayLba ++
    [{ offset := s.diskLast * s.sector
       before := s.backupHeader
       after := headerChecksum crc32 s.backupHeader backupArray arrayBytes }] ++
    addArray s.sector s.primaryArray primaryArray primary.arrayLba ++
    [{ offset := s.sector
       before := s.primaryHeader
       after := headerChecksum crc32 s.primaryHeader primaryArray arrayBytes }]

/-- `Build`.  The profile has no value outside the three that the source lists. -/
def build (s : Snapshot) : Except String Plan := do
  let media := s.media
  let sector := s.sector
  let window := decide (s.profile = .containerWindow)
  need (validateVolumePhysicalPolicy s.original.binding s.original.inst = .ok () ∧
      (if window then media.limitBytes ≤ media.partitionLengthBytes ∧
          s.targetBytes ≤ media.partitionLengthBytes
        else media.limitBytes = media.partitionLengthBytes) ∧
      1048576 ≤ s.targetBytes ∧ s.targetBytes % 4096 = 0 ∧ s.targetBytes ≠ media.limitBytes ∧
      s.targetBytes ≤ media.diskSizeBytes - media.baseOffsetBytes)
    "VolumeGptResizeScopeInvalid"
  let primary ← headerOf crc32 s.primaryHeader 1 s.diskLast s.original.binding
  let backup ← headerOf crc32 s.backupHeader s.diskLast 1 s.original.binding
  need (primary.first = backup.first ∧ primary.last = backup.last ∧
      primary.count = backup.count ∧ primary.entryBytes = backup.entryBytes ∧
      2 ≤ primary.first ∧ primary.last < s.diskLast)
    "VolumeGptCopiesDisagree"
  let arrayBytes := primary.count * primary.entryBytes
  let arraySectors := (arrayBytes + sector - 1) / sector
  need (2 ≤ primary.arrayLba ∧ primary.arrayLba < primary.first ∧
      arraySectors ≤ primary.first - primary.arrayLba ∧
      primary.last < backup.arrayLba ∧ backup.arrayLba < s.diskLast ∧
      arraySectors ≤ s.diskLast - backup.arrayLba ∧
      s.primaryArray.length = arraySectors * sector ∧
      s.backupArray.length = arraySectors * sector ∧
      s.primaryArray.take arrayBytes = s.backupArray.take arrayBytes ∧
      (crc32 (s.primaryArray.take arrayBytes)).toNat = readD s.primaryHeader 88 ∧
      (crc32 (s.backupArray.take arrayBytes)).toNat = readD s.backupHeader 88)
    "VolumeGptArrayInvalid"
  need (s.mbr.length = sector ∧ 512 ≤ s.mbr.length ∧ s.mbr[510]? = some 0x55 ∧
      s.mbr[511]? = some 0xaa ∧ s.mbr[446]? = some 0 ∧ s.mbr[450]? = some 0xee ∧
      readD s.mbr 454 = 1 ∧ readD s.mbr 458 = min s.diskLast (2 ^ 32 - 1) ∧
      zero (slice s.mbr 462 48) = true)
    "VolumeGptProtectiveMbrRequired"
  need (s.newLast ≤ primary.last) "VolumeGptTargetBeyondUsableSpace"
  let census ← (List.range primary.count).foldlM
    (censusStep media window s.newLast primary s.primaryArray) {}
  need (census.selected.isSome = true) "VolumeGptSelectedPartitionMissing"
  need (neighborsApart (Sorting.sortBy census.originals rangeLe) = true)
    "VolumeGptOriginalPartitionsOverlap"
  need (neighborsApart (Sorting.sortBy census.ranges rangeLe) = true)
    "VolumeGptNeighborWouldBeOverwritten"
  need (validateVolumePhysicalPolicy s.after s.original.inst = .ok ())
    "VolumeGptTargetBindingInvalid"
  let writes := if window then [] else s.writes crc32 primary backup (census.selected.getD 0)
  need (window = true ∨ writes.length = 4) "VolumeGptExpectedFourSectorWrites"
  return { snapshot := s, after := s.after, writes := writes }

/-! ## Verify and Publish -/

/-- The comparison of one sector in `Verify`. -/
def checkSector (plan : Plan) (state offset : ℕ) (before block : Bytes) : Except String Unit :=
  match plan.writes.find? fun w => w.offset == offset with
  | none => need (block = before) "VolumeGptOriginalOrNeighborChanged"
  | some write =>
    if state = 0 ∨ state = 1 ∨ state = 4 then
      need (block = before) "VolumeGptOriginalOrNeighborChanged"
    else if state = 3 then need (block = write.after) "VolumeGptFinalBytesChanged"
    else need (block = write.before ∨ block = write.after ∨ validHeader crc32 block = false)
      "VolumeGptForeignValidHeader"

/-- The lambda `check`: a range of the disk, sector by sector. -/
def checkRange (disk : Disk UInt8) (plan : Plan) (state offset : ℕ) (before : Bytes) :
    Except String Unit :=
  let sector := plan.snapshot.sector
  match disk.read offset before.length with
  | none => .error "VolumeGptReadFailed"
  | some current =>
    (List.range (before.length / sector)).forM fun k =>
      checkSector crc32 plan state (offset + k * sector) (slice before (k * sector) sector)
        (slice current (k * sector) sector)

/-- `Verify`. -/
def verify (disk : Disk UInt8) (plan : Plan) (state : ℕ) : Except String Unit := do
  let s := plan.snapshot
  need (disk.sizeBytes = s.media.diskSizeBytes ∧ state ≤ 4) "VolumeGptVerificationScope"
  checkRange crc32 disk plan state 0 s.mbr
  checkRange crc32 disk plan state s.sector s.primaryHeader
  checkRange crc32 disk plan state (s.diskLast * s.sector) s.backupHeader
  checkRange crc32 disk plan state (readN s.primaryHeader 72 * s.sector) s.primaryArray
  checkRange crc32 disk plan state (readN s.backupHeader 72 * s.sector) s.backupArray

/-- What may end `Publish` early: a crash, or one of the callbacks refusing. -/
inductive Stop where
  | crash
  | writeFailed
  | interrupted
  | flushFailed
  deriving DecidableEq, Repr

/-- The error that is thrown; a crash throws nothing. -/
def Stop.error : Stop → Option String
  | .crash => none
  | .writeFailed => some "VolumeGptWriteFailed"
  | .interrupted => some "VolumeGptInterrupted"
  | .flushFailed => some "VolumeGptFlushFailed"

/-- A stop in the write after `completed` flushed ones.  The sector of that write is left
with any content at all. -/
structure Course where
  completed : ℕ
  stop : Stop
  content : ℕ → UInt8

/-- How `Publish` ends. -/
inductive Outcome where
  | published (disk : Disk UInt8)
  | refused (error : String) (disk : Disk UInt8)
  | stopped (error : Option String) (disk : Disk UInt8)

/-- The loop of `Publish` over the writes. -/
def publishLoop (plan : Plan) : List Write → Disk UInt8 → Option Course → Outcome
  | [], disk, some ⟨0, stop, _⟩ => .stopped stop.error disk
  | [], disk, _ =>
    match verify crc32 disk plan 3 with
    | .error error => .refused error disk
    | .ok () => .published disk
  | w :: _, disk, some ⟨0, stop, content⟩ =>
    .stopped stop.error (disk.write w.offset ((List.range w.after.length).map content))
  | w :: writes, disk, course =>
    let disk := disk.write w.offset w.after
    match disk.read w.offset w.after.length with
    | none => .refused "VolumeGptReadFailed" disk
    | some bytes =>
      if bytes = w.after then
        publishLoop plan writes disk
          (course.map fun c => { c with completed := c.completed - 1 })
      else .refused "VolumeGptReadbackFailed" disk

/-- `Publish`. -/
def publish (plan : Plan) (disk : Disk UInt8) (course : Option Course) : Outcome :=
  match verify crc32 disk plan 2 with
  | .error error => .refused error disk
  | .ok () => publishLoop crc32 plan plan.writes disk course

end Geometry
end ApfsAccess
