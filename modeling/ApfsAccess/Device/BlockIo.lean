import ApfsAccess.Library.WriteLists
import ApfsAccess.Format.Codec

/-!
# One write to a block device

The bottom of the device layer: the calls to the operating system, the range a raw writer
was admitted to, and `WriteLocked`, which widens a write to whole logical blocks by
reading, changing and writing back a window.

What a call to the system does is not known: it may complete, be refused, or break off and
leave anything in the range it was asked to write.  `Os` holds those answers, one for each
call, and every statement is for all of them.  A call that completes stores exactly its
bytes, and a read that completes returns exactly the bytes of the disk.

* `writeLocked_eq_true` : a write that succeeded is the plain store of its bytes.
* `Confined` : nothing outside the admitted range was handed to the system or changed.
-/

namespace ApfsAccess
namespace Device

open Format ByteBuffer Storage

/-- The largest value of a `DWORD`. -/
def dwordMax : ℕ := 2 ^ 32 - 1

/-- The largest value of a `std::uint64_t`. -/
def uint64Max : ℕ := 2 ^ 64 - 1

/-- The modes of `APFSACCESS_RW_FAULT_WRITE`, which make a write fail on purpose. -/
inductive FaultMode where
  | fail
  | zeroBytes
  | firstSector
  | firstHalf
  | allExceptLastSector
  | corruptOneByte
  | other
  deriving DecidableEq, Repr

/-- What a device is set up with.  `LogicalBlockSize` is never below 512 and
`AsyncBlockIoQueueDepth` is between one and sixteen. -/
structure Config where
  baseOffsetBytes : ℕ
  rawWriterAccepted : Bool
  rawWriteLimitBytes : ℕ
  logicalBlockSize : ℕ
  stableReadOnlyImage : Bool
  asyncBlockIoEnabled : Bool
  asyncQueueDepth : ℕ
  failAfterIssues : Option ℕ
  faultMode : Option FaultMode
  logicalBlockSize_ge : 512 ≤ logicalBlockSize
  asyncQueueDepth_pos : 0 < asyncQueueDepth
  asyncQueueDepth_le : asyncQueueDepth ≤ 16

/-- `AlignDown`. -/
def alignDown (value alignment : ℕ) : ℕ :=
  if alignment = 0 then value else value - value % alignment

/-- `AlignUp`; zero when the result does not fit. -/
def alignUp (value alignment : ℕ) : ℕ :=
  if alignment = 0 then value
  else if value = 0 then 0
  else if uint64Max - (alignment - 1) < value then 0
  else alignDown (value + alignment - 1) alignment

/-- `RawWriteRangeAllowed`. -/
def rawWriteRangeAllowed (limitBytes offsetBytes sizeBytes : ℕ) : Bool :=
  !(limitBytes == 0 || limitBytes < sizeBytes || limitBytes - sizeBytes < offsetBytes)

/-- `RawWriteSpanAllowed`. -/
def rawWriteSpanAllowed (config : Config) (absoluteOffsetBytes sizeBytes : ℕ) : Bool :=
  if config.rawWriterAccepted = false then true
  else if absoluteOffsetBytes < config.baseOffsetBytes then false
  else rawWriteRangeAllowed config.rawWriteLimitBytes
    (absoluteOffsetBytes - config.baseOffsetBytes) sizeBytes

/-! ## Calls to the system -/

/-- What a call to the system does: it completes; it breaks off or falls short, and leaves
something in the range of a write; or it is refused before it starts. -/
inductive Outcome where
  | completed
  | broken (left : Disk UInt8)
  | refused

/-- A write that was handed to the system, with what becomes of it. -/
structure Landing where
  offset : ℕ
  bytes : Bytes
  outcome : Outcome

/-- The answers of the system, one for each call, and the order in which the writes of a
window land. -/
structure Os where
  outcome : ℕ → Outcome
  landingOrder : ℕ → List Landing → List Landing
  landingOrder_perm : ∀ call landings, (landingOrder call landings).Perm landings

/-- What others can see of a write while it runs: a range of the read cache is invalidated, or a
write lands and the disk is now the one given. -/
inductive DeviceEvent where
  | invalidated (offset size : ℕ)
  | landed (offset size : ℕ) (disk : Disk UInt8)

/-- The state a batch works on: the disk, the number of calls so far, the ranges handed to the
system for writing, what others have seen so far, and the scratch area for merged spans. -/
structure Io where
  disk : Disk UInt8
  calls : ℕ
  stores : List (ℕ × ℕ)
  trace : List DeviceEvent
  mergedBatchScratch : Bytes

/-- A write that broke off left something in its range. -/
def scribble (disk : Disk UInt8) (offset size : ℕ) (left : Disk UInt8) : Disk UInt8 where
  sizeBytes := left.sizeBytes
  byte x := if offset ≤ x ∧ x < offset + size then left.byte x else disk.byte x

/-- What a write leaves on the disk. -/
def Landing.land (disk : Disk UInt8) (landing : Landing) : Disk UInt8 :=
  match landing.outcome with
  | .completed => disk.store landing.offset landing.bytes
  | .broken left => scribble disk landing.offset landing.bytes.length left
  | .refused => disk

/-- A call that gives no bytes and stores none: a probe, a handle, an event. -/
def callSystem (os : Os) (io : Io) : Bool × Io :=
  (match os.outcome io.calls with
    | .completed => true
    | _ => false,
    { io with calls := io.calls + 1 })

/-- `ReadAt`, where the caller asks for every byte. -/
def readAt (os : Os) (offset size : ℕ) (io : Io) : Option Bytes × Io :=
  (match os.outcome io.calls with
    | .completed => io.disk.read offset size
    | _ => none,
    { io with calls := io.calls + 1 })

/-- The issue of one write to the system. -/
def issueWrite (os : Os) (offset : ℕ) (bytes : Bytes) (io : Io) : Landing × Io :=
  (⟨offset, bytes, os.outcome io.calls⟩,
    { io with calls := io.calls + 1, stores := (offset, bytes.length) :: io.stores })

/-- `WriteAt`. -/
def writeAt (config : Config) (os : Os) (offset : ℕ) (bytes : Bytes) (io : Io) : Bool × Io :=
  if rawWriteSpanAllowed config offset bytes.length = false then (false, io)
  else
    let issued := issueWrite os offset bytes io
    (match issued.1.outcome with
      | .completed => true
      | _ => false,
      { issued.2 with
        disk := issued.1.land issued.2.disk
        trace := issued.2.trace ++
          [.landed offset bytes.length (issued.1.land issued.2.disk)] })

/-! ## `WriteLocked` -/

/-- The bytes a faulty write hands to the system. -/
def faultyBytes (mode : FaultMode) (blockSize : ℕ) (bytes : Bytes) : Bytes :=
  match mode with
  | .firstSector => bytes.take (min bytes.length blockSize)
  | .firstHalf => bytes.take (max 1 (bytes.length / 2))
  | .allExceptLastSector =>
    if bytes.length ≤ blockSize then [] else bytes.take (bytes.length - blockSize)
  | .corruptOneByte =>
    match bytes with
    | [] => []
    | first :: rest => (first ^^^ 0xff) :: rest
  | _ => []

/-- The end of `WriteLocked` in a fault mode; it never succeeds. -/
def writeFaulty (config : Config) (os : Os) (mode : FaultMode) (alignedOffset : ℕ) (bytes : Bytes)
    (io : Io) : Bool × Io :=
  let faulty := faultyBytes mode config.logicalBlockSize bytes
  if faulty = [] then (false, io) else (false, (writeAt config os alignedOffset faulty io).2)

/-- The aligned window of a write: read, with the bytes put in. -/
def readWindow (os : Os) (alignedOffset prefixBytes alignedSize : ℕ) (buffer : Bytes) (io : Io) :
    Option Bytes × Io :=
  let window := readAt os alignedOffset alignedSize io
  (window.1.map fun bytes => splice bytes prefixBytes buffer, window.2)

/-- `WriteLocked`. -/
def writeLocked (config : Config) (os : Os) (faultMode : Option FaultMode)
    (absoluteOffsetBytes : ℕ) (buffer : Bytes) (io : Io) : Bool × Io :=
  if buffer = [] then (true, io)
  else if dwordMax < buffer.length then (false, io)
  else if faultMode = some .fail then (false, io)
  else
    let alignedOffset := alignDown absoluteOffsetBytes config.logicalBlockSize
    let prefixBytes := absoluteOffsetBytes - alignedOffset
    let alignedSize := alignUp (prefixBytes + buffer.length) config.logicalBlockSize
    if alignedSize = 0 ∨ dwordMax < alignedSize then (false, io)
    else if rawWriteSpanAllowed config alignedOffset alignedSize = false then (false, io)
    else if prefixBytes = 0 ∧ buffer.length = alignedSize then
      match faultMode with
      | none => writeAt config os alignedOffset buffer io
      | some mode => writeFaulty config os mode alignedOffset buffer io
    else if faultMode = some .zeroBytes ∨ faultMode = some .other then (false, io)
    else
      match readWindow os alignedOffset prefixBytes alignedSize buffer io with
      | (none, io) => (false, io)
      | (some window, io) =>
        match faultMode with
        | none => writeAt config os alignedOffset window io
        | some mode => writeFaulty config os mode alignedOffset window io

/-! ## Alignment -/

theorem alignDown_le (value alignment : ℕ) : alignDown value alignment ≤ value := by
  unfold alignDown
  split
  · exact le_refl _
  · exact Nat.sub_le _ _

/-- An alignment that fits covers the value. -/
theorem le_alignUp {value alignment : ℕ} (h : alignUp value alignment ≠ 0) :
    value ≤ alignUp value alignment := by
  unfold alignUp alignDown at *
  split at h
  · rw [if_pos ‹_›]
  · rename_i hne
    split at h
    · exact absurd rfl h
    · split at h
      · exact absurd rfl h
      · rw [if_neg hne, if_neg ‹_›, if_neg ‹_›, if_neg hne]
        have hmod := Nat.mod_lt (value + alignment - 1) (Nat.pos_of_ne_zero hne)
        omega

/-! ## What a call can change -/

/-- **Nothing outside the admitted range**: from one state to the next, every range handed to the
system for writing lies in the range a raw writer was admitted to, and no byte outside that
range has changed. -/
def Confined (config : Config) (before after : Io) : Prop :=
  config.rawWriterAccepted = true →
    (∀ range ∈ after.stores, range ∈ before.stores ∨ config.baseOffsetBytes ≤ range.1 ∧
      range.1 + range.2 ≤ config.baseOffsetBytes + config.rawWriteLimitBytes) ∧
    ∀ x, x < config.baseOffsetBytes ∨ config.baseOffsetBytes + config.rawWriteLimitBytes ≤ x →
      after.disk.byte x = before.disk.byte x

namespace Confined

variable {config : Config} {first second third : Io}

theorem refl (config : Config) (io : Io) : Confined config io io :=
  fun _ => ⟨fun _ hmem => .inl hmem, fun _ _ => rfl⟩

theorem trans (h : Confined config first second) (h' : Confined config second third) :
    Confined config first third := by
  intro haccepted
  obtain ⟨hstores, hbytes⟩ := h haccepted
  obtain ⟨hstores', hbytes'⟩ := h' haccepted
  refine ⟨fun range hmem => ?_, fun x hx => (hbytes' x hx).trans (hbytes x hx)⟩
  rcases hstores' range hmem with hold | hinside
  · exact hstores range hold
  · exact .inr hinside

/-- A change of the call counter or the scratch area touches no disk. -/
theorem of_same (hdisk : second.disk = first.disk) (hstores : second.stores = first.stores) :
    Confined config first second :=
  fun _ => ⟨fun _ hmem => .inl (hstores ▸ hmem), fun _ _ => by rw [hdisk]⟩

end Confined

section Calls

variable {config : Config} {os : Os} {io : Io}

/-- An allowed span of a raw writer lies in its range. -/
theorem within_of_rawWriteSpanAllowed {offset size : ℕ}
    (h : rawWriteSpanAllowed config offset size = true)
    (haccepted : config.rawWriterAccepted = true) :
    config.baseOffsetBytes ≤ offset ∧
      offset + size ≤ config.baseOffsetBytes + config.rawWriteLimitBytes := by
  unfold rawWriteSpanAllowed at h
  rw [if_neg (by rw [haccepted]; decide)] at h
  split at h
  · cases h
  · rename_i hbase
    simp only [rawWriteRangeAllowed, Bool.not_eq_true', Bool.or_eq_false_iff, beq_eq_false_iff_ne,
      decide_eq_false_iff_not] at h
    omega

/-- A landing changes its own range only. -/
theorem byte_land_of_apart {disk : Disk UInt8} {landing : Landing} {x : ℕ}
    (h : x < landing.offset ∨ landing.offset + landing.bytes.length ≤ x) :
    (landing.land disk).byte x = disk.byte x := by
  unfold Landing.land
  split
  · exact Disk.byte_store_of_apart h
  · exact if_neg (by omega)
  · rfl

theorem callSystem_disk : (callSystem os io).2.disk = io.disk := rfl

theorem callSystem_confined : Confined config io (callSystem os io).2 :=
  Confined.of_same rfl rfl

theorem readAt_confined {offset size : ℕ} : Confined config io (readAt os offset size io).2 :=
  Confined.of_same rfl rfl

/-- A read that gave bytes gave those of the disk. -/
theorem readAt_eq_some {offset size : ℕ} {bytes : Bytes}
    (h : (readAt os offset size io).1 = some bytes) :
    offset + size ≤ io.disk.sizeBytes ∧ bytes = io.disk.contents offset size := by
  unfold readAt at h
  simp only at h
  split at h
  · unfold Disk.read at h
    split at h
    · exact ⟨‹_›, (Option.some.inj h).symm⟩
    · cases h
  · cases h

theorem writeAt_confined {offset : ℕ} {bytes : Bytes} :
    Confined config io (writeAt config os offset bytes io).2 := by
  unfold writeAt
  split
  · exact Confined.refl config io
  · rename_i hallowed
    rw [Bool.not_eq_false] at hallowed
    intro haccepted
    obtain ⟨hlow, hhigh⟩ := within_of_rawWriteSpanAllowed hallowed haccepted
    refine ⟨fun range hmem => ?_, fun x hx => ?_⟩
    · rcases List.mem_cons.mp hmem with rfl | hold
      · exact .inr ⟨hlow, hhigh⟩
      · exact .inl hold
    · exact byte_land_of_apart (by simp only [issueWrite]; omega)

/-- **A write that succeeded is stored.** -/
theorem writeAt_eq_true {offset : ℕ} {bytes : Bytes}
    (h : (writeAt config os offset bytes io).1 = true) :
    (writeAt config os offset bytes io).2.disk = io.disk.store offset bytes := by
  unfold writeAt at h ⊢
  split at h
  · cases h
  · rename_i hallowed
    rw [if_neg hallowed]
    simp only at h ⊢
    split at h
    · rename_i houtcome
      unfold Landing.land
      rw [houtcome]
      rfl
    · cases h

theorem writeFaulty_confined {mode : FaultMode} {offset : ℕ} {bytes : Bytes} :
    Confined config io (writeFaulty config os mode offset bytes io).2 := by
  unfold writeFaulty
  simp only
  split
  · exact Confined.refl config io
  · exact writeAt_confined

theorem writeFaulty_fst {mode : FaultMode} {offset : ℕ} {bytes : Bytes} :
    (writeFaulty config os mode offset bytes io).1 = false := by
  unfold writeFaulty
  simp only
  split <;> rfl

/-- What reading a window gives: nothing, or the window of the disk with the bytes put in. -/
theorem readWindow_spec {alignedOffset prefixBytes alignedSize : ℕ} {buffer : Bytes}
    {window : Option Bytes} {after : Io}
    (h : readWindow os alignedOffset prefixBytes alignedSize buffer io = (window, after)) :
    after.disk = io.disk ∧ after.stores = io.stores ∧
      ∀ bytes, window = some bytes → alignedOffset + alignedSize ≤ io.disk.sizeBytes ∧
        bytes = splice (io.disk.contents alignedOffset alignedSize) prefixBytes buffer := by
  unfold readWindow at h
  simp only [Prod.mk.injEq] at h
  obtain ⟨rfl, rfl⟩ := h
  refine ⟨rfl, rfl, fun bytes hbytes => ?_⟩
  obtain ⟨read, hread, rfl⟩ := Option.map_eq_some_iff.mp hbytes
  obtain ⟨hsize, rfl⟩ := readAt_eq_some hread
  exact ⟨hsize, rfl⟩

/-- **`WriteLocked` stays in the admitted range.** -/
theorem writeLocked_confined {faultMode : Option FaultMode} {offset : ℕ} {buffer : Bytes} :
    Confined config io (writeLocked config os faultMode offset buffer io).2 := by
  unfold writeLocked
  split
  · exact Confined.refl config io
  split
  · exact Confined.refl config io
  split
  · exact Confined.refl config io
  simp only
  split
  · exact Confined.refl config io
  split
  · exact Confined.refl config io
  split
  · split
    · exact writeAt_confined
    · exact writeFaulty_confined
  split
  · exact Confined.refl config io
  split
  · rename_i hwindow
    obtain ⟨hdisk, hstores, -⟩ := readWindow_spec hwindow
    exact Confined.of_same hdisk hstores
  · rename_i hwindow
    obtain ⟨hdisk, hstores, -⟩ := readWindow_spec hwindow
    split
    · exact (Confined.of_same hdisk hstores).trans writeAt_confined
    · exact (Confined.of_same hdisk hstores).trans writeFaulty_confined

/-- **A write that `WriteLocked` carried out is the plain store of its bytes.** -/
theorem writeLocked_eq_true {offset : ℕ} {buffer : Bytes}
    (h : (writeLocked config os none offset buffer io).1 = true) :
    (writeLocked config os none offset buffer io).2.disk = io.disk.store offset buffer := by
  have hdown := alignDown_le offset config.logicalBlockSize
  unfold writeLocked at h ⊢
  split at h
  · rename_i hempty
    rw [if_pos hempty, hempty, Disk.store_nil]
  rename_i hempty
  split at h
  · cases h
  rename_i hlength
  split at h
  · cases h
  rename_i hfault
  rw [if_neg hempty, if_neg hlength, if_neg hfault]
  simp only at h ⊢
  split at h
  · cases h
  rename_i hsize
  split at h
  · cases h
  rename_i hallowed
  rw [if_neg hsize, if_neg hallowed]
  have hcover := le_alignUp (not_or.mp hsize).1
  split at h
  · rename_i haligned
    rw [if_pos haligned, writeAt_eq_true h]
    congr 1
    omega
  rename_i haligned
  split at h
  · cases h
  rename_i hmode
  rw [if_neg haligned, if_neg hmode]
  split at h
  · cases h
  · rename_i window after hwindow
    obtain ⟨hdisk, -, hbytes⟩ := readWindow_spec hwindow
    obtain ⟨hread, rfl⟩ := hbytes window rfl
    rw [writeAt_eq_true h, hdisk]
    exact Disk.store_window hread hdown (by omega) hempty

/-- In a fault mode no write succeeds. -/
theorem writeLocked_fault_fst {mode : FaultMode} {offset : ℕ} {buffer : Bytes}
    (hbuffer : buffer ≠ []) : (writeLocked config os (some mode) offset buffer io).1 = false := by
  unfold writeLocked
  rw [if_neg hbuffer]
  split
  · rfl
  split
  · rfl
  simp only
  split
  · rfl
  split
  · rfl
  split
  · exact writeFaulty_fst
  split
  · rfl
  split
  · rfl
  · exact writeFaulty_fst

end Calls

end Device
end ApfsAccess
