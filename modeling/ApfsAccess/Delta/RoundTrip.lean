import ApfsAccess.Delta.Codec

/-!
# A delta is decoded to itself

The fields of a record are read in the order in which they were written, the records of a
section one after the other, and the sections in their order.  What `Encode` needs besides is
that its count of the bytes is the number of bytes it writes.
-/

namespace ApfsAccess
namespace Delta

open ByteBuffer Format Cursor

/-! ## Fields -/

theorem reads_readU8 (value : UInt8) : Reads readU8 (appendU8 value) value := by
  refine (reads_takeLE value.toNat_lt).finish ?_
  rw [UInt8.ofNat_toNat]
  exact Reads.pure value

theorem reads_readU16 (value : UInt16) : Reads readU16 (appendU16 value) value := by
  refine (reads_takeLE value.toNat_lt).finish ?_
  rw [UInt16.ofNat_toNat]
  exact Reads.pure value

theorem reads_readU32 (value : UInt32) : Reads readU32 (appendU32 value) value := by
  refine (reads_takeLE value.toNat_lt).finish ?_
  rw [UInt32.ofNat_toNat]
  exact Reads.pure value

theorem reads_readU64 (value : UInt64) : Reads readU64 (appendU64 value) value := by
  refine (reads_takeLE value.toNat_lt).finish ?_
  rw [UInt64.ofNat_toNat]
  exact Reads.pure value

@[simp] theorem length_appendU8 (value : UInt8) : (appendU8 value).length = 1 :=
  length_leBytes 1 _

@[simp] theorem length_appendU16 (value : UInt16) : (appendU16 value).length = 2 :=
  length_leBytes 2 _

@[simp] theorem length_appendU32 (value : UInt32) : (appendU32 value).length = 4 :=
  length_leBytes 4 _

@[simp] theorem length_appendU64 (value : UInt64) : (appendU64 value).length = 8 :=
  length_leBytes 8 _

theorem toNat_ofNat_of_le {n : ℕ} (h : n ≤ uint32Max) : (UInt32.ofNat n).toNat = n := by
  rw [UInt32.toNat_ofNat']
  exact Nat.mod_eq_of_lt (by unfold uint32Max at h; omega)

theorem reads_readBytes {bytes : Bytes} (h : bytes.length ≤ uint32Max) :
    Reads readBytes (appendBytes bytes) bytes := by
  refine (reads_readU32 _).bind ?_
  rw [toNat_ofNat_of_le h]
  exact reads_takeExactly bytes rfl

/-! ### Strings -/

theorem length_flatMap_appendU16 (value : WString) :
    (value.flatMap appendU16).length = value.length * 2 := by
  induction value with
  | nil => rfl
  | cons ch value ih =>
    rw [List.flatMap_cons, List.length_append, ih, length_appendU16, List.length_cons]
    omega

/-- The code units of a string are taken apart and put together again. -/
theorem codeUnits_flatMap (value : WString) : codeUnits (value.flatMap appendU16) = value := by
  induction value with
  | nil => rfl
  | cons ch value ih =>
    have htwo : ∃ low high, appendU16 ch = [low, high] := ⟨_, _, rfl⟩
    obtain ⟨low, high, hunit⟩ := htwo
    have hvalue : leValue [low, high] = ch.toNat := by
      rw [← hunit]
      exact leValue_leBytes ch.toNat_lt
    rw [List.flatMap_cons, hunit]
    show UInt16.ofNat (leValue [low, high]) :: codeUnits (value.flatMap appendU16) = _
    rw [hvalue, UInt16.ofNat_toNat, ih]

theorem utf16ByteCount_of_le {value : WString} (h : value.length * 2 ≤ uint32Max) :
    utf16ByteCount value = some (value.length * 2) := by
  unfold utf16ByteCount
  rw [if_neg (by unfold uint32Max at *; omega)]

theorem appendString_of_le {value : WString} (h : value.length * 2 ≤ uint32Max) :
    appendString value = appendBytes (value.flatMap appendU16) := by
  unfold appendString appendBytes
  rw [utf16ByteCount_of_le h, length_flatMap_appendU16, Option.getD_some]

theorem reads_readString {value : WString} (h : value.length * 2 ≤ uint32Max) :
    Reads readString (appendString value) value := by
  rw [appendString_of_le h]
  refine (reads_readBytes (by rwa [length_flatMap_appendU16])).finish ?_
  have hdecode : decodeUtf16 (value.flatMap appendU16) = some value := by
    unfold decodeUtf16
    rw [if_neg (by rw [length_flatMap_appendU16]; omega), codeUnits_flatMap]
  rw [hdecode]
  exact Reads.pure value

theorem not_one_lt_flag (value : Bool) : ¬ 1 < flag value := by
  cases value <;> decide

theorem flag_ne_zero (value : Bool) : (flag value != 0) = value := by
  cases value <;> rfl

/-! ## Records -/

theorem reads_readObjectMapUpdate {targetXid : UInt64} {update : ObjectMapUpdate}
    (h : update.isValid targetXid = true) :
    Reads (readObjectMapUpdate targetXid) update.encode update := by
  refine (reads_readU64 _).bind ((reads_readU64 _).bind ((reads_readU64 _).bind
    ((reads_readU64 _).bind ((reads_readU8 _).finish ?_))))
  have hchecks : ¬ (update.objectId = 0 ∨ update.xid ≠ targetXid ∨ 1 < flag update.tombstone) := by
    unfold ObjectMapUpdate.isValid at h
    have hflag := not_one_lt_flag update.tombstone
    simp only [Bool.not_eq_true', Bool.or_eq_false_iff, beq_eq_false_iff_ne, bne_eq_false_iff_eq]
      at h
    tauto
  rw [if_neg hchecks, flag_ne_zero]
  exact Reads.pure update

theorem reads_readExtent {extent : Extent} (h : extent.isValid = true) :
    Reads readExtent extent.encode extent := by
  refine (reads_readU64 _).bind ((reads_readU64 _).finish ?_)
  have hchecks : ¬ (extent.physicalAddress = 0 ∨ extent.bytes = 0) := by
    unfold Extent.isValid at h
    simp only [Bool.not_eq_true', Bool.or_eq_false_iff, beq_eq_false_iff_ne] at h
    tauto
  rw [if_neg hchecks]
  exact Reads.pure extent

theorem reads_readInodeUpdate {targetXid : UInt64} {inode : InodeUpdate}
    (h : inode.isValid targetXid = true) (hname : inode.name.length * 2 ≤ uint32Max)
    (hpath : inode.fullPath.length * 2 ≤ uint32Max) :
    Reads (readInodeUpdate targetXid) inode.encode inode := by
  refine (reads_readU64 _).bind ((reads_readU64 _).bind ((reads_readString hname).bind
    ((reads_readString hpath).bind ((reads_readU8 _).bind ((reads_readU64 _).bind
    ((reads_readU64 _).bind ((reads_readU64 _).bind ((reads_readU64 _).bind
    ((reads_readU8 _).finish ?_)))))))))
  have hchecks : ¬ (inode.objectId = 0 ∨ inode.xid ≠ targetXid ∨ 1 < flag inode.isDirectory ∨
      1 < flag inode.tombstone) := by
    unfold InodeUpdate.isValid at h
    have hdirectory := not_one_lt_flag inode.isDirectory
    have hflag := not_one_lt_flag inode.tombstone
    simp only [Bool.not_eq_true', Bool.or_eq_false_iff, beq_eq_false_iff_ne, bne_eq_false_iff_eq]
      at h
    tauto
  rw [if_neg hchecks, flag_ne_zero, flag_ne_zero]
  exact Reads.pure inode

theorem reads_readDirectoryLinkUpdate {targetXid : UInt64} {link : DirectoryLinkUpdate}
    (h : link.isValid targetXid = true) (hname : link.entryName.length * 2 ≤ uint32Max) :
    Reads (readDirectoryLinkUpdate targetXid) link.encode link := by
  refine (reads_readU64 _).bind ((reads_readString hname).bind ((reads_readU64 _).bind
    ((reads_readU64 _).bind ((reads_readU8 _).finish ?_))))
  have hchecks : ¬ (link.parentObjectId = 0 ∨ link.childObjectId = 0 ∨ link.xid ≠ targetXid ∨
      1 < flag link.tombstone) := by
    unfold DirectoryLinkUpdate.isValid at h
    have hflag := not_one_lt_flag link.tombstone
    simp only [Bool.not_eq_true', Bool.or_eq_false_iff, beq_eq_false_iff_ne, bne_eq_false_iff_eq]
      at h
    tauto
  rw [if_neg hchecks, flag_ne_zero]
  exact Reads.pure link

theorem reads_readBtreeRecord {record : BtreeRecord} (h : record.isValid = true)
    (hkey : record.key.length ≤ uint32Max) (hvalue : record.value.length ≤ uint32Max) :
    Reads readBtreeRecord record.encode record := by
  refine (reads_readU8 _).bind ((reads_readU8 _).bind ((reads_readBytes hkey).bind
    ((reads_readBytes hvalue).finish ?_)))
  have hchecks : ¬ (record.kind < btreeRecordKindInode ∨
      btreeRecordKindFileExtent < record.kind ∨ 1 < flag record.tombstone) := by
    unfold BtreeRecord.isValid at h
    have hflag := not_one_lt_flag record.tombstone
    simp only [Bool.not_eq_true', Bool.or_eq_false_iff, decide_eq_false_iff_not] at h
    tauto
  rw [if_neg hchecks, flag_ne_zero]
  exact Reads.pure record

/-! ## Sections -/

/-- The number of payload bytes of a section. -/
def payloadLength {ρ : Type} (encode : ρ → Bytes) (records : List ρ) : ℕ :=
  (records.flatMap encode).length

/-- **The sections fit their length fields.** -/
structure CheckpointDelta.SectionsFit (delta : CheckpointDelta) : Prop where
  objectMap : payloadLength ObjectMapUpdate.encode delta.objectMapUpdates ≤ uint32Max
  allocations : payloadLength Extent.encode delta.spacemanAllocations ≤ uint32Max
  deallocations : payloadLength Extent.encode delta.spacemanDeallocations ≤ uint32Max
  inodes : payloadLength InodeUpdate.encode delta.inodeUpdates ≤ uint32Max
  links : payloadLength DirectoryLinkUpdate.encode delta.directoryLinkUpdates ≤ uint32Max
  btree : payloadLength BtreeRecord.encode delta.btreeRecords ≤ uint32Max

section Lengths

variable {ρ : Type} {encode : ρ → Bytes} {records : List ρ}

theorem payloadLength_eq_sum : payloadLength encode records =
    (records.map fun record => (encode record).length).sum :=
  List.length_flatMap

/-- A record is no longer than its section. -/
theorem length_encode_le {record : ρ} (h : record ∈ records) :
    (encode record).length ≤ payloadLength encode records := by
  rw [payloadLength_eq_sum]
  exact List.le_sum_of_mem (List.mem_map_of_mem h)

/-- No record is empty, so a section has no more records than bytes. -/
theorem length_le_payloadLength (hpos : ∀ record, 0 < (encode record).length) :
    records.length ≤ payloadLength encode records := by
  unfold payloadLength
  induction records with
  | nil => exact Nat.le_refl 0
  | cons record records ih =>
    have hrecord := hpos record
    rw [List.flatMap_cons, List.length_append, List.length_cons]
    omega

theorem payloadLength_of_length_eq {size : ℕ} (h : ∀ record, (encode record).length = size) :
    payloadLength encode records = records.length * size := by
  rw [payloadLength_eq_sum]
  simp [h]

end Lengths

@[simp] theorem length_encode_objectMapUpdate (update : ObjectMapUpdate) :
    update.encode.length = 33 := by
  simp [ObjectMapUpdate.encode]

@[simp] theorem length_encode_extent (extent : Extent) : extent.encode.length = 16 := by
  simp [Extent.encode]

@[simp] theorem length_appendString (value : WString) :
    (appendString value).length = 4 + value.length * 2 := by
  rw [appendString, List.length_append, length_flatMap_appendU16, length_appendU32]

@[simp] theorem length_appendBytes (bytes : Bytes) :
    (appendBytes bytes).length = 4 + bytes.length := by
  rw [appendBytes, List.length_append, length_appendU32]

theorem length_encode_inodeUpdate (inode : InodeUpdate) :
    inode.encode.length = 58 + inode.name.length * 2 + inode.fullPath.length * 2 := by
  simp only [InodeUpdate.encode, List.length_append, length_appendU64, length_appendString,
    length_appendU8]
  omega

theorem length_encode_directoryLinkUpdate (link : DirectoryLinkUpdate) :
    link.encode.length = 29 + link.entryName.length * 2 := by
  simp only [DirectoryLinkUpdate.encode, List.length_append, length_appendU64,
    length_appendString, length_appendU8]
  omega

theorem length_encode_btreeRecord (record : BtreeRecord) :
    record.encode.length = 10 + record.key.length + record.value.length := by
  simp only [BtreeRecord.encode, List.length_append, length_appendU8, length_appendBytes]
  omega

theorem reads_readSectionHeader (kind : UInt8) (count payloadBytes : UInt32) :
    Reads readSectionHeader (appendU8 kind ++ (appendU32 count ++ appendU32 payloadBytes))
      (kind, count, payloadBytes) :=
  (reads_readU8 _).bind ((reads_readU32 _).bind ((reads_readU32 _).finish (Reads.pure _)))

/-- **One section is decoded**: its records are added to what was read before. -/
theorem decodeSections_writeSection {ρ : Type} {kind : SectionKind} {encode : ρ → Bytes}
    {records : List ρ} {delta : CheckpointDelta} (add : CheckpointDelta → ρ → CheckpointDelta)
    (fuel : ℕ) (rest : Bytes) (hpos : ∀ record, 0 < (encode record).length)
    (hfit : payloadLength encode records ≤ uint32Max)
    (hread : ∀ state : CheckpointDelta, state.targetXid = delta.targetXid →
      ∀ record ∈ records, Reads (readRecord (some kind) state) (encode record)
        (add state record) ∧ (add state record).targetXid = delta.targetXid) :
    decodeSections (fuel + 1) (writeSection kind encode records ++ rest) delta =
      decodeSections fuel rest (records.foldl add delta) := by
  have hcount : records.length ≤ uint32Max := (length_le_payloadLength hpos).trans hfit
  have hsplit : writeSection kind encode records ++ rest =
      (appendU8 kind.code ++ (appendU32 (UInt32.ofNat records.length) ++
        appendU32 (UInt32.ofNat (records.flatMap encode).length))) ++
      (records.flatMap encode ++ rest) := by
    simp only [writeSection, List.append_assoc]
  have hne : ¬ writeSection kind encode records ++ rest = [] := by
    intro hnil
    have hzero := congrArg List.length hnil
    simp [writeSection] at hzero
  have hbytes : (UInt32.ofNat (records.flatMap encode).length).toNat =
      (records.flatMap encode).length := toNat_ofNat_of_le hfit
  have hrecords : Reads (many (readRecord (some kind)) records.length delta)
      (records.flatMap encode) (records.foldl add delta) :=
    reads_many (fun state => state.targetXid = delta.targetXid) rfl hread
  rw [decodeSections, if_neg hne, hsplit, reads_readSectionHeader]
  dsimp only
  rw [toNat_ofNat_of_le hcount, hbytes, SectionKind.ofCode_code, hrecords rest]
  dsimp only
  rw [if_neg (by simp), if_neg (by simp [Nat.add_comm])]

/-! ### The six sections -/

/-- Adding records to a field of a state one by one adds their list. -/
theorem foldl_push {σ ρ : Type} (get : σ → List ρ) (set : σ → List ρ → σ)
    (hget : ∀ state records, get (set state records) = records)
    (hset : ∀ state records others, set (set state records) others = set state others)
    (hself : ∀ state, set state (get state) = state) (records : List ρ) (state : σ) :
    records.foldl (fun state record => set state (get state ++ [record])) state =
      set state (get state ++ records) := by
  induction records generalizing state with
  | nil => rw [List.append_nil, hself, List.foldl_nil]
  | cons record records ih =>
    rw [List.foldl_cons, ih, hget, hset, List.append_assoc, List.singleton_append]

namespace CheckpointDelta

variable (delta : CheckpointDelta)

theorem foldl_addObjectMapUpdate (updates : List ObjectMapUpdate) :
    updates.foldl addObjectMapUpdate delta =
      { delta with objectMapUpdates := delta.objectMapUpdates ++ updates } :=
  foldl_push objectMapUpdates (fun delta updates => { delta with objectMapUpdates := updates })
    (fun _ _ => rfl) (fun _ _ _ => rfl) (fun _ => rfl) updates delta

theorem foldl_addAllocation (extents : List Extent) :
    extents.foldl addAllocation delta =
      { delta with spacemanAllocations := delta.spacemanAllocations ++ extents } :=
  foldl_push spacemanAllocations (fun delta extents => { delta with spacemanAllocations := extents })
    (fun _ _ => rfl) (fun _ _ _ => rfl) (fun _ => rfl) extents delta

theorem foldl_addDeallocation (extents : List Extent) :
    extents.foldl addDeallocation delta =
      { delta with spacemanDeallocations := delta.spacemanDeallocations ++ extents } :=
  foldl_push spacemanDeallocations
    (fun delta extents => { delta with spacemanDeallocations := extents })
    (fun _ _ => rfl) (fun _ _ _ => rfl) (fun _ => rfl) extents delta

theorem foldl_addInodeUpdate (inodes : List InodeUpdate) :
    inodes.foldl addInodeUpdate delta =
      { delta with inodeUpdates := delta.inodeUpdates ++ inodes } :=
  foldl_push inodeUpdates (fun delta inodes => { delta with inodeUpdates := inodes })
    (fun _ _ => rfl) (fun _ _ _ => rfl) (fun _ => rfl) inodes delta

theorem foldl_addDirectoryLinkUpdate (links : List DirectoryLinkUpdate) :
    links.foldl addDirectoryLinkUpdate delta =
      { delta with directoryLinkUpdates := delta.directoryLinkUpdates ++ links } :=
  foldl_push directoryLinkUpdates (fun delta links => { delta with directoryLinkUpdates := links })
    (fun _ _ => rfl) (fun _ _ _ => rfl) (fun _ => rfl) links delta

theorem foldl_addBtreeRecord (records : List BtreeRecord) :
    records.foldl addBtreeRecord delta =
      { delta with btreeRecords := delta.btreeRecords ++ records } :=
  foldl_push btreeRecords (fun delta records => { delta with btreeRecords := records })
    (fun _ _ => rfl) (fun _ _ _ => rfl) (fun _ => rfl) records delta

end CheckpointDelta

section Sections

variable {delta : CheckpointDelta} (fuel : ℕ) (rest : Bytes)

theorem decodeSections_objectMap {updates : List ObjectMapUpdate}
    (hvalid : ∀ update ∈ updates, update.isValid delta.targetXid = true)
    (hfit : payloadLength ObjectMapUpdate.encode updates ≤ uint32Max) :
    decodeSections (fuel + 1) (writeSection .objectMap ObjectMapUpdate.encode updates ++ rest)
        delta =
      decodeSections fuel rest
        { delta with objectMapUpdates := delta.objectMapUpdates ++ updates } := by
  rw [decodeSections_writeSection CheckpointDelta.addObjectMapUpdate fuel rest (by simp) hfit,
    CheckpointDelta.foldl_addObjectMapUpdate]
  intro state hstate update hupdate
  refine ⟨(reads_readObjectMapUpdate ?_).map _, hstate⟩
  rw [hstate]
  exact hvalid update hupdate

theorem decodeSections_allocations {extents : List Extent}
    (hvalid : ∀ extent ∈ extents, extent.isValid = true)
    (hfit : payloadLength Extent.encode extents ≤ uint32Max) :
    decodeSections (fuel + 1) (writeSection .spacemanAllocation Extent.encode extents ++ rest)
        delta =
      decodeSections fuel rest
        { delta with spacemanAllocations := delta.spacemanAllocations ++ extents } := by
  rw [decodeSections_writeSection CheckpointDelta.addAllocation fuel rest (by simp) hfit,
    CheckpointDelta.foldl_addAllocation]
  intro state hstate extent hextent
  exact ⟨(reads_readExtent (hvalid extent hextent)).map _, hstate⟩

theorem decodeSections_deallocations {extents : List Extent}
    (hvalid : ∀ extent ∈ extents, extent.isValid = true)
    (hfit : payloadLength Extent.encode extents ≤ uint32Max) :
    decodeSections (fuel + 1) (writeSection .spacemanDeallocation Extent.encode extents ++ rest)
        delta =
      decodeSections fuel rest
        { delta with spacemanDeallocations := delta.spacemanDeallocations ++ extents } := by
  rw [decodeSections_writeSection CheckpointDelta.addDeallocation fuel rest (by simp) hfit,
    CheckpointDelta.foldl_addDeallocation]
  intro state hstate extent hextent
  exact ⟨(reads_readExtent (hvalid extent hextent)).map _, hstate⟩

theorem decodeSections_inodes {inodes : List InodeUpdate}
    (hvalid : ∀ inode ∈ inodes, inode.isValid delta.targetXid = true)
    (hfit : payloadLength InodeUpdate.encode inodes ≤ uint32Max) :
    decodeSections (fuel + 1) (writeSection .inode InodeUpdate.encode inodes ++ rest) delta =
      decodeSections fuel rest { delta with inodeUpdates := delta.inodeUpdates ++ inodes } := by
  rw [decodeSections_writeSection CheckpointDelta.addInodeUpdate fuel rest
    (fun inode => by rw [length_encode_inodeUpdate]; omega) hfit,
    CheckpointDelta.foldl_addInodeUpdate]
  intro state hstate inode hinode
  have hlength := (length_encode_le hinode).trans hfit
  rw [length_encode_inodeUpdate] at hlength
  refine ⟨(reads_readInodeUpdate ?_ (by omega) (by omega)).map _, hstate⟩
  rw [hstate]
  exact hvalid inode hinode

theorem decodeSections_links {links : List DirectoryLinkUpdate}
    (hvalid : ∀ link ∈ links, link.isValid delta.targetXid = true)
    (hfit : payloadLength DirectoryLinkUpdate.encode links ≤ uint32Max) :
    decodeSections (fuel + 1) (writeSection .directoryLink DirectoryLinkUpdate.encode links ++ rest)
        delta =
      decodeSections fuel rest
        { delta with directoryLinkUpdates := delta.directoryLinkUpdates ++ links } := by
  rw [decodeSections_writeSection CheckpointDelta.addDirectoryLinkUpdate fuel rest
    (fun link => by rw [length_encode_directoryLinkUpdate]; omega) hfit,
    CheckpointDelta.foldl_addDirectoryLinkUpdate]
  intro state hstate link hlink
  have hlength := (length_encode_le hlink).trans hfit
  rw [length_encode_directoryLinkUpdate] at hlength
  refine ⟨(reads_readDirectoryLinkUpdate ?_ (by omega)).map _, hstate⟩
  rw [hstate]
  exact hvalid link hlink

theorem decodeSections_btree {records : List BtreeRecord}
    (hvalid : ∀ record ∈ records, record.isValid = true)
    (hfit : payloadLength BtreeRecord.encode records ≤ uint32Max) :
    decodeSections (fuel + 1) (writeSection .btree BtreeRecord.encode records ++ rest) delta =
      decodeSections fuel rest { delta with btreeRecords := delta.btreeRecords ++ records } := by
  rw [decodeSections_writeSection CheckpointDelta.addBtreeRecord fuel rest
    (fun record => by rw [length_encode_btreeRecord]; omega) hfit,
    CheckpointDelta.foldl_addBtreeRecord]
  intro state hstate record hrecord
  have hlength := (length_encode_le hrecord).trans hfit
  rw [length_encode_btreeRecord] at hlength
  exact ⟨(reads_readBtreeRecord (hvalid record hrecord) (by omega) (by omega)).map _, hstate⟩

end Sections

/-- **The sections of a valid delta are decoded to its records.** -/
theorem decodeSections_writeSections {delta : CheckpointDelta} (hvalid : delta.ValidRecords)
    (hfit : delta.SectionsFit) {fuel : ℕ} (hfuel : 6 ≤ fuel) :
    decodeSections fuel (writeSections delta)
      { volumeIdentity := delta.volumeIdentity
        baseXid := delta.baseXid
        targetXid := delta.targetXid } = .ok delta := by
  obtain ⟨fuel, rfl⟩ : ∃ more, fuel = more + 1 + 1 + 1 + 1 + 1 + 1 := ⟨fuel - 6, by omega⟩
  have hlast : writeSection .btree BtreeRecord.encode delta.btreeRecords =
      writeSection .btree BtreeRecord.encode delta.btreeRecords ++ [] := (List.append_nil _).symm
  unfold writeSections
  rw [hlast]
  refine Eq.trans (decodeSections_objectMap _ _ hvalid.objectMap hfit.objectMap) ?_
  refine Eq.trans (decodeSections_allocations _ _ hvalid.allocations hfit.allocations) ?_
  refine Eq.trans (decodeSections_deallocations _ _ hvalid.deallocations hfit.deallocations) ?_
  refine Eq.trans (decodeSections_inodes _ _ hvalid.inodes hfit.inodes) ?_
  refine Eq.trans (decodeSections_links _ _ hvalid.links hfit.links) ?_
  refine Eq.trans (decodeSections_btree _ _ hvalid.btree hfit.btree) ?_
  cases fuel with
  | zero => rfl
  | succ fuel => rfl

/-! ## The count of the bytes -/

theorem checkedAddSize_of_le {value addend : ℕ} (h : value + addend ≤ sizeMax) :
    checkedAddSize value addend = some (value + addend) := by
  unfold checkedAddSize
  rw [if_neg (by omega)]

theorem checkedMultiplySize_of_le {lhs rhs : ℕ} (h : lhs * rhs ≤ sizeMax) :
    checkedMultiplySize lhs rhs = some (lhs * rhs) := by
  unfold checkedMultiplySize
  rw [if_neg]
  rintro ⟨hne, hlt⟩
  have hdiv : rhs ≤ sizeMax / lhs := (Nat.le_div_iff_mul_le (Nat.pos_of_ne_zero hne)).mpr
    (by rwa [Nat.mul_comm])
  omega

theorem addLengthPrefixedBytes_of_le {value payloadBytes : ℕ} (hfit : payloadBytes ≤ uint32Max)
    (h : value + 4 + payloadBytes ≤ sizeMax) :
    addLengthPrefixedBytes value payloadBytes = some (value + 4 + payloadBytes) := by
  unfold addLengthPrefixedBytes
  rw [if_neg (by omega), checkedAddSize_of_le (by omega), Option.bind_eq_bind, Option.bind_some,
    checkedAddSize_of_le h]

theorem addLengthPrefixedStringBytes_of_le {value : ℕ} {text : WString}
    (hfit : text.length * 2 ≤ uint32Max) (h : value + 4 + text.length * 2 ≤ sizeMax) :
    addLengthPrefixedStringBytes value text = some (value + 4 + text.length * 2) := by
  unfold addLengthPrefixedStringBytes
  rw [utf16ByteCount_of_le hfit, Option.bind_eq_bind, Option.bind_some,
    addLengthPrefixedBytes_of_le hfit h]

/-- The bytes of a section whose records have one length. -/
theorem addSectionBytes_of_le {ρ : Type} {encode : ρ → Bytes} {records : List ρ}
    {value size : ℕ} (hsize : ∀ record, (encode record).length = size) (hpos : 0 < size)
    (hfit : payloadLength encode records ≤ uint32Max)
    (h : value + (9 + payloadLength encode records) ≤ sizeMax) :
    addSectionBytes value records.length size =
      some (value + (9 + payloadLength encode records)) := by
  have hcount : records.length ≤ uint32Max :=
    (length_le_payloadLength fun record => by rw [hsize]; exact hpos).trans hfit
  rw [payloadLength_of_length_eq hsize] at h ⊢
  unfold addSectionBytes sectionHeaderBytes
  rw [if_neg (by omega), checkedMultiplySize_of_le (by omega), Option.bind_eq_bind,
    Option.bind_some, checkedAddSize_of_le (by omega), Option.bind_some,
    checkedAddSize_of_le (by omega), Nat.add_assoc]

/-- Adding the lengths of records one by one. -/
theorem foldlM_add {ρ : Type} {encode : ρ → Bytes} {add : ℕ → ρ → Option ℕ} {records : List ρ}
    {value : ℕ} (hadd : ∀ value, ∀ record ∈ records, value + (encode record).length ≤ sizeMax →
      add value record = some (value + (encode record).length))
    (h : value + payloadLength encode records ≤ sizeMax) :
    records.foldlM add value = some (value + payloadLength encode records) := by
  induction records generalizing value with
  | nil => rfl
  | cons record records ih =>
    have hsplit : payloadLength encode (record :: records) =
        (encode record).length + payloadLength encode records := by
      unfold payloadLength
      rw [List.flatMap_cons, List.length_append]
    rw [hsplit] at h ⊢
    rw [List.foldlM_cons, hadd value record List.mem_cons_self (by omega), Option.bind_eq_bind,
      Option.bind_some, ih (fun value other hother =>
        hadd value other (List.mem_cons_of_mem _ hother)) (by omega), Nat.add_assoc]

/-- The bytes of a section whose records differ in length. -/
theorem addRecordBytes_of_le {ρ : Type} {encode : ρ → Bytes} {add : ℕ → ρ → Option ℕ}
    {records : List ρ} {value : ℕ} (hpos : ∀ record, 0 < (encode record).length)
    (hadd : ∀ value, ∀ record ∈ records, value + (encode record).length ≤ sizeMax →
      add value record = some (value + (encode record).length))
    (hfit : payloadLength encode records ≤ uint32Max)
    (h : value + (9 + payloadLength encode records) ≤ sizeMax) :
    addRecordBytes add value records = some (value + (9 + payloadLength encode records)) := by
  have hcount : records.length ≤ uint32Max := (length_le_payloadLength hpos).trans hfit
  unfold addRecordBytes sectionHeaderBytes
  rw [if_neg (by omega), checkedAddSize_of_le (by omega), Option.bind_eq_bind, Option.bind_some,
    foldlM_add hadd (by omega), Nat.add_assoc]

theorem addInodeBytes_of_le {inodes : List InodeUpdate}
    (hfit : payloadLength InodeUpdate.encode inodes ≤ uint32Max) (value : ℕ)
    (inode : InodeUpdate) (hinode : inode ∈ inodes)
    (h : value + inode.encode.length ≤ sizeMax) :
    addInodeBytes value inode = some (value + inode.encode.length) := by
  have hlength := (length_encode_le hinode).trans hfit
  rw [length_encode_inodeUpdate] at hlength h ⊢
  unfold addInodeBytes
  rw [checkedAddSize_of_le (by omega), Option.bind_eq_bind, Option.bind_some,
    addLengthPrefixedStringBytes_of_le (by omega) (by omega), Option.bind_some, addLengthPrefixedStringBytes_of_le (by omega) (by omega),
    Option.bind_some, checkedAddSize_of_le (by omega)]
  congr 1
  omega

theorem addDirectoryLinkBytes_of_le {links : List DirectoryLinkUpdate}
    (hfit : payloadLength DirectoryLinkUpdate.encode links ≤ uint32Max) (value : ℕ)
    (link : DirectoryLinkUpdate) (hlink : link ∈ links)
    (h : value + link.encode.length ≤ sizeMax) :
    addDirectoryLinkBytes value link = some (value + link.encode.length) := by
  have hlength := (length_encode_le hlink).trans hfit
  rw [length_encode_directoryLinkUpdate] at hlength h ⊢
  unfold addDirectoryLinkBytes
  rw [checkedAddSize_of_le (by omega), Option.bind_eq_bind, Option.bind_some,
    addLengthPrefixedStringBytes_of_le (by omega) (by omega), Option.bind_some, checkedAddSize_of_le (by omega)]
  congr 1
  omega

theorem addBtreeRecordBytes_of_le {records : List BtreeRecord}
    (hfit : payloadLength BtreeRecord.encode records ≤ uint32Max) (value : ℕ)
    (record : BtreeRecord) (hrecord : record ∈ records)
    (h : value + record.encode.length ≤ sizeMax) :
    addBtreeRecordBytes value record = some (value + record.encode.length) := by
  have hlength := (length_encode_le hrecord).trans hfit
  rw [length_encode_btreeRecord] at hlength h ⊢
  unfold addBtreeRecordBytes
  rw [checkedAddSize_of_le (by omega), Option.bind_eq_bind, Option.bind_some,
    addLengthPrefixedBytes_of_le (by omega) (by omega), Option.bind_some,
    addLengthPrefixedBytes_of_le (by omega) (by omega)]
  congr 1
  omega

theorem length_writeSection {ρ : Type} (kind : SectionKind) (encode : ρ → Bytes)
    (records : List ρ) :
    (writeSection kind encode records).length = 9 + payloadLength encode records := by
  unfold writeSection payloadLength
  simp only [List.length_append, length_appendU8, length_appendU32]
  omega

theorem length_deltaBytes (delta : CheckpointDelta) (checksum : UInt32) :
    (deltaBytes delta checksum).length = 40 + (writeSections delta).length := by
  simp only [deltaBytes, List.length_append, length_appendU16, length_appendU32, length_appendU64]
  omega

/-- **The estimate is the number of bytes that are written.** -/
theorem estimateEncodedDeltaBytes_of_fit {delta : CheckpointDelta} (h : delta.SectionsFit) :
    estimateEncodedDeltaBytes delta = some (deltaBytes delta 0).length := by
  obtain ⟨hobject, halloc, hdealloc, hinode, hlink, hbtree⟩ := h
  have hheader : headerBytes.toNat = 40 := rfl
  unfold estimateEncodedDeltaBytes
  rw [length_deltaBytes]
  simp only [writeSections, List.length_append, length_writeSection]
  unfold uint32Max at *
  rw [addSectionBytes_of_le length_encode_objectMapUpdate (by omega) hobject
    (by unfold sizeMax; omega), Option.bind_eq_bind, Option.bind_some]
  rw [addSectionBytes_of_le length_encode_extent (by omega) halloc (by unfold sizeMax; omega),
    Option.bind_some]
  rw [addSectionBytes_of_le length_encode_extent (by omega) hdealloc (by unfold sizeMax; omega),
    Option.bind_some]
  rw [addRecordBytes_of_le (fun inode => by rw [length_encode_inodeUpdate]; omega)
    (addInodeBytes_of_le hinode) hinode (by unfold sizeMax; omega), Option.bind_some]
  rw [addRecordBytes_of_le (fun link => by rw [length_encode_directoryLinkUpdate]; omega)
    (addDirectoryLinkBytes_of_le hlink) hlink (by unfold sizeMax; omega), Option.bind_some]
  rw [addRecordBytes_of_le (fun record => by rw [length_encode_btreeRecord]; omega)
    (addBtreeRecordBytes_of_le hbtree) hbtree (by unfold sizeMax; omega)]
  congr 1
  omega

theorem countsFit_of_fit {delta : CheckpointDelta} (h : delta.SectionsFit) :
    countsFit delta = true := by
  obtain ⟨hobject, halloc, hdealloc, hinode, hlink, hbtree⟩ := h
  have hobjects := (length_le_payloadLength (by simp)).trans hobject
  have hallocs := (length_le_payloadLength (by simp)).trans halloc
  have hdeallocs := (length_le_payloadLength (by simp)).trans hdealloc
  have hinodes := (length_le_payloadLength fun inode => by
    rw [length_encode_inodeUpdate]; omega).trans hinode
  have hlinks := (length_le_payloadLength fun link => by
    rw [length_encode_directoryLinkUpdate]; omega).trans hlink
  have hrecords := (length_le_payloadLength fun record => by
    rw [length_encode_btreeRecord]; omega).trans hbtree
  simp [countsFit, hobjects, hallocs, hdeallocs, hinodes, hlinks, hrecords]

/-! ## The checksum -/

section Checksum

variable {front back : Bytes} (hfront : front.length = 12)
include hfront

/-- A checksum does not cover its own place. -/
theorem computeChecksum_stamped (checksum other : UInt32) :
    computeChecksum (front ++ (appendU32 checksum ++ back)) =
      computeChecksum (front ++ (appendU32 other ++ back)) := by
  have hne : ∀ value : UInt32, ¬ front ++ (appendU32 value ++ back) = [] := by
    intro value hnil
    have hzero := congrArg List.length hnil
    simp [hfront] at hzero
  have htake : ∀ value : UInt32, (front ++ (appendU32 value ++ back)).take 12 = front :=
    fun value => List.take_left' hfront
  have hdrop : ∀ value : UInt32, (front ++ (appendU32 value ++ back)).drop 16 = back := by
    intro value
    rw [← List.append_assoc]
    exact List.drop_left' (by rw [List.length_append, hfront, length_appendU32])
  have hlength : ∀ value : UInt32, (front ++ (appendU32 value ++ back)).length =
      16 + back.length := by
    intro value
    rw [List.length_append, List.length_append, hfront, length_appendU32]
    omega
  unfold computeChecksum
  rw [if_neg (hne _), if_neg (hne _), htake, htake, hdrop, hdrop, hlength, hlength]

/-- A checksum is put in its place. -/
theorem patchU32_stamped (checksum other : UInt32) :
    patchU32 (front ++ (appendU32 checksum ++ back)) 12 other =
      front ++ (appendU32 other ++ back) := by
  have hlength : (front ++ (appendU32 checksum ++ back)).length = 16 + back.length := by
    rw [List.length_append, List.length_append, hfront, length_appendU32]
    omega
  have hdrop : (front ++ (appendU32 checksum ++ back)).drop 16 = back := by
    rw [← List.append_assoc]
    exact List.drop_left' (by rw [List.length_append, hfront, length_appendU32])
  unfold patchU32 splice
  rw [if_neg (by omega), List.take_left' hfront, length_appendU32, hdrop, List.append_assoc]

end Checksum

/-- The bytes of a delta before and after its checksum. -/
theorem deltaBytes_stamped (delta : CheckpointDelta) : ∃ front back : Bytes,
    front.length = 12 ∧
      ∀ checksum, deltaBytes delta checksum = front ++ (appendU32 checksum ++ back) := by
  refine ⟨appendU32 magic ++ (appendU16 version ++ (appendU16 0 ++ appendU32 headerBytes)),
    appendU64 (hashVolumeIdentity delta.volumeIdentity) ++ (appendU64 delta.baseXid ++
      (appendU64 delta.targetXid ++ writeSections delta)), by simp, fun checksum => ?_⟩
  simp only [deltaBytes, List.append_assoc]

/-- The checksum that `Encode` stores. -/
def storedChecksum (delta : CheckpointDelta) : UInt32 := computeChecksum (deltaBytes delta 0)

theorem computeChecksum_deltaBytes (delta : CheckpointDelta) (checksum : UInt32) :
    computeChecksum (deltaBytes delta checksum) = storedChecksum delta := by
  obtain ⟨front, back, hfront, hbytes⟩ := deltaBytes_stamped delta
  unfold storedChecksum
  rw [hbytes, hbytes, computeChecksum_stamped hfront]

/-- **What `Encode` writes.** -/
theorem encode_of_fit {delta : CheckpointDelta} (h : delta.SectionsFit) :
    encode delta = deltaBytes delta (storedChecksum delta) := by
  obtain ⟨front, back, hfront, hbytes⟩ := deltaBytes_stamped delta
  unfold encode storedChecksum
  rw [estimateEncodedDeltaBytes_of_fit h]
  dsimp only
  rw [countsFit_of_fit h, if_neg (by simp), if_neg (by simp), hbytes, patchU32_stamped hfront,
    hbytes]

/-! ## Decoding -/

theorem reads_readHeader (header : Header) :
    Reads readHeader (appendU32 header.magic ++ (appendU16 header.version ++
      (appendU16 header.flags ++ (appendU32 header.headerBytes ++ (appendU32 header.checksum ++
      (appendU64 header.volumeHash ++ (appendU64 header.baseXid ++
      appendU64 header.targetXid))))))) header :=
  (reads_readU32 _).bind ((reads_readU16 _).bind ((reads_readU16 _).bind ((reads_readU32 _).bind
    ((reads_readU32 _).bind ((reads_readU64 _).bind ((reads_readU64 _).bind
    ((reads_readU64 _).finish (Reads.pure _))))))))

/-- **What `Encode` wrote passes the checks on the header**, up to the one on the checkpoints. -/
theorem decode_deltaBytes (delta : CheckpointDelta) :
    decode (deltaBytes delta (storedChecksum delta)) delta.volumeIdentity =
      if !isValidXidRange delta.baseXid delta.targetXid then .error .invalidXid
      else decodeSections (writeSections delta).length (writeSections delta)
        { volumeIdentity := delta.volumeIdentity
          baseXid := delta.baseXid
          targetXid := delta.targetXid } := by
  have hlength := length_deltaBytes delta (storedChecksum delta)
  have hne : ¬ deltaBytes delta (storedChecksum delta) = [] := by
    intro hnil
    rw [hnil, List.length_nil] at hlength
    omega
  have hsplit := reads_readHeader ⟨magic, version, 0, headerBytes, storedChecksum delta,
    hashVolumeIdentity delta.volumeIdentity, delta.baseXid, delta.targetXid⟩ (writeSections delta)
  simp only [List.append_assoc] at hsplit
  have hheader : readHeader.run (deltaBytes delta (storedChecksum delta)) = _ := hsplit
  have hbytes : headerBytes.toNat = 40 := rfl
  unfold decode
  rw [if_neg hne, if_neg (by omega), hheader]
  dsimp only
  have hchecksum := computeChecksum_deltaBytes delta (storedChecksum delta)
  rw [if_neg (by simp), if_neg (by simp), if_neg (not_not.mpr hchecksum.symm), if_neg (by simp)]

/-- **A valid delta whose sections fit is decoded to itself.** -/
theorem decode_encode {delta : CheckpointDelta} (hfit : delta.SectionsFit)
    (hrange : isValidXidRange delta.baseXid delta.targetXid = true)
    (hvalid : delta.ValidRecords) :
    decode (encode delta) delta.volumeIdentity = .ok delta := by
  have hsix : 6 ≤ (writeSections delta).length := by
    simp only [writeSections, List.length_append, length_writeSection]
    omega
  rw [encode_of_fit hfit, decode_deltaBytes, hrange]
  exact decodeSections_writeSections hvalid hfit hsix

end Delta
end ApfsAccess
