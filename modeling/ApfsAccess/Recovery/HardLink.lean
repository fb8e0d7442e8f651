import ApfsAccess.Names.Codec
import ApfsAccess.Recovery.Fields

/-!
# Hard-link proofs

The two names of a proof are checked by the name codec, which stops at 255 bytes, and so does the
decoder.

* `decodeNativeHardLink_iff` : the decoder reads the proofs that the encoder writes, and nothing else.
-/

namespace ApfsAccess
namespace Recovery

open Cursor Format Names

/-- `NativeHardLinkProof`. -/
structure NativeHardLinkProof where
  version : UInt64
  containerUuid : Bytes
  volumeUuid : Bytes
  originalName : Bytes
  destinationName : Bytes
  volumeOid : UInt64
  checkpoint : UInt64
  sourceInode : UInt64
  sourceGeneration : UInt64
  originalParent : UInt64
  destinationParent : UInt64
  firstSibling : UInt64
  nextObjectId : UInt64
  timestampNs : UInt64
  incompatibleFeatures : UInt64
  blockSize : UInt64
  blockCount : UInt64
  storeOffset : UInt64
  imageVolumeSerial : UInt64
  imageSize : UInt64
  imageCreationTime : UInt64
  imageFileId : List.Vector UInt8 16
  beforeSha : Digest
  afterSha : Digest
  referencesSha : Digest
  payloadSha : Digest
  publicationSha : Digest
  preimages : List Block
deriving DecidableEq

/-- `Mask`. -/
def hardLinkMask : UInt64 := 0x0fffffffffffffff

/-- The four bytes in front, `NHL2` or `NHL3`. -/
def hardLinkTag (version : UInt64) : Bytes :=
  [0x4e, 0x48, 0x4c, if version = 2 then 0x32 else 0x33]

namespace NativeHardLinkProof

/-- The numbers, in their order. -/
def numbers (proof : NativeHardLinkProof) : List UInt64 :=
  [proof.volumeOid, proof.checkpoint, proof.sourceInode, proof.sourceGeneration,
    proof.originalParent, proof.destinationParent, proof.firstSibling, proof.nextObjectId,
    proof.timestampNs, proof.incompatibleFeatures, proof.blockSize, proof.blockCount,
    proof.storeOffset, proof.imageVolumeSerial, proof.imageSize, proof.imageCreationTime]

/-- The texts, in their order. -/
def texts (proof : NativeHardLinkProof) : List Bytes :=
  [proof.containerUuid, proof.volumeUuid, proof.originalName, proof.destinationName]

/-- The digests, in their order. -/
def digests (proof : NativeHardLinkProof) : List Digest :=
  [proof.beforeSha, proof.afterSha, proof.referencesSha, proof.payloadSha, proof.publicationSha]

/-- The test `name` of `Valid`. -/
def nameAdmitted (data : UnicodeData) (proof : NativeHardLinkProof) (text : Bytes) : Bool :=
  (Names.decode data text
    (ApfsNamePolicy.fromIncompatibleFeatures proof.incompatibleFeatures.toNat)).isOk

/-- `Valid`. -/
def valid (data : UnicodeData) (proof : NativeHardLinkProof) : Bool :=
  (proof.version == 2 || proof.version == 3) && proof.preimages != [] &&
    decide (proof.preimages.length ≤ maxPreimages) &&
    preimagesOrdered proof.blockCount none proof.preimages &&
    uuid proof.containerUuid && uuid proof.volumeUuid && proof.volumeOid != 0 &&
    decide (proof.volumeOid < hardLinkMask) && proof.checkpoint != 0 &&
    proof.checkpoint != 0xffffffffffffffff && decide (2 < proof.sourceInode) &&
    decide (proof.sourceInode < hardLinkMask) && proof.sourceGeneration != 0 &&
    decide (proof.sourceGeneration ≤ proof.checkpoint) && proof.originalParent != 0 &&
    decide (proof.originalParent < hardLinkMask) && proof.destinationParent != 0 &&
    decide (proof.destinationParent < hardLinkMask) &&
    proof.sourceInode != proof.destinationParent &&
    decide (max (max proof.sourceInode proof.originalParent) proof.destinationParent <
      proof.firstSibling) &&
    decide (proof.firstSibling < hardLinkMask - 1) &&
    decide (proof.firstSibling + (if proof.version = 2 then 2 else 1) ≤ proof.nextObjectId) &&
    decide (proof.nextObjectId < hardLinkMask) && proof.timestampNs != 0 &&
    proof.blockSize == 4096 && proof.blockCount != 0 &&
    decide (proof.blockCount ≤ 0xffffffffffffffff / proof.blockSize) &&
    decide (proof.storeOffset ≤ proof.imageSize) &&
    decide (proof.blockCount * proof.blockSize ≤ proof.imageSize - proof.storeOffset) &&
    proof.imageCreationTime != 0 && nonzero proof.imageFileId && proof.digests.all nonzero &&
    proof.nameAdmitted data proof.originalName && proof.nameAdmitted data proof.destinationName

/-- The bytes that `EncodeNativeHardLink` appends. -/
def write (proof : NativeHardLinkProof) : Bytes :=
  hardLinkTag proof.version ++ (writeNumber proof.version ++ (proof.numbers.flatMap writeNumber ++
    (writeData proof.imageFileId.val ++ (proof.texts.flatMap writeData ++
    (proof.digests.flatMap writeDigest ++ writeList Block.write proof.preimages)))))

/-- What the reader asks of a proof before the validity check. -/
def Readable (proof : NativeHardLinkProof) : Prop :=
  (proof.version = 2 ∨ proof.version = 3) ∧ (∀ text ∈ proof.texts, text.length ≤ 255) ∧
    preimageCountAdmitted proof.preimages.length = true

end NativeHardLinkProof

/-- The fields as `DecodeNativeHardLink` reads them. -/
def readNativeHardLink : Reader UInt8 NativeHardLinkProof := do
  let tag ← takeExactly 4
  check (tag = hardLinkTag 2 ∨ tag = hardLinkTag 3)
  let version ← readNumber
  check ((version = 2 ∨ version = 3) ∧ tag = hardLinkTag version)
  let [volumeOid, checkpoint, sourceInode, sourceGeneration, originalParent, destinationParent,
    firstSibling, nextObjectId, timestampNs, incompatibleFeatures, blockSize, blockCount, storeOffset,
    imageVolumeSerial, imageSize, imageCreationTime] ← times 16 readNumber | failure
  let imageFileId ← readArray 16
  let [containerUuid, volumeUuid, originalName, destinationName] ← times 4 (readData 255) | failure
  let [beforeSha, afterSha, referencesSha, payloadSha, publicationSha] ←
    times 5 (readArray 32) | failure
  let preimages ← readList preimageCountAdmitted readBlock
  pure {
    version, containerUuid, volumeUuid, originalName, destinationName, volumeOid, checkpoint
    sourceInode, sourceGeneration, originalParent, destinationParent, firstSibling, nextObjectId
    timestampNs, incompatibleFeatures, blockSize, blockCount, storeOffset, imageVolumeSerial
    imageSize, imageCreationTime, imageFileId, beforeSha, afterSha, referencesSha, payloadSha
    publicationSha, preimages }

/-- `EncodeNativeHardLink`. -/
def encodeNativeHardLink (data : UnicodeData) (proof : NativeHardLinkProof) : Option Bytes :=
  encodeProof NativeHardLinkProof.write (NativeHardLinkProof.valid data) proof

/-- `DecodeNativeHardLink`. -/
def decodeNativeHardLink (data : UnicodeData) (bytes : Bytes) : Option NativeHardLinkProof :=
  decodeProof 12 readNativeHardLink (NativeHardLinkProof.valid data) bytes

theorem codes_readShortText :
    Codes (readData 255) writeData (fun text => text.length ≤ 255) :=
  codes_readData (by norm_num)

theorem hardLinkTag_cases {version : UInt64} (h : version = 2 ∨ version = 3) :
    hardLinkTag version = hardLinkTag 2 ∨ hardLinkTag version = hardLinkTag 3 :=
  h.imp (congrArg hardLinkTag) (congrArg hardLinkTag)

/-- **Reader and writer form a codec.** -/
theorem codes_readNativeHardLink :
    Codes readNativeHardLink NativeHardLinkProof.write NativeHardLinkProof.Readable := by
  intro input proof rest
  simp only [readNativeHardLink, (codes_takeExactly 4).bind_iff, codes_readNumber.bind_iff,
    check_bind_iff, (codes_times codes_readNumber 16).bind_iff]
  constructor
  · rintro ⟨tag, r0, -, e0, -, version, r1, -, e1, ⟨hversion, htag⟩, numbers, r2, ⟨hnumbers, -⟩,
      e2, hrun⟩
    match numbers, hnumbers with
    | [volumeOid, checkpoint, sourceInode, sourceGeneration, originalParent, destinationParent,
        firstSibling, nextObjectId, timestampNs, incompatibleFeatures, blockSize, blockCount,
        storeOffset, serial, imageSize, creationTime], _ =>
      obtain ⟨fileId, r3, -, e3, hrun⟩ := codes_readFileId.bind_iff.mp hrun
      obtain ⟨texts, r4, ⟨htexts, hlengths⟩, e4, hrun⟩ :=
        (codes_times codes_readShortText 4).bind_iff.mp hrun
      match texts, htexts with
      | [containerUuid, volumeUuid, originalName, destinationName], _ =>
        obtain ⟨digests, r5, ⟨hdigests, -⟩, e5, hrun⟩ :=
          (codes_times codes_readDigest 5).bind_iff.mp hrun
        match digests, hdigests with
        | [before, after, references, payload, publication], _ =>
          obtain ⟨preimages, r6, ⟨hcount, -⟩, e6, hrun⟩ := codes_readPreimages.bind_iff.mp hrun
          obtain ⟨rfl, rfl⟩ := Prod.mk.inj (run_pure_iff.mp hrun)
          refine ⟨⟨hversion, hlengths, hcount⟩, ?_⟩
          rw [e0, e1, e2, e3, e4, e5, e6, htag]
          simp only [NativeHardLinkProof.write, List.append_assoc]
          rfl
  · rintro ⟨⟨hversion, hlengths, hcount⟩, hinput⟩
    simp only [NativeHardLinkProof.write, List.append_assoc] at hinput
    refine ⟨hardLinkTag proof.version, _, rfl, hinput, hardLinkTag_cases hversion, proof.version, _,
      trivial, rfl, ⟨hversion, rfl⟩, proof.numbers, _, ⟨rfl, fun _ _ => trivial⟩, rfl, ?_⟩
    refine codes_readFileId.bind_iff.mpr ⟨_, _, trivial, rfl, ?_⟩
    refine (codes_times codes_readShortText 4).bind_iff.mpr
      ⟨proof.texts, _, ⟨rfl, hlengths⟩, rfl, ?_⟩
    refine (codes_times codes_readDigest 5).bind_iff.mpr
      ⟨proof.digests, _, ⟨rfl, fun _ _ => trivial⟩, rfl, ?_⟩
    exact codes_readPreimages.bind_iff.mpr ⟨_, _, ⟨hcount, fun _ _ => trivial⟩, rfl, rfl⟩

theorem length_of_nameAdmitted {data : UnicodeData} {proof : NativeHardLinkProof} {text : Bytes}
    (h : proof.nameAdmitted data text = true) : text.length ≤ 255 := by
  unfold NativeHardLinkProof.nameAdmitted at h
  match hdecode : Names.decode data text
      (ApfsNamePolicy.fromIncompatibleFeatures proof.incompatibleFeatures.toNat) with
  | .ok name => exact (decode_spec hdecode).1.length_le
  | .error _ =>
    rw [hdecode] at h
    cases h

/-- **Decoder and encoder are inverse to each other.** -/
theorem decodeNativeHardLink_iff {data : UnicodeData} {proof : NativeHardLinkProof} {bytes : Bytes} :
    decodeNativeHardLink data bytes = some proof ↔ encodeNativeHardLink data proof = some bytes := by
  refine decodeProof_iff codes_readNativeHardLink (fun proof hvalid => ?_) fun proof => ?_
  · simp only [NativeHardLinkProof.valid, Bool.and_eq_true, Bool.or_eq_true, beq_iff_eq,
      decide_eq_true_eq, bne_iff_ne] at hvalid
    have hversion : proof.version = 2 ∨ proof.version = 3 := by tauto
    have hcontainer : uuid proof.containerUuid = true := by tauto
    have hvolume : uuid proof.volumeUuid = true := by tauto
    have horiginal : proof.nameAdmitted data proof.originalName = true := by tauto
    have hdestination : proof.nameAdmitted data proof.destinationName = true := by tauto
    have hsome : proof.preimages ≠ [] := by tauto
    have hmost : proof.preimages.length ≤ maxPreimages := by tauto
    refine ⟨hversion, ?_, preimageCountAdmitted_of hsome hmost⟩
    simp only [NativeHardLinkProof.texts, List.forall_mem_cons, List.not_mem_nil, false_imp_iff,
      implies_true, and_true]
    exact ⟨(length_of_uuid hcontainer).trans_le (by norm_num),
      (length_of_uuid hvolume).trans_le (by norm_num), length_of_nameAdmitted horiginal,
      length_of_nameAdmitted hdestination⟩
  · rw [NativeHardLinkProof.write, List.length_append, List.length_append, length_writeNumber]
    show 12 ≤ 4 + (8 + _)
    omega

end Recovery
end ApfsAccess
