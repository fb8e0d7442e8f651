import ApfsAccess.Recovery.Fields

/-!
# Clone-range proofs

* `decodeNativeCloneRange_iff` : the decoder reads the proofs that the encoder writes, and nothing else.
-/

namespace ApfsAccess
namespace Recovery

open Cursor Format

/-- `NativeCloneRangeRequest`. -/
structure NativeCloneRangeRequest where
  sourceOffset : UInt64
  targetOffset : UInt64
  length : UInt64
  timestampNs : UInt64
deriving DecidableEq

/-- `NativeCloneRangeProof`. -/
structure NativeCloneRangeProof where
  version : UInt64
  volumeOid : UInt64
  checkpoint : UInt64
  sourceInode : UInt64
  targetInode : UInt64
  sourceGeneration : UInt64
  targetGeneration : UInt64
  blockCount : UInt64
  imageVolumeSerial : UInt64
  imageSize : UInt64
  imageCreationTime : UInt64
  imageFileId : List.Vector UInt8 16
  containerUuid : Bytes
  volumeUuid : Bytes
  sourcePathUtf8 : Bytes
  targetPathUtf8 : Bytes
  request : NativeCloneRangeRequest
  beforeSha : Digest
  afterSha : Digest
  beforeRefsSha : Digest
  afterRefsSha : Digest
  payloadSha : Digest
  publicationSha : Digest
  preimages : List Block
deriving DecidableEq

/-- `Magic1`, which reads `NCR1`. -/
def cloneRangeMagic1 : UInt64 := 0x3152434e

/-- `Magic2`, which reads `NCR2`. -/
def cloneRangeMagic2 : UInt64 := 0x3252434e

/-- `Path`. -/
def nativePath (text : Bytes) : Bool :=
  text != [] && text.head? == some 0x5c && decide (text.length ≤ 4096) && !text.contains 0

/-- `NativeCloneRangeRequestIsValid`. -/
def nativeCloneRangeRequestIsValid (request : NativeCloneRangeRequest) : Bool :=
  request.timestampNs != 0 && request.length != 0 && decide (request.length < 0x100000000) &&
    request.sourceOffset % 4096 == 0 && request.targetOffset % 4096 == 0 &&
    request.length % 4096 == 0 &&
    decide (request.sourceOffset ≤ int64Max) &&
    decide (request.length ≤ int64Max - request.sourceOffset) &&
    decide (request.targetOffset ≤ int64Max) &&
    decide (request.length ≤ int64Max - request.targetOffset)

namespace NativeCloneRangeProof

/-- The digests, in their order. -/
def digests (proof : NativeCloneRangeProof) : List Digest :=
  [proof.beforeSha, proof.afterSha, proof.beforeRefsSha, proof.afterRefsSha, proof.payloadSha,
    proof.publicationSha]

/-- `Valid`. -/
def valid (proof : NativeCloneRangeProof) : Bool :=
  let mask : UInt64 := 0x0fffffffffffffff
  (proof.version == 1 || proof.version == 2) && proof.volumeOid != 0 && proof.checkpoint != 0 &&
    proof.checkpoint != 0xffffffffffffffff && proof.sourceInode != 0 && proof.targetInode != 0 &&
    proof.sourceInode != proof.targetInode && decide (proof.sourceInode ≤ mask) &&
    decide (proof.targetInode ≤ mask) && proof.sourceGeneration != 0 &&
    proof.targetGeneration != 0 && decide (proof.sourceGeneration ≤ proof.checkpoint) &&
    decide (proof.targetGeneration ≤ proof.checkpoint) && proof.blockCount != 0 &&
    decide (proof.blockCount ≤ int64Max / 4096) && proof.imageSize == proof.blockCount * 4096 &&
    nonzero proof.imageFileId && uuid proof.containerUuid && uuid proof.volumeUuid &&
    nativePath proof.sourcePathUtf8 && nativePath proof.targetPathUtf8 &&
    nativeCloneRangeRequestIsValid proof.request && proof.preimages != [] &&
    decide (proof.preimages.length ≤ maxPreimages) && proof.digests.all nonzero &&
    preimagesOrdered proof.blockCount none proof.preimages

/-- The numbers, in their order. -/
def numbers (proof : NativeCloneRangeProof) : List UInt64 :=
  [proof.volumeOid, proof.checkpoint, proof.sourceInode, proof.targetInode, proof.sourceGeneration,
    proof.targetGeneration, proof.blockCount, proof.imageVolumeSerial, proof.imageSize,
    proof.imageCreationTime, proof.request.sourceOffset, proof.request.targetOffset,
    proof.request.length, proof.request.timestampNs]

/-- The texts, in their order. -/
def texts (proof : NativeCloneRangeProof) : List Bytes :=
  [proof.containerUuid, proof.volumeUuid, proof.sourcePathUtf8, proof.targetPathUtf8]

/-- The bytes that `EncodeNativeCloneRange` appends. -/
def write (proof : NativeCloneRangeProof) : Bytes :=
  writeNumber (if proof.version = 1 then cloneRangeMagic1 else cloneRangeMagic2) ++
    (writeNumber proof.version ++ (proof.numbers.flatMap writeNumber ++
    (writeData proof.imageFileId.val ++ (proof.texts.flatMap writeData ++
    (proof.digests.flatMap writeDigest ++ writeList Block.write proof.preimages)))))

end NativeCloneRangeProof

/-- The fields as `DecodeNativeCloneRange` reads them. -/
def readNativeCloneRange : Reader UInt8 NativeCloneRangeProof := do
  let magic ← readNumber
  let version ← readNumber
  check ((magic = cloneRangeMagic1 ∧ version = 1) ∨ (magic = cloneRangeMagic2 ∧ version = 2))
  let [volumeOid, checkpoint, sourceInode, targetInode, sourceGeneration, targetGeneration,
    blockCount, imageVolumeSerial, imageSize, imageCreationTime, sourceOffset, targetOffset, length,
    timestampNs] ← times 14 readNumber | failure
  let imageFileId ← readArray 16
  let [containerUuid, volumeUuid, sourcePathUtf8, targetPathUtf8] ← times 4 (readData 4096) | failure
  let [beforeSha, afterSha, beforeRefsSha, afterRefsSha, payloadSha, publicationSha] ←
    times 6 (readArray 32) | failure
  let preimages ← readList preimageCountAdmitted readBlock
  pure {
    version, volumeOid, checkpoint, sourceInode, targetInode, sourceGeneration, targetGeneration
    blockCount, imageVolumeSerial, imageSize, imageCreationTime, imageFileId, containerUuid
    volumeUuid, sourcePathUtf8, targetPathUtf8
    request := { sourceOffset, targetOffset, length, timestampNs }
    beforeSha, afterSha, beforeRefsSha, afterRefsSha, payloadSha, publicationSha, preimages }

/-- `EncodeNativeCloneRange`; nothing stands for the empty vector of a proof that is refused. -/
def encodeNativeCloneRange (proof : NativeCloneRangeProof) : Option Bytes :=
  encodeProof NativeCloneRangeProof.write NativeCloneRangeProof.valid proof

/-- `DecodeNativeCloneRange`. -/
def decodeNativeCloneRange (bytes : Bytes) : Option NativeCloneRangeProof :=
  decodeProof 16 readNativeCloneRange NativeCloneRangeProof.valid bytes

/-- What the reader asks of a proof before the validity check. -/
def NativeCloneRangeProof.Readable (proof : NativeCloneRangeProof) : Prop :=
  (proof.version = 1 ∨ proof.version = 2) ∧ (∀ text ∈ proof.texts, text.length ≤ 4096) ∧
    preimageCountAdmitted proof.preimages.length = true

theorem length_of_nativePath {text : Bytes} (h : nativePath text = true) : text.length ≤ 4096 := by
  simp only [nativePath, Bool.and_eq_true, decide_eq_true_eq] at h
  exact h.1.2

/-- **Reader and writer form a codec.** -/
theorem codes_readNativeCloneRange :
    Codes readNativeCloneRange NativeCloneRangeProof.write NativeCloneRangeProof.Readable := by
  intro input proof rest
  simp only [readNativeCloneRange, codes_readNumber.bind_iff, check_bind_iff,
    (codes_times codes_readNumber 14).bind_iff]
  constructor
  · rintro ⟨magic, r0, -, e0, version, r1, -, e1, hversion, numbers, r2, ⟨hnumbers, -⟩, e2, hrun⟩
    match numbers, hnumbers with
    | [volumeOid, checkpoint, sourceInode, targetInode, sourceGeneration, targetGeneration, blockCount,
        serial, imageSize, creationTime, sourceOffset, targetOffset, length, timestampNs], _ =>
      obtain ⟨fileId, r3, -, e3, hrun⟩ := codes_readFileId.bind_iff.mp hrun
      obtain ⟨texts, r4, ⟨htexts, hlengths⟩, e4, hrun⟩ :=
        (codes_times codes_readText 4).bind_iff.mp hrun
      match texts, htexts with
      | [containerUuid, volumeUuid, sourcePath, targetPath], _ =>
        obtain ⟨digests, r5, ⟨hdigests, -⟩, e5, hrun⟩ :=
          (codes_times codes_readDigest 6).bind_iff.mp hrun
        match digests, hdigests with
        | [before, after, beforeRefs, afterRefs, payload, publication], _ =>
          obtain ⟨preimages, r6, ⟨hcount, -⟩, e6, hrun⟩ := codes_readPreimages.bind_iff.mp hrun
          obtain ⟨rfl, rfl⟩ := Prod.mk.inj (run_pure_iff.mp hrun)
          have hmagic : magic = if version = 1 then cloneRangeMagic1 else cloneRangeMagic2 := by
            rcases hversion with ⟨hfirst, hone⟩ | ⟨hsecond, htwo⟩
            · rw [hfirst, if_pos hone]
            · rw [hsecond, htwo]
              rfl
          refine ⟨⟨hversion.imp And.right And.right, hlengths, hcount⟩, ?_⟩
          rw [e0, e1, e2, e3, e4, e5, e6, hmagic]
          simp only [NativeCloneRangeProof.write, List.append_assoc]
          rfl
  · rintro ⟨⟨hversion, hlengths, hcount⟩, hinput⟩
    simp only [NativeCloneRangeProof.write, List.append_assoc] at hinput
    have hmagic : ((if proof.version = 1 then cloneRangeMagic1 else cloneRangeMagic2) =
          cloneRangeMagic1 ∧ proof.version = 1) ∨
        ((if proof.version = 1 then cloneRangeMagic1 else cloneRangeMagic2) =
          cloneRangeMagic2 ∧ proof.version = 2) := by
      rcases hversion with hone | htwo
      · exact Or.inl ⟨if_pos hone, hone⟩
      · exact Or.inr ⟨if_neg (by rw [htwo]; decide), htwo⟩
    refine ⟨_, _, trivial, hinput, _, _, trivial, rfl, hmagic, proof.numbers, _,
      ⟨rfl, fun _ _ => trivial⟩, rfl, ?_⟩
    refine codes_readFileId.bind_iff.mpr ⟨_, _, trivial, rfl, ?_⟩
    refine (codes_times codes_readText 4).bind_iff.mpr ⟨proof.texts, _, ⟨rfl, hlengths⟩, rfl, ?_⟩
    refine (codes_times codes_readDigest 6).bind_iff.mpr
      ⟨proof.digests, _, ⟨rfl, fun _ _ => trivial⟩, rfl, ?_⟩
    exact codes_readPreimages.bind_iff.mpr ⟨_, _, ⟨hcount, fun _ _ => trivial⟩, rfl, rfl⟩

/-- **Decoder and encoder are inverse to each other.** -/
theorem decodeNativeCloneRange_iff {proof : NativeCloneRangeProof} {bytes : Bytes} :
    decodeNativeCloneRange bytes = some proof ↔ encodeNativeCloneRange proof = some bytes := by
  refine decodeProof_iff codes_readNativeCloneRange (fun proof hvalid => ?_) fun proof => ?_
  · simp only [NativeCloneRangeProof.valid, Bool.and_eq_true, Bool.or_eq_true, beq_iff_eq,
      decide_eq_true_eq, bne_iff_ne] at hvalid
    have hversion : proof.version = 1 ∨ proof.version = 2 := by tauto
    have hcontainer : uuid proof.containerUuid = true := by tauto
    have hvolume : uuid proof.volumeUuid = true := by tauto
    have hsource : nativePath proof.sourcePathUtf8 = true := by tauto
    have htarget : nativePath proof.targetPathUtf8 = true := by tauto
    have hsome : proof.preimages ≠ [] := by tauto
    have hmost : proof.preimages.length ≤ maxPreimages := by tauto
    refine ⟨hversion, ?_, preimageCountAdmitted_of hsome hmost⟩
    simp only [NativeCloneRangeProof.texts, List.forall_mem_cons, List.not_mem_nil, false_imp_iff,
      implies_true, and_true]
    exact ⟨(length_of_uuid hcontainer).trans_le (by norm_num),
      (length_of_uuid hvolume).trans_le (by norm_num), length_of_nativePath hsource,
      length_of_nativePath htarget⟩
  · rw [NativeCloneRangeProof.write, List.length_append, List.length_append, length_writeNumber,
      length_writeNumber]
    omega

end Recovery
end ApfsAccess
