import ApfsAccess.Recovery.Fields

/-!
# Sparse proofs of the second kind

* `decodeNativeSparseV2_iff` : the decoder reads the proofs that the encoder writes, and nothing else.
-/

namespace ApfsAccess
namespace Recovery

open Cursor Format

/-- `NativeSparseRequest`.  The action is its underlying value: the decoder casts whatever the bytes
hold. -/
structure NativeSparseRequest where
  action : UInt64
  sparse : Bool
  offset : UInt64
  length : UInt64
  timestampNs : UInt64
deriving DecidableEq

/-- `NativeSparseAction::SetSparse`. -/
def setSparse : UInt64 := 1

/-- `NativeSparseAction::ZeroRange`. -/
def zeroRange : UInt64 := 2

/-- `NativeSparseV2Proof`, with the fields of the proof it extends. -/
structure NativeSparseV2Proof where
  volumeOid : UInt64
  checkpoint : UInt64
  inode : UInt64
  generation : UInt64
  storeOffset : UInt64
  blockCount : UInt64
  imageVolumeSerial : UInt64
  imageSize : UInt64
  imageCreationTime : UInt64
  imageFileId : List.Vector UInt8 16
  containerUuid : Bytes
  volumeUuid : Bytes
  pathUtf8 : Bytes
  request : NativeSparseRequest
  beforeSha : Digest
  afterSha : Digest
  beforeRefsSha : Digest
  afterRefsSha : Digest
  payloadSha : Digest
  publicationSha : Digest
  preimages : List Block
  sourceBlocks : List Block
  bodyVersion : UInt64
deriving DecidableEq

/-- `Magic`, which reads `NSP2`. -/
def sparseV2Magic : UInt64 := 0x3250534e

/-- `NativeSparseRequestIsValid`. -/
def nativeSparseRequestIsValid (request : NativeSparseRequest) : Bool :=
  request.timestampNs != 0 &&
    if request.action = setSparse then request.offset == 0 && request.length == 0
    else request.action == zeroRange && !request.sparse && decide (request.offset ≤ int64Max) &&
      decide (request.length ≤ int64Max - request.offset)

/-- The loop over the source blocks: none of them is block 0, and they follow in order. -/
def sourcesOrdered (blockCount : UInt64) : Option UInt64 → List Block → Bool
  | _, [] => true
  | prior, source :: rest =>
    source.physicalBlock != 0 && decide (source.physicalBlock < blockCount) &&
      (match prior with
        | none => true
        | some prior => decide (prior < source.physicalBlock)) &&
      sourcesOrdered blockCount (some source.physicalBlock) rest

namespace NativeSparseV2Proof

/-- The numbers, in their order. -/
def numbers (proof : NativeSparseV2Proof) : List UInt64 :=
  [proof.volumeOid, proof.checkpoint, proof.inode, proof.generation, proof.storeOffset,
    proof.blockCount, proof.imageVolumeSerial, proof.imageSize, proof.imageCreationTime,
    proof.request.action, if proof.request.sparse then 1 else 0, proof.request.offset,
    proof.request.length, proof.request.timestampNs]

/-- The texts, in their order. -/
def texts (proof : NativeSparseV2Proof) : List Bytes :=
  [proof.containerUuid, proof.volumeUuid, proof.pathUtf8]

/-- The digests, in their order. -/
def digests (proof : NativeSparseV2Proof) : List Digest :=
  [proof.beforeSha, proof.afterSha, proof.beforeRefsSha, proof.afterRefsSha, proof.payloadSha,
    proof.publicationSha]

/-- `Valid`. -/
def valid (proof : NativeSparseV2Proof) : Bool :=
  (proof.bodyVersion == 2 || proof.bodyVersion == 3) && proof.volumeOid != 0 &&
    proof.checkpoint != 0 && proof.checkpoint != 0xffffffffffffffff && proof.inode != 0 &&
    proof.generation != 0 && proof.storeOffset == 0 && proof.blockCount != 0 &&
    decide (proof.blockCount ≤ int64Max / 4096) && proof.imageSize == proof.blockCount * 4096 &&
    nonzero proof.imageFileId && uuid proof.containerUuid && uuid proof.volumeUuid &&
    proof.pathUtf8 != [] && decide (proof.pathUtf8.length ≤ 4096) && !proof.pathUtf8.contains 0 &&
    nativeSparseRequestIsValid proof.request && proof.preimages != [] &&
    decide (proof.preimages.length ≤ maxPreimages) && decide (proof.sourceBlocks.length ≤ 2) &&
    decide (proof.preimages.length + proof.sourceBlocks.length ≤ maxPreimages) &&
    proof.digests.all nonzero && preimagesOrdered proof.blockCount none proof.preimages &&
    sourcesOrdered proof.blockCount none proof.sourceBlocks

/-- The bytes that `EncodeNativeSparseV2` appends. -/
def write (proof : NativeSparseV2Proof) : Bytes :=
  writeNumber sparseV2Magic ++ (writeNumber proof.bodyVersion ++
    (proof.numbers.flatMap writeNumber ++ (writeData proof.imageFileId.val ++
    (proof.texts.flatMap writeData ++ (proof.digests.flatMap writeDigest ++
    (writeList Block.write proof.preimages ++ writeList Block.write proof.sourceBlocks))))))

/-- What the reader asks of a proof before the validity check. -/
def Readable (proof : NativeSparseV2Proof) : Prop :=
  (proof.bodyVersion = 2 ∨ proof.bodyVersion = 3) ∧ (∀ text ∈ proof.texts, text.length ≤ 4096) ∧
    preimageCountAdmitted proof.preimages.length = true ∧ proof.sourceBlocks.length ≤ 2

end NativeSparseV2Proof

/-- The fields as `DecodeNativeSparseV2` reads them. -/
def readNativeSparseV2 : Reader UInt8 NativeSparseV2Proof := do
  let magic ← readNumber
  check (magic = sparseV2Magic)
  let bodyVersion ← readNumber
  check (bodyVersion = 2 ∨ bodyVersion = 3)
  let [volumeOid, checkpoint, inode, generation, storeOffset, blockCount, imageVolumeSerial,
    imageSize, imageCreationTime, action, sparse, offset, length, timestampNs] ←
    times 14 readNumber | failure
  check (sparse ≤ 1)
  let imageFileId ← readArray 16
  let [containerUuid, volumeUuid, pathUtf8] ← times 3 (readData 4096) | failure
  let [beforeSha, afterSha, beforeRefsSha, afterRefsSha, payloadSha, publicationSha] ←
    times 6 (readArray 32) | failure
  let preimages ← readList preimageCountAdmitted readBlock
  let sourceBlocks ← readList (fun count => decide (count ≤ 2)) readBlock
  pure {
    volumeOid, checkpoint, inode, generation, storeOffset, blockCount, imageVolumeSerial, imageSize
    imageCreationTime, imageFileId, containerUuid, volumeUuid, pathUtf8
    request := { action, sparse := sparse != 0, offset, length, timestampNs }
    beforeSha, afterSha, beforeRefsSha, afterRefsSha, payloadSha, publicationSha, preimages
    sourceBlocks, bodyVersion }

/-- `EncodeNativeSparseV2`. -/
def encodeNativeSparseV2 (proof : NativeSparseV2Proof) : Option Bytes :=
  encodeProof NativeSparseV2Proof.write NativeSparseV2Proof.valid proof

/-- `DecodeNativeSparseV2`. -/
def decodeNativeSparseV2 (bytes : Bytes) : Option NativeSparseV2Proof :=
  decodeProof 16 readNativeSparseV2 NativeSparseV2Proof.valid bytes

theorem codes_readSources :
    Codes (readList (fun count => decide (count ≤ 2)) readBlock) (writeList Block.write)
      (fun blocks => decide (blocks.length ≤ 2) = true ∧ ∀ block ∈ blocks, True) :=
  codes_readList (fun count h => lt_of_le_of_lt (of_decide_eq_true h) (by norm_num)) codes_readBlock

/-- A flag is written as the number it is read from. -/
theorem flag_of_le_one {sparse : UInt64} (h : sparse ≤ 1) :
    (if (sparse != 0) = true then 1 else 0) = sparse := by
  rw [UInt64.le_iff_toNat_le] at h
  change sparse.toNat ≤ 1 at h
  split_ifs with hset
  · have hne : sparse.toNat ≠ 0 := fun hzero => bne_iff_ne.mp hset (UInt64.toNat_inj.mp hzero)
    apply UInt64.toNat_inj.mp
    change 1 = sparse.toNat
    omega
  · have hzero : sparse = 0 := by
      by_contra hne
      exact hset (bne_iff_ne.mpr hne)
    exact hzero.symm

/-- **Reader and writer form a codec.** -/
theorem codes_readNativeSparseV2 :
    Codes readNativeSparseV2 NativeSparseV2Proof.write NativeSparseV2Proof.Readable := by
  intro input proof rest
  simp only [readNativeSparseV2, codes_readNumber.bind_iff, check_bind_iff,
    (codes_times codes_readNumber 14).bind_iff]
  constructor
  · rintro ⟨magic, r0, -, e0, rfl, version, r1, -, e1, hversion, numbers, r2, ⟨hnumbers, -⟩, e2, hrun⟩
    match numbers, hnumbers with
    | [volumeOid, checkpoint, inode, generation, storeOffset, blockCount, serial, imageSize,
        creationTime, action, sparse, offset, length, timestampNs], _ =>
      obtain ⟨hsparse, hrun⟩ := check_bind_iff.mp hrun
      obtain ⟨fileId, r3, -, e3, hrun⟩ := codes_readFileId.bind_iff.mp hrun
      obtain ⟨texts, r4, ⟨htexts, hlengths⟩, e4, hrun⟩ :=
        (codes_times codes_readText 3).bind_iff.mp hrun
      match texts, htexts with
      | [containerUuid, volumeUuid, path], _ =>
        obtain ⟨digests, r5, ⟨hdigests, -⟩, e5, hrun⟩ :=
          (codes_times codes_readDigest 6).bind_iff.mp hrun
        match digests, hdigests with
        | [before, after, beforeRefs, afterRefs, payload, publication], _ =>
          obtain ⟨preimages, r6, ⟨hcount, -⟩, e6, hrun⟩ := codes_readPreimages.bind_iff.mp hrun
          obtain ⟨sources, r7, ⟨hsources, -⟩, e7, hrun⟩ := codes_readSources.bind_iff.mp hrun
          obtain ⟨rfl, rfl⟩ := Prod.mk.inj (run_pure_iff.mp hrun)
          refine ⟨⟨hversion, hlengths, hcount, of_decide_eq_true hsources⟩, ?_⟩
          rw [e0, e1, e2, e3, e4, e5, e6, e7]
          simp only [NativeSparseV2Proof.write, NativeSparseV2Proof.numbers, flag_of_le_one hsparse,
            List.append_assoc]
          rfl
  · rintro ⟨⟨hversion, hlengths, hcount, hsources⟩, hinput⟩
    simp only [NativeSparseV2Proof.write, List.append_assoc] at hinput
    have hflag : (if proof.request.sparse then (1 : UInt64) else 0) ≤ 1 := by
      cases proof.request.sparse <;> decide
    have hrequest : ((if proof.request.sparse then (1 : UInt64) else 0) != 0) =
        proof.request.sparse := by
      cases proof.request.sparse <;> rfl
    refine ⟨_, _, trivial, hinput, rfl, _, _, trivial, rfl, hversion, proof.numbers, _,
      ⟨rfl, fun _ _ => trivial⟩, rfl, check_bind_iff.mpr ⟨hflag, ?_⟩⟩
    refine codes_readFileId.bind_iff.mpr ⟨_, _, trivial, rfl, ?_⟩
    refine (codes_times codes_readText 3).bind_iff.mpr ⟨proof.texts, _, ⟨rfl, hlengths⟩, rfl, ?_⟩
    refine (codes_times codes_readDigest 6).bind_iff.mpr
      ⟨proof.digests, _, ⟨rfl, fun _ _ => trivial⟩, rfl, ?_⟩
    refine codes_readPreimages.bind_iff.mpr ⟨_, _, ⟨hcount, fun _ _ => trivial⟩, rfl, ?_⟩
    refine codes_readSources.bind_iff.mpr
      ⟨_, _, ⟨decide_eq_true hsources, fun _ _ => trivial⟩, rfl, ?_⟩
    rw [hrequest]
    rfl

/-- **Decoder and encoder are inverse to each other.** -/
theorem decodeNativeSparseV2_iff {proof : NativeSparseV2Proof} {bytes : Bytes} :
    decodeNativeSparseV2 bytes = some proof ↔ encodeNativeSparseV2 proof = some bytes := by
  refine decodeProof_iff codes_readNativeSparseV2 (fun proof hvalid => ?_) fun proof => ?_
  · simp only [NativeSparseV2Proof.valid, Bool.and_eq_true, Bool.or_eq_true, beq_iff_eq,
      decide_eq_true_eq, bne_iff_ne] at hvalid
    have hversion : proof.bodyVersion = 2 ∨ proof.bodyVersion = 3 := by tauto
    have hcontainer : uuid proof.containerUuid = true := by tauto
    have hvolume : uuid proof.volumeUuid = true := by tauto
    have hpath : proof.pathUtf8.length ≤ 4096 := by tauto
    have hsome : proof.preimages ≠ [] := by tauto
    have hmost : proof.preimages.length ≤ maxPreimages := by tauto
    have hsources : proof.sourceBlocks.length ≤ 2 := by tauto
    refine ⟨hversion, ?_, preimageCountAdmitted_of hsome hmost, hsources⟩
    simp only [NativeSparseV2Proof.texts, List.forall_mem_cons, List.not_mem_nil, false_imp_iff,
      implies_true, and_true]
    exact ⟨(length_of_uuid hcontainer).trans_le (by norm_num),
      (length_of_uuid hvolume).trans_le (by norm_num), hpath⟩
  · rw [NativeSparseV2Proof.write, List.length_append, List.length_append, length_writeNumber,
      length_writeNumber]
    omega

end Recovery
end ApfsAccess
