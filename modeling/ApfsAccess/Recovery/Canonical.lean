import ApfsAccess.Recovery.CloneRange
import ApfsAccess.Recovery.HardLink
import ApfsAccess.Recovery.SparseV2

/-!
# The recovery proofs have canonical encodings

A proof is what recovery replays, so it has to come back as it was written, and two byte strings must
not stand for one proof.

* `recovery_proofs_canonical` : both directions, for the three kinds of proof.
-/

namespace ApfsAccess
namespace Recovery

open Format Names

/-- Every valid proof that fits comes back, and every byte string that decodes is the encoding of what
it decodes to. -/
def Canonical {α : Type} (write : α → Bytes) (valid : α → Bool) (encode : α → Option Bytes)
    (decode : Bytes → Option α) : Prop :=
  (∀ proof, valid proof = true → (write proof).length ≤ maxProofBytes →
    ∃ bytes, encode proof = some bytes ∧ decode bytes = some proof) ∧
  ∀ bytes proof, decode bytes = some proof → encode proof = some bytes

/-- Encoder and decoder that are inverse to each other are canonical. -/
theorem canonical_of_iff {α : Type} {write : α → Bytes} {valid : α → Bool}
    {decode : Bytes → Option α}
    (h : ∀ {proof bytes}, decode bytes = some proof ↔ encodeProof write valid proof = some bytes) :
    Canonical write valid (encodeProof write valid) decode := by
  refine ⟨fun proof hvalid hlength => ?_, fun bytes proof hdecode => h.mp hdecode⟩
  have hencode : encodeProof write valid proof = some (write proof) :=
    encodeProof_eq_some_iff.mpr ⟨hvalid, hlength, rfl⟩
  exact ⟨write proof, hencode, h.mpr hencode⟩

/-- **The recovery proof codecs are canonical.** -/
theorem recovery_proofs_canonical (data : UnicodeData) :
    Canonical NativeCloneRangeProof.write NativeCloneRangeProof.valid encodeNativeCloneRange
        decodeNativeCloneRange ∧
      Canonical NativeHardLinkProof.write (NativeHardLinkProof.valid data)
        (encodeNativeHardLink data) (decodeNativeHardLink data) ∧
      Canonical NativeSparseV2Proof.write NativeSparseV2Proof.valid encodeNativeSparseV2
        decodeNativeSparseV2 :=
  ⟨canonical_of_iff decodeNativeCloneRange_iff, canonical_of_iff decodeNativeHardLink_iff,
    canonical_of_iff decodeNativeSparseV2_iff⟩

/-- A hard link that its validity check accepts, with a name of 255 bytes. -/
def longNameProof : NativeHardLinkProof where
  version := 2
  containerUuid := List.replicate 32 0x61
  volumeUuid := List.replicate 32 0x62
  originalName := [0x61]
  destinationName := List.replicate 255 0x62
  volumeOid := 1026
  checkpoint := 9
  sourceInode := 20
  sourceGeneration := 3
  originalParent := 2
  destinationParent := 2
  firstSibling := 30
  nextObjectId := 32
  timestampNs := 1
  incompatibleFeatures := 0
  blockSize := 4096
  blockCount := 16
  storeOffset := 0
  imageVolumeSerial := 0
  imageSize := 65536
  imageCreationTime := 1
  imageFileId := List.Vector.replicate 16 1
  beforeSha := List.Vector.replicate 32 1
  afterSha := List.Vector.replicate 32 1
  referencesSha := List.Vector.replicate 32 1
  payloadSha := List.Vector.replicate 32 1
  publicationSha := List.Vector.replicate 32 1
  preimages := [⟨0, List.Vector.replicate 4096 0⟩]

/-- The proof with the longest name there is is valid, and its encoding fits. -/
example : longNameProof.valid latinData = true ∧ longNameProof.write.length ≤ maxProofBytes := by
  decide +kernel

end Recovery
end ApfsAccess
