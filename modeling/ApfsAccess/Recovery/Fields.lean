import ApfsAccess.Format.Codec
import ApfsAccess.Library.CanonicalCodec

/-!
# The fields of a recovery proof

The proofs that recovery replays are written field by field: numbers of eight bytes, data behind its
length, and lists behind their count.  The clone-range, the sparse and the hard-link proofs share the
fields, the digests and the blocks here.
-/

namespace ApfsAccess
namespace Recovery

open ByteBuffer Cursor Format

/-! ## Fields -/

/-- `Number`. -/
def writeNumber (value : UInt64) : Bytes := leBytes 8 value.toNat

/-- `Data`. -/
def writeData (value : Bytes) : Bytes := writeNumber (UInt64.ofNat value.length) ++ value

/-- `number`. -/
def readNumber : Reader UInt8 UInt64 := do
  let value ← takeLE 8
  pure (UInt64.ofNat value)

/-- `data`, of `maximum` bytes at most. -/
def readData (maximum : ℕ) : Reader UInt8 Bytes := do
  let count ← readNumber
  check (count.toNat ≤ maximum)
  takeExactly count.toNat

/-- `data` of exactly `n` bytes. -/
def readArray (n : ℕ) : Reader UInt8 (List.Vector UInt8 n) := do
  let value ← readData n
  if h : value.length = n then pure ⟨value, h⟩ else failure

/-- A list behind its count, which has to be one the proof may have. -/
def readList {α : Type} (admitted : ℕ → Bool) (item : Reader UInt8 α) : Reader UInt8 (List α) := do
  let count ← readNumber
  check (admitted count.toNat = true)
  times count.toNat item

/-- A list behind its count. -/
def writeList {α : Type} (item : α → Bytes) (values : List α) : Bytes :=
  writeNumber (UInt64.ofNat values.length) ++ values.flatMap item

@[simp] theorem length_writeNumber (value : UInt64) : (writeNumber value).length = 8 :=
  length_leBytes 8 value.toNat

theorem codes_readNumber : Codes readNumber writeNumber (fun _ => True) := by
  intro input value rest
  rw [readNumber, (codes_takeLE 8).bind_iff]
  constructor
  · rintro ⟨taken, left, hlt, hinput, hrun⟩
    obtain ⟨rfl, rfl⟩ := Prod.mk.inj (run_pure_iff.mp hrun)
    have hvalue : (UInt64.ofNat taken).toNat = taken :=
      UInt64.toNat_ofNat_of_lt' (by norm_num at hlt ⊢; exact hlt)
    exact ⟨trivial, by rw [writeNumber, hvalue, hinput]⟩
  · rintro ⟨-, hinput⟩
    refine ⟨value.toNat, rest, ?_, hinput, ?_⟩
    · norm_num
      exact value.toNat_lt
    · rw [UInt64.ofNat_toNat]
      rfl

theorem codes_readData {maximum : ℕ} (hmaximum : maximum < 2 ^ 64) :
    Codes (readData maximum) writeData (fun value => value.length ≤ maximum) := by
  intro input value rest
  rw [readData, codes_readNumber.bind_iff]
  constructor
  · rintro ⟨count, left, -, hinput, hrun⟩
    obtain ⟨hcount, htake⟩ := check_bind_iff.mp hrun
    obtain ⟨hlength, hleft⟩ := (codes_takeExactly count.toNat left value rest).mp htake
    refine ⟨hlength.trans_le hcount, ?_⟩
    rw [hinput, hleft, writeData, hlength, UInt64.ofNat_toNat, List.append_assoc]
    rfl
  · rintro ⟨hlength, hinput⟩
    have hcount := UInt64.toNat_ofNat_of_lt' (lt_of_le_of_lt hlength hmaximum)
    rw [writeData, List.append_assoc] at hinput
    refine ⟨UInt64.ofNat value.length, value ++ rest, trivial, hinput,
      check_bind_iff.mpr ⟨hcount.trans_le hlength, ?_⟩⟩
    exact (codes_takeExactly _ _ value rest).mpr ⟨hcount.symm, rfl⟩

theorem codes_readArray {n : ℕ} (hn : n < 2 ^ 64) :
    Codes (readArray n) (fun value => writeData value.val) (fun _ => True) := by
  intro input value rest
  rw [readArray, (codes_readData hn).bind_iff]
  constructor
  · rintro ⟨taken, left, -, hinput, hrun⟩
    by_cases hlength : taken.length = n
    · rw [dif_pos hlength] at hrun
      obtain ⟨rfl, rfl⟩ := Prod.mk.inj (run_pure_iff.mp hrun)
      exact ⟨trivial, hinput⟩
    · rw [dif_neg hlength] at hrun
      cases hrun
  · rintro ⟨-, hinput⟩
    refine ⟨value.val, rest, value.property.le, hinput, ?_⟩
    rw [dif_pos value.property]
    rfl

theorem codes_readList {α : Type} {admitted : ℕ → Bool} {item : Reader UInt8 α} {write : α → Bytes}
    {valid : α → Prop} (hadmitted : ∀ count, admitted count = true → count < 2 ^ 64)
    (hitem : Codes item write valid) :
    Codes (readList admitted item) (writeList write)
      (fun values => admitted values.length = true ∧ ∀ value ∈ values, valid value) := by
  intro input values rest
  rw [readList, codes_readNumber.bind_iff]
  constructor
  · rintro ⟨count, left, -, hinput, hrun⟩
    obtain ⟨hcount, htimes⟩ := check_bind_iff.mp hrun
    obtain ⟨⟨hlength, hall⟩, hleft⟩ := (codes_times hitem count.toNat left values rest).mp htimes
    refine ⟨⟨hlength ▸ hcount, hall⟩, ?_⟩
    rw [hinput, hleft, writeList, hlength, UInt64.ofNat_toNat, List.append_assoc]
  · rintro ⟨⟨hlength, hall⟩, hinput⟩
    have hcount := UInt64.toNat_ofNat_of_lt' (hadmitted _ hlength)
    rw [writeList, List.append_assoc] at hinput
    refine ⟨UInt64.ofNat values.length, values.flatMap write ++ rest, trivial, hinput,
      check_bind_iff.mpr ⟨hcount.symm ▸ hlength, ?_⟩⟩
    exact (codes_times hitem _ _ values rest).mpr ⟨⟨hcount.symm, hall⟩, rfl⟩

/-! ## What the proofs are made of -/

/-- The limit of a proof's bytes, the same for each of them. -/
def maxProofBytes : ℕ := 1024 * 1024

/-- The limit of a proof's preimages. -/
def maxPreimages : ℕ := 240

/-- `INT64_MAX`. -/
def int64Max : UInt64 := 0x7fffffffffffffff

/-- A digest. -/
abbrev Digest := List.Vector UInt8 32

/-- A digest as it is written. -/
def writeDigest (digest : Digest) : Bytes := writeData digest.val

/-- A block of the image. -/
structure Block where
  physicalBlock : UInt64
  bytes : List.Vector UInt8 4096
deriving DecidableEq

/-- A block as it is written. -/
def Block.write (block : Block) : Bytes :=
  writeNumber block.physicalBlock ++ writeData block.bytes.val

/-- The reader of a block. -/
def readBlock : Reader UInt8 Block := do
  let physicalBlock ← readNumber
  let bytes ← readArray 4096
  pure { physicalBlock, bytes }

/-- `Nonzero`. -/
def nonzero {n : ℕ} (bytes : List.Vector UInt8 n) : Bool := bytes.val.any (· != 0)

/-- `Uuid`. -/
def uuid (text : Bytes) : Bool :=
  text.length == 32 && text != List.replicate 32 0x30 &&
    text.all fun c => (0x30 ≤ c && c ≤ 0x39) || (0x61 ≤ c && c ≤ 0x66)

/-- The loop over the preimages: the first is block 0, and the others follow in order. -/
def preimagesOrdered (blockCount : UInt64) : Option UInt64 → List Block → Bool
  | _, [] => true
  | prior, block :: rest =>
    decide (block.physicalBlock < blockCount) &&
      (match prior with
        | none => block.physicalBlock == 0
        | some prior => decide (prior < block.physicalBlock)) &&
      preimagesOrdered blockCount (some block.physicalBlock) rest

/-- The count of preimages that the decoder admits. -/
def preimageCountAdmitted (count : ℕ) : Bool := decide (0 < count ∧ count ≤ maxPreimages)

/-- An encoder: the bytes of a proof that is valid, if they are within the limit. -/
def encodeProof {α : Type} (write : α → Bytes) (valid : α → Bool) (proof : α) : Option Bytes :=
  if valid proof = false then none
  else if maxProofBytes < (write proof).length then none
  else some (write proof)

/-- A decoder: the proof that the bytes are read as, if nothing is left and it is valid. -/
def decodeProof {α : Type} (minimum : ℕ) (body : Reader UInt8 α) (valid : α → Bool)
    (bytes : Bytes) : Option α :=
  if bytes.length < minimum ∨ maxProofBytes < bytes.length then none
  else
    match body.run bytes with
    | some (proof, []) => if valid proof then some proof else none
    | _ => none

theorem codes_readBlock : Codes readBlock Block.write (fun _ => True) := by
  intro input block rest
  simp only [readBlock, codes_readNumber.bind_iff,
    (codes_readArray (show 4096 < 2 ^ 64 by norm_num)).bind_iff, run_pure_iff, Prod.mk.injEq]
  constructor
  · rintro ⟨physicalBlock, left, -, hinput, bytes, last, -, hleft, rfl, rfl⟩
    exact ⟨trivial, by rw [hinput, hleft, Block.write, List.append_assoc]⟩
  · rintro ⟨-, hinput⟩
    rw [Block.write, List.append_assoc] at hinput
    exact ⟨_, _, trivial, hinput, _, _, trivial, rfl, rfl, rfl⟩

theorem codes_readFileId : Codes (readArray 16) (fun id => writeData id.val) (fun _ => True) :=
  codes_readArray (by norm_num)

theorem codes_readDigest : Codes (readArray 32) writeDigest (fun _ => True) :=
  codes_readArray (by norm_num)

theorem codes_readText :
    Codes (readData 4096) writeData (fun text => text.length ≤ 4096) :=
  codes_readData (by norm_num)

theorem lt_of_preimageCountAdmitted (count : ℕ) (h : preimageCountAdmitted count = true) :
    count < 2 ^ 64 := by
  have hle := (of_decide_eq_true h).2
  rw [maxPreimages] at hle
  omega

theorem preimageCountAdmitted_of {blocks : List Block} (hsome : blocks ≠ [])
    (hmost : blocks.length ≤ maxPreimages) : preimageCountAdmitted blocks.length = true :=
  decide_eq_true ⟨List.length_pos_iff.mpr hsome, hmost⟩

theorem length_of_uuid {text : Bytes} (h : uuid text = true) : text.length = 32 := by
  simp only [uuid, Bool.and_eq_true, beq_iff_eq] at h
  exact h.1.1

theorem codes_readPreimages :
    Codes (readList preimageCountAdmitted readBlock) (writeList Block.write)
      (fun blocks => preimageCountAdmitted blocks.length = true ∧ ∀ block ∈ blocks, True) :=
  codes_readList lt_of_preimageCountAdmitted codes_readBlock

theorem encodeProof_eq_some_iff {α : Type} {write : α → Bytes} {valid : α → Bool} {proof : α}
    {bytes : Bytes} :
    encodeProof write valid proof = some bytes ↔
      valid proof = true ∧ (write proof).length ≤ maxProofBytes ∧ write proof = bytes := by
  unfold encodeProof
  split_ifs with hvalid hlength
  · rw [hvalid]
    exact iff_of_false nofun fun h => Bool.false_ne_true h.1
  · exact iff_of_false nofun fun h => absurd h.2.1 (not_le.mpr hlength)
  · rw [Option.some_inj, and_iff_right (Bool.eq_true_of_not_eq_false hvalid),
      and_iff_right (not_lt.mp hlength)]

/-- **Encoder and decoder are inverse** where reader and writer form a codec and the validity check says
what the reader asks for. -/
theorem decodeProof_iff {α : Type} {minimum : ℕ} {body : Reader UInt8 α} {write : α → Bytes}
    {valid : α → Bool} {admitted : α → Prop} (hbody : Codes body write admitted)
    (hadmitted : ∀ proof, valid proof = true → admitted proof)
    (hminimum : ∀ proof, minimum ≤ (write proof).length) {proof : α} {bytes : Bytes} :
    decodeProof minimum body valid bytes = some proof ↔
      encodeProof write valid proof = some bytes := by
  rw [encodeProof_eq_some_iff, decodeProof]
  constructor
  · intro h
    split_ifs at h with hlength
    split at h
    · rename_i read hread
      split_ifs at h with hvalid
      obtain rfl := Option.some.inj h
      obtain ⟨-, hbytes⟩ := (hbody bytes read []).mp hread
      rw [List.append_nil] at hbytes
      exact ⟨hvalid, by rw [← hbytes]; omega, hbytes.symm⟩
    · cases h
  · rintro ⟨hvalid, hlength, rfl⟩
    have hmin := hminimum proof
    have hread : body.run (write proof) = some (proof, []) :=
      (hbody _ proof []).mpr ⟨hadmitted proof hvalid, (List.append_nil _).symm⟩
    rw [if_neg (by omega), hread]
    exact if_pos hvalid

end Recovery
end ApfsAccess
