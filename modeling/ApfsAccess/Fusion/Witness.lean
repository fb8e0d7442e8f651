import ApfsAccess.Fusion.Grammar

/-!
# The Fusion publication witness

What is encoded comes back, and so does what is stored.  The other way round the decoder alone is not
canonical: it takes shorter blocks, preimages in any order, and bytes that leave no room for the
envelope.  A plan is replayed only after its digest has been computed, and the digest encodes it.

* `encode_eq_ok_iff` : what the encoder accepts, and what it writes.
* `read_of_store` : a stored witness is read.
* `fusionWitness_canonical` : the result for both directions.
-/

namespace ApfsAccess
namespace Fusion

open ByteBuffer Cursor Format Recovery

variable {View : Type}

/-! ## The encoder -/

/-- Every block is a whole block. -/
def FullBlocks (head : Head) (entries : List (UInt64 × Bytes)) : Prop :=
  (∀ block ∈ head.blocks, block.length = 4096) ∧ ∀ entry ∈ entries, entry.2.length = 4096

theorem length_writeData (value : Bytes) : (writeData value).length = 8 + value.length := by
  rw [writeData, List.length_append, length_writeNumber]

theorem length_flatMap_of_forall {α : Type} {values : List α} {write : α → Bytes} {size : ℕ}
    (h : ∀ value ∈ values, (write value).length = size) :
    (values.flatMap write).length = values.length * size := by
  induction values with
  | nil => rw [List.flatMap_nil, List.length_nil, List.length_nil, Nat.zero_mul]
  | cons value rest ih =>
    obtain ⟨hfirst, hrest⟩ := List.forall_mem_cons.mp h
    rw [List.flatMap_cons, List.length_append, hfirst, ih hrest, List.length_cons, Nat.succ_mul,
      Nat.add_comm]

theorem length_writeList {α : Type} {values : List α} {write : α → Bytes} {size : ℕ}
    (h : ∀ value ∈ values, (write value).length = size) :
    (writeList write values).length = 8 + values.length * size := by
  rw [writeList, List.length_append, length_writeNumber, length_flatMap_of_forall h]

theorem PlannedWrite.length_write {w : PlannedWrite} (h : w.bytes.length = 4096) :
    w.write.length = 4 * 8 + 4096 := by
  simp only [PlannedWrite.write, List.length_append, length_writeNumber, length_writeData, h]

theorem GuardBlock.length_write {g : GuardBlock} (h : g.bytes.length = 4096) :
    g.write.length = 2 * 8 + 4096 := by
  simp only [GuardBlock.write, List.length_append, length_writeNumber, length_writeData, h]

theorem length_writePreimage {entry : UInt64 × Bytes} (h : entry.2.length = 4096) :
    (writePreimage entry).length = 2 * 8 + 4096 := by
  simp only [writePreimage, List.length_append, length_writeNumber, length_writeData, h]

/-- The blocks of a head, one kind after another. -/
theorem forall_mem_blocks {head : Head} {P : Bytes → Prop} :
    (∀ block ∈ head.blocks, P block) ↔
      P head.superblockWrite.bytes ∧ P head.mirror.bytes ∧ (∀ w ∈ head.writes, P w.bytes) ∧
        ∀ g ∈ head.guards, P g.bytes := by
  simp only [Head.blocks, List.map_cons, List.forall_mem_append, List.forall_mem_cons,
    List.forall_mem_map, and_assoc]

/-- **The size that is computed is the size that is written.** -/
theorem length_writeWitness {p : PreparedPublication View} {mirror : PlannedWrite}
    (h : FullBlocks (p.head mirror) p.before.entries) :
    (writeWitness (p.head mirror) p.before.entries).length = encodedSize p := by
  obtain ⟨hblocks, hentries⟩ := h
  obtain ⟨hsuperblock, hmirror, hwrites, hguards⟩ := forall_mem_blocks.mp hblocks
  have hw := length_writeList fun w hw => PlannedWrite.length_write (hwrites w hw)
  have hg := length_writeList fun g hg => GuardBlock.length_write (hguards g hg)
  have he := length_writeList fun entry he => length_writePreimage (hentries entry he)
  have hnumbers : ∀ numbers : List UInt64,
      (numbers.flatMap writeNumber).length = numbers.length * 8 := fun numbers =>
    length_flatMap_of_forall fun number _ => length_writeNumber number
  rw [writeWitness, Head.write]
  simp only [List.length_append, length_writeNumber, Head.writeBinding, length_writeData, hnumbers,
    hw, hg, he, PlannedWrite.length_write hsuperblock, PlannedWrite.length_write hmirror,
    List.Vector.length_val]
  simp only [Head.target, Head.planNumbers, PreparedPublication.head, Head.binding, encodedSize,
    List.length_cons, List.length_nil]
  unfold List.Vector.length
  omega

/-- The blocks that the encoder's test lets through. -/
theorem blocks_admitted_iff {head : Head} {entries : List (UInt64 × Bytes)} :
    ¬(validWrite head.superblockWrite = false ∨ validWrite head.mirror = false ∨
        head.writes.all validWrite = false ∨
        head.guards.any (fun g => g.bytes.length != 4096) = true ∨
        entries.any (fun entry => entry.2.length != 4096) = true) ↔
      (head.superblockWrite.kind ≤ 4 ∧ head.mirror.kind ≤ 4 ∧ ∀ w ∈ head.writes, w.kind ≤ 4) ∧
        FullBlocks head entries := by
  simp only [FullBlocks, forall_mem_blocks, not_or, Bool.not_eq_false, Bool.not_eq_true, validWrite,
    List.all_eq_true, List.any_eq_false, Bool.and_eq_true, decide_eq_true_eq, beq_iff_eq,
    bne_eq_false_iff_eq, imp_and, forall_and]
  tauto

/-- **What the encoder accepts, and what it writes.** -/
theorem encode_eq_ok_iff {p : PreparedPublication View} {b : Bytes} :
    encode p = .ok b ↔
      ∃ mirror, p.plan.fusionTier2AnchorWrite = some mirror ∧ p.plan.blockSize = 4096 ∧
        (p.head mirror).Readable ∧ p.before.entries.length ≤ preimageLimit ∧
        FullBlocks (p.head mirror) p.before.entries ∧
        b = writeWitness (p.head mirror) p.before.entries ∧ b.length ≤ limit - 128 := by
  unfold encode
  simp only [rejectIf_bind_eq_ok_iff]
  match hmirror : p.plan.fusionTier2AnchorWrite with
  | none =>
    refine iff_of_false (fun h => ?_) fun ⟨_, h, _⟩ => by cases h
    obtain ⟨-, -, -, -, herror⟩ := h
    cases herror
  | some mirror =>
    simp only [rejectIf_bind_eq_ok_iff, Option.some_inj, exists_eq_left', Except.ok.injEq]
    have hblocks := @blocks_admitted_iff (p.head mirror) p.before.entries
    constructor
    · rintro ⟨hbinding, hwrites, hguards, hpreimages, hadmitted, -, hlength, rfl⟩
      obtain ⟨⟨hs, hm, hw⟩, hfull⟩ := hblocks.mp hadmitted
      simp only [not_or, not_lt, not_not] at hbinding hwrites hguards hpreimages hlength
      obtain ⟨hsuperblock, hmirrorBytes, hwriteBytes, hguardBytes⟩ := forall_mem_blocks.mp hfull.1
      refine ⟨hbinding.2.2.2, ?_, hpreimages, hfull, rfl, hlength⟩
      exact ⟨hbinding.1, hbinding.2.1, hbinding.2.2.1, hwrites,
        fun w h => ⟨hw w h, (hwriteBytes w h).le⟩, ⟨hs, hsuperblock.le⟩, ⟨hm, hmirrorBytes.le⟩,
        hguards, fun g h => (hguardBytes g h).le⟩
    · rintro ⟨hblockSize, h, hpreimages, hfull, rfl, hlength⟩
      have hsize := length_writeWitness hfull
      have hadmitted := hblocks.mpr
        ⟨⟨h.superblockWrite.1, h.mirror.1, fun w hw => (h.writes w hw).1⟩, hfull⟩
      refine ⟨?_, not_lt.mpr h.writeCount, not_lt.mpr h.guardCount, not_lt.mpr hpreimages, hadmitted,
        not_lt.mpr (hsize ▸ hlength), not_lt.mpr hlength, rfl⟩
      simp only [not_or, not_lt, not_not]
      exact ⟨h.jid, h.name, h.payload, hblockSize⟩

/-! ## Encode, then decode -/

/-- What the witness bytes carry of a publication: the original ids stand in the envelope, and the
published checkpoint is not stored. -/
def PreparedPublication.carried [Inhabited View] (p : PreparedPublication View) :
    PreparedPublication View :=
  { p with
    acceptedSequence := 0
    transactionId := 0
    mutationSequence := 0
    plan := { p.plan with publishedCheckpoint := default } }

section Decode

variable [Inhabited View] {sha256 : Bytes → Digest}

theorem publication_head {p : PreparedPublication View} {mirror : PlannedWrite}
    (hmirror : p.plan.fusionTier2AnchorWrite = some mirror) (hblockSize : p.plan.blockSize = 4096) :
    (p.head mirror).publication p.before = p.carried := by
  obtain ⟨source, payloadHash, jid, name, volume, inode, offset, length, operation, accepted,
    transaction, mutation, payload, plan, before⟩ := p
  obtain ⟨blockSize, expected, next, objectId, guards, writes, superblock, anchor, view⟩ := plan
  obtain rfl : anchor = some mirror := hmirror
  obtain rfl : blockSize = 4096 := hblockSize
  rfl

/-- **Encode, then decode.** -/
theorem decode_of_encode {p : PreparedPublication View} {b : Bytes} (h : encode p = .ok b)
    (hhash : sha256 p.payload = p.payloadHash) : decode sha256 b = .ok p.carried := by
  obtain ⟨mirror, hmirror, hblockSize, hread, hcount, hfull, hb, hlength⟩ := encode_eq_ok_iff.mp h
  have hlimit : b.length ≤ limit := hlength.trans (Nat.sub_le _ _)
  refine decode_eq_ok_iff.mpr ⟨hlimit, p.head mirror, p.before.entries, p.before, ?_, ?_, hb, hhash⟩
  · exact ⟨hread, hcount, fun entry hentry => (hfull.2 entry hentry).le,
      Preimages.emplaceAll_of_ascending rfl⟩
  · exact (publication_head hmirror hblockSize).symm

/-- What the decoder returns carries nothing but what it read. -/
theorem carried_of_decode {p : PreparedPublication View} {b : Bytes} (h : decode sha256 b = .ok p) :
    p.carried = p ∧ sha256 p.payload = p.payloadHash := by
  obtain ⟨-, head, entries, before, -, rfl, -, hhash⟩ := decode_eq_ok_iff.mp h
  exact ⟨rfl, hhash⟩

end Decode

/-! ## Decode, then encode -/

section Encode

variable [Inhabited View] {sha256 : Bytes → Digest}

/-- The preimages of a witness are determined by its bytes. -/
theorem entries_eq_of_writeWitness_eq {head : Head} {first second : List (UInt64 × Bytes)}
    (hfirst : first.length ≤ preimageLimit ∧ ∀ entry ∈ first, entry.2.length ≤ 4096)
    (hsecond : second.length ≤ preimageLimit ∧ ∀ entry ∈ second, entry.2.length ≤ 4096)
    (h : writeWitness head first = writeWitness head second) : first = second := by
  have hfit : preimageLimit < 2 ^ 64 := by norm_num [preimageLimit, writeLimit]
  exact (codes_readLimited hfit codes_readPreimage).eq_of_write_eq hfirst hsecond
    (List.append_cancel_left h)

/-- **Decode, then encode**: the bytes are the witness of their preimages in some order, and they come
back exactly where the blocks are whole, the preimages are in order and the envelope has room. -/
theorem encode_of_decode_iff {p : PreparedPublication View} {b : Bytes}
    (h : decode sha256 b = .ok p) :
    ∃ mirror entries, p.plan.fusionTier2AnchorWrite = some mirror ∧
      entries.Perm p.before.entries ∧ b = writeWitness (p.head mirror) entries ∧
      (encode p = .ok b ↔
        FullBlocks (p.head mirror) entries ∧ Ascending entries ∧ b.length ≤ limit - 128) := by
  obtain ⟨-, head, entries, before, hspelled, rfl, hb, -⟩ := decode_eq_ok_iff.mp h
  have hperm := Preimages.perm_of_emplaceAll hspelled.before
  rw [show Preimages.empty.entries = [] from rfl, List.append_nil] at hperm
  have hbefore : before.entries.length ≤ preimageLimit ∧
      ∀ entry ∈ before.entries, entry.2.length ≤ 4096 :=
    ⟨hperm.length_eq.trans_le hspelled.count, fun entry hentry =>
      hspelled.bytes entry (hperm.subset hentry)⟩
  refine ⟨head.mirror, entries, rfl, hperm.symm, hb, ?_⟩
  rw [encode_eq_ok_iff]
  constructor
  · rintro ⟨mirror, hmirror, -, -, -, hfull, hsame, hlength⟩
    obtain rfl : head.mirror = mirror := Option.some.inj hmirror
    have hentries : entries = before.entries :=
      entries_eq_of_writeWitness_eq ⟨hspelled.count, hspelled.bytes⟩ hbefore (hb.symm.trans hsame)
    rw [hentries]
    exact ⟨hfull, before.ascending, hlength⟩
  · rintro ⟨hfull, hascending, hlength⟩
    have hentries : before.entries = entries :=
      (Preimages.entries_eq_iff hspelled.before).mpr hascending
    refine ⟨head.mirror, rfl, rfl, hspelled.head, hbefore.1, ?_, ?_, hlength⟩
    · show FullBlocks head before.entries
      exact hentries ▸ hfull
    · show b = writeWitness head before.entries
      rw [hentries, hb]

end Encode

/-! ## The stored file -/

/-- `BytesToHexLower`. -/
def bytesToHexLower (bytes : Bytes) : Bytes :=
  bytes.flatMap fun (byte : UInt8) => ([byte >>> 4, byte &&& 15] : Bytes).map fun digit =>
    if digit < 10 then 0x30 + digit else 0x61 + (digit - 10)

/-- `FusionPreparedPublication::Digest`. -/
def digest (sha256 : Bytes → Digest) (p : PreparedPublication View) : Except String Bytes :=
  match encode p with
  | .error _ => .error "FusionWitnessHash"
  | .ok bytes =>
    match publicationHash sha256 bytes with
    | none => .error "FusionWitnessHash"
    | some hash => .ok (bytesToHexLower hash.val)

/-- Which of the calls of `Store` on the file went through. -/
structure StoreCalls where
  created : Bool
  written : Bool
  sought : Bool
  readBack : Bool

/-- Which of the calls of `Read` on the file went through, and the continuation prefix. -/
structure ReadCalls where
  opened : Bool
  plain : Bool
  whole : Bool
  flushed : Bool
  prefixActive : Bool
  pinFile : Digest → Except String Unit

/-- `ReadPurpose`. -/
inductive ReadPurpose where
  | pendingReplay
  | retainedCensus
deriving DecidableEq, Repr

/-- What stands in front of the hash of a stored witness. -/
def writeEnvelope (sequence transactionId mutationSequence : UInt64) (body : Bytes) : Bytes :=
  writeNumber magic ++ (writeNumber sequence ++ (writeNumber transactionId ++
    (writeNumber mutationSequence ++ writeData body)))

/-- `FusionPublicationJournal::Store`, from the file that stands at the path to the one it leaves
there. -/
def store (sha256 : Bytes → Digest) (calls : StoreCalls) (sequence : UInt64)
    (p : PreparedPublication View) (file : Option Bytes) : Except String Bytes := do
  rejectIf (sequence = 0 ∨ p.acceptedSequence ≠ sequence ∨ p.transactionId = 0 ∨
    p.mutationSequence = 0 ∨ sequence ≤ p.mutationSequence) "FusionWitnessOriginalEnrollmentRequired"
  let body ← encode p
  let bytes := writeEnvelope sequence p.transactionId p.mutationSequence body
  match publicationHash sha256 bytes with
  | none => .error "FusionWitnessHash"
  | some hash =>
    rejectIf (calls.created = false ∨ file.isSome = true) "FusionWitnessExistsOrCreateFailed"
    rejectIf (calls.written = false) "FusionWitnessDurableWriteFailed"
    rejectIf (calls.sought = false) "FusionWitnessSeek"
    rejectIf (calls.readBack = false) "FusionWitnessReadback"
    .ok (bytes ++ hash.val)

/-- The fields of the envelope as `Read` takes them. -/
def decodeEnvelope (sequence : UInt64) : Decoder (UInt64 × UInt64 × Bytes) := do
  let found ← number
  require (found = magic) "FusionWitnessSequence"
  let stored ← number
  require (stored = sequence) "FusionWitnessSequence"
  let transaction ← number
  let mutation ← number
  let body ← bytesUpTo limit
  pure (transaction, mutation, body)

/-- The part of `Read` behind the checksum. -/
def readContent [Inhabited View] (sha256 : Bytes → Digest) (sequence : UInt64) (content : Bytes) :
    Except String (PreparedPublication View) :=
  match (decodeEnvelope sequence).run ⟨content, true⟩ with
  | .error error => .error error
  | .ok ((transaction, mutation, body), state) =>
    if state.ok = false ∨ state.rest ≠ [] then .error "FusionWitnessPartial"
    else
      match decode sha256 body with
      | .error _ => .error "FusionWitnessOriginalEnrollmentInvalid"
      | .ok decoded =>
        if transaction = 0 ∨ mutation = 0 ∨ sequence ≤ mutation then
          .error "FusionWitnessOriginalEnrollmentInvalid"
        else .ok { decoded with
          acceptedSequence := sequence, transactionId := transaction, mutationSequence := mutation }

/-- `FusionPublicationJournal::Read`. -/
def read [Inhabited View] (sha256 : Bytes → Digest) (calls : ReadCalls) (sequence : UInt64)
    (file : Option Bytes) (purpose : ReadPurpose) : Except String (PreparedPublication View) :=
  match file with
  | none => .error "FusionWitnessMissing"
  | some bytes => do
    rejectIf (calls.opened = false) "FusionWitnessOpenFailed"
    rejectIf (calls.plain = false ∨ bytes.length < 72 ∨ limit < bytes.length)
      "FusionWitnessFileInvalid"
    rejectIf (calls.whole = false) "FusionWitnessRead"
    let content := bytes.take (bytes.length - 32)
    rejectIf ((publicationHash sha256 content).map Subtype.val ≠
      some (bytes.drop (bytes.length - 32))) "FusionWitnessChecksum"
    let decoded ← readContent sha256 sequence content
    rejectIf (purpose = .pendingReplay ∧ calls.flushed = false) "FusionWitnessReplayDurabilityFailed"
    if purpose = .retainedCensus ∧ calls.prefixActive then do
      match publicationHash sha256 bytes with
      | none => .error ""
      | some hash =>
        calls.pinFile hash
        .ok decoded
    else .ok decoded

/-- The calls that `Read` makes go through. -/
structure ReadCalls.Succeed (calls : ReadCalls) : Prop where
  opened : calls.opened = true
  plain : calls.plain = true
  whole : calls.whole = true
  flushed : calls.flushed = true
  pinFile : ∀ hash, calls.pinFile hash = .ok ()

section Stored

variable {sha256 : Bytes → Digest}

theorem length_writeEnvelope (sequence transactionId mutationSequence : UInt64) (body : Bytes) :
    (writeEnvelope sequence transactionId mutationSequence body).length = 40 + body.length := by
  simp only [writeEnvelope, List.length_append, length_writeNumber, length_writeData]
  omega

/-- **The envelope is read as it was written.** -/
theorem run_decodeEnvelope {sequence transactionId mutationSequence : UInt64} {body : Bytes}
    (h : body.length ≤ limit) :
    (decodeEnvelope sequence).run
        ⟨writeEnvelope sequence transactionId mutationSequence body, true⟩ =
      .ok ((transactionId, mutationSequence, body), ⟨[], true⟩) := by
  have hagrees : Agrees (decodeEnvelope sequence) (do
      let found ← readNumber
      check (found = magic)
      let stored ← readNumber
      check (stored = sequence)
      let transaction ← readNumber
      let mutation ← readNumber
      let body ← readData limit
      pure (transaction, mutation, body)) :=
    agrees_number.bind fun _ => (agrees_require _ _).bind fun _ => agrees_number.bind fun _ =>
      (agrees_require _ _).bind fun _ => agrees_number.bind fun _ => agrees_number.bind fun _ =>
        (agrees_bytesUpTo limit).bind fun _ => agrees_pure _
  refine (hagrees.good _ _ []).mpr (codes_readNumber.bind_iff.mpr ⟨magic, _, trivial, rfl, ?_⟩)
  refine check_bind_iff.mpr ⟨rfl, codes_readNumber.bind_iff.mpr ⟨sequence, _, trivial, rfl, ?_⟩⟩
  refine check_bind_iff.mpr ⟨rfl, codes_readNumber.bind_iff.mpr ⟨_, _, trivial, rfl, ?_⟩⟩
  refine codes_readNumber.bind_iff.mpr ⟨_, _, trivial, rfl, ?_⟩
  exact (codes_readData (by norm_num [limit])).bind_iff.mpr
    ⟨body, [], h, (List.append_nil _).symm, rfl⟩

/-- What `Store` went through. -/
theorem store_cases {calls : StoreCalls} {sequence : UInt64} {p : PreparedPublication View}
    {existing : Option Bytes} {file : Bytes} (h : store sha256 calls sequence p existing = .ok file) :
    (p.acceptedSequence = sequence ∧ p.transactionId ≠ 0 ∧ p.mutationSequence ≠ 0 ∧
      p.mutationSequence < sequence) ∧
    ∃ body hash, encode p = .ok body ∧
      publicationHash sha256 (writeEnvelope sequence p.transactionId p.mutationSequence body) =
        some hash ∧
      file = writeEnvelope sequence p.transactionId p.mutationSequence body ++ hash.val := by
  unfold store at h
  rw [rejectIf_bind_eq_ok_iff, bind_eq_ok_iff] at h
  obtain ⟨henrolled, body, hbody, h⟩ := h
  simp only [not_or, not_not, UInt64.not_le] at henrolled
  refine ⟨henrolled.2, body, ?_⟩
  dsimp only at h
  split at h
  · cases h
  · rename_i hash hhash
    simp only [rejectIf_bind_eq_ok_iff] at h
    obtain ⟨-, -, -, -, h⟩ := h
    exact ⟨hash, hbody, hhash, (Except.ok.inj h).symm⟩

/-- **A stored witness is read.** -/
theorem read_of_store [Inhabited View] {calls : StoreCalls} {readCalls : ReadCalls} {sequence : UInt64}
    {p : PreparedPublication View} {existing : Option Bytes} {file : Bytes} (purpose : ReadPurpose)
    (hstore : store sha256 calls sequence p existing = .ok file)
    (hhash : sha256 p.payload = p.payloadHash) (hcalls : readCalls.Succeed) :
    read sha256 readCalls sequence (some file) purpose =
      .ok { p.carried with
        acceptedSequence := p.acceptedSequence
        transactionId := p.transactionId
        mutationSequence := p.mutationSequence } := by
  obtain ⟨⟨hsequence, htransaction, hmutation, hlt⟩, body, hash, hbody, hfile, rfl⟩ :=
    store_cases hstore
  obtain ⟨mirror, -, -, -, -, -, -, hlength⟩ := encode_eq_ok_iff.mp hbody
  have henvelope := length_writeEnvelope sequence p.transactionId p.mutationSequence body
  generalize hcontent : writeEnvelope sequence p.transactionId p.mutationSequence body = content at *
  have hhashLength : hash.val.length = 32 := hash.property
  have htotal : (content ++ hash.val).length = content.length + 32 := by
    rw [List.length_append, hhashLength]
  have hroom : body.length + 128 ≤ limit := by
    rw [show limit = 8388608 from rfl] at hlength ⊢
    omega
  have htake : (content ++ hash.val).take ((content ++ hash.val).length - 32) = content := by
    rw [htotal, Nat.add_sub_cancel, List.take_left' rfl]
  have hdrop : (content ++ hash.val).drop ((content ++ hash.val).length - 32) = hash.val := by
    rw [htotal, Nat.add_sub_cancel, List.drop_left' rfl]
  have hread : readContent sha256 sequence content = .ok { p.carried with
      acceptedSequence := p.acceptedSequence
      transactionId := p.transactionId
      mutationSequence := p.mutationSequence } := by
    have hrun := @run_decodeEnvelope sequence p.transactionId p.mutationSequence body (by omega)
    rw [hcontent] at hrun
    unfold readContent
    rw [hrun]
    dsimp only
    rw [if_neg (by simp), decode_of_encode hbody hhash]
    dsimp only
    rw [if_neg (by simp only [not_or, UInt64.not_le]; exact ⟨htransaction, hmutation, hlt⟩),
      hsequence]
  have hfull : publicationHash sha256 (content ++ hash.val) = some (sha256 (content ++ hash.val)) :=
    if_pos (by omega)
  unfold read
  dsimp only
  rw [rejectIf_bind_of_not _ _ (by rw [hcalls.opened]; exact Bool.noConfusion),
    rejectIf_bind_of_not _ _ (by rw [hcalls.plain, htotal]; simp only [Bool.true_eq_false, false_or]; omega),
    rejectIf_bind_of_not _ _ (by rw [hcalls.whole]; exact Bool.noConfusion), htake, hdrop,
    rejectIf_bind_of_not _ _ (by rw [hfile]; exact not_not.mpr rfl), hread, ok_bind,
    rejectIf_bind_of_not _ _ (by rw [hcalls.flushed]; exact fun h => Bool.noConfusion h.2), hfull]
  split_ifs
  · dsimp only
    rw [hcalls.pinFile]
    rfl
  · rfl

end Stored

/-! ## Both directions -/

/-- **The Fusion publication witness.**  What is encoded and what is stored comes back.  What the
decoder takes is encoded to the same bytes exactly where the blocks are whole, the preimages are in
order and the envelope has room; where a digest of it is computed, as it is before a plan is replayed,
it is encoded and the encoding is decoded to it. -/
theorem fusionWitness_canonical [Inhabited View] (sha256 : Bytes → Digest) :
    (∀ (p : PreparedPublication View) b, encode p = .ok b → sha256 p.payload = p.payloadHash →
      decode sha256 b = .ok p.carried) ∧
    (∀ calls (readCalls : ReadCalls) sequence (p : PreparedPublication View) existing file purpose,
      store sha256 calls sequence p existing = .ok file → sha256 p.payload = p.payloadHash →
      readCalls.Succeed →
      read sha256 readCalls sequence (some file) purpose =
        .ok { p.carried with
          acceptedSequence := p.acceptedSequence
          transactionId := p.transactionId
          mutationSequence := p.mutationSequence }) ∧
    (∀ b (p : PreparedPublication View), decode sha256 b = .ok p →
      ∃ mirror entries, p.plan.fusionTier2AnchorWrite = some mirror ∧
        entries.Perm p.before.entries ∧ b = writeWitness (p.head mirror) entries ∧
        (encode p = .ok b ↔
          FullBlocks (p.head mirror) entries ∧ Ascending entries ∧ b.length ≤ limit - 128)) ∧
    (∀ b (p : PreparedPublication View) hex, decode sha256 b = .ok p → digest sha256 p = .ok hex →
      ∃ again, encode p = .ok again ∧ decode sha256 again = .ok p) := by
  refine ⟨fun p b h hhash => decode_of_encode h hhash, ?_, fun b p h => encode_of_decode_iff h, ?_⟩
  · intro calls readCalls sequence p existing file purpose hstore hhash hcalls
    exact read_of_store purpose hstore hhash hcalls
  · intro b p hex hdecode hdigest
    unfold digest at hdigest
    split at hdigest
    · cases hdigest
    · rename_i again hencode
      obtain ⟨hcarried, hhash⟩ := carried_of_decode hdecode
      exact ⟨again, hencode, (decode_of_encode hencode hhash).trans (congrArg Except.ok hcarried)⟩

/-- A write of no bytes at all. -/
def emptyWrite : PlannedWrite where
  kind := 0
  physicalBlock := 0
  objectId := 0
  bytes := []

/-- A head whose two writes are empty. -/
def emptyHead : Head where
  source := List.Vector.replicate 32 0
  payloadHash := List.Vector.replicate 32 0
  jid := []
  name := []
  volume := 0
  inode := 0
  offset := 0
  length := 0
  operation := 0
  payload := []
  expectedCheckpointXid := 0
  transactionXid := 0
  nextObjectId := 0
  writes := []
  superblockWrite := emptyWrite
  mirror := emptyWrite
  guards := []

/-- The decoder takes a witness whose blocks are empty, and the encoder refuses what it returns. -/
theorem emptyBlocks_decoded :
    ∃ p : PreparedPublication Unit,
      decode (fun _ => List.Vector.replicate 32 0) (writeWitness emptyHead []) = .ok p ∧
        encode p = .error "FusionWitnessBlockBounds" := by
  have hwrite : emptyWrite.Readable := ⟨by decide, Nat.zero_le _⟩
  have hhead : emptyHead.Readable :=
    ⟨Nat.zero_le _, Nat.zero_le _, Nat.zero_le _, Nat.zero_le _, nofun, hwrite, hwrite,
      Nat.zero_le _, nofun⟩
  refine ⟨emptyHead.publication .empty, decode_eq_ok_iff.mpr ⟨by decide +kernel, ?_⟩, by rfl⟩
  exact ⟨emptyHead, [], .empty, ⟨hhead, Nat.zero_le _, nofun, rfl⟩, rfl, rfl, rfl⟩

end Fusion
end ApfsAccess
