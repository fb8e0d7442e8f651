import ApfsAccess.Library.Loops
import ApfsAccess.ProtectedWal.Epoch

/-!
# The key slots of a protected journal, and opening a record with one

Every epoch has one slot file.  The slot names the epoch and the binding, holds the key as DPAPI has
wrapped it, and ends in a checksum of what stands before.  A record names the epoch it was sealed in, so
that opening it is reading the slot of that epoch, unwrapping the key and opening the cipher.

`ReadPass` keeps the key of the last record it has opened.  It reads the slot again for every record, and
uses the key it has kept only for the same epoch and for the same bytes of the slot.

* `ReadPass.Cached` : the key that is kept is the one that the slot that is kept unwraps to.
* `ReadPass.openNext_fst` : a pass opens a record as `openRecord` does.
* `ReadPass.answers_eq_map` : the same for any sequence of records, contexts and slot files.
-/

namespace ApfsAccess
namespace ProtectedJournal

open ByteBuffer Format Loops
open Wal (appendU32 appendU64 length_appendU32 length_appendU64)
open ProtectedWal (Digest nonzero JournalRecordContext recordMagic recordHeaderBytes
  maxJournalRecordBytes associatedData)

/-- `JournalError`, without `None`. -/
inductive JournalError where
  | invalidArgument
  | resourceLimit
  | unsafePath
  | ioFailure
  | busy
  | missingKey
  | invalidFrame
  | bindingMismatch
  | protectionFailure
  | cryptoFailure
  | integrityFailure
  | nonceExhausted
  deriving DecidableEq, Repr

/-- `crypto::CryptoError`, without `None`. -/
inductive CryptoError where
  | invalidArgument
  | resourceLimit
  | allocationFailed
  | memoryLockFailed
  | providerFailure
  | integrityFailure
  deriving DecidableEq, Repr

/-- `FromCrypto`. -/
def fromCrypto : CryptoError → JournalError
  | .integrityFailure => .integrityFailure
  | _ => .cryptoFailure

/-- What Windows does: the SHA-256 of a slot, `CryptUnprotectData` and AES-GCM. -/
structure Platform where
  checksum : Bytes → Digest
  unprotect : (blob entropy : Bytes) → Option Bytes
  encrypt : (key nonce plaintext aad : Bytes) → Bytes
  decrypt : (key nonce record aad : Bytes) → Except CryptoError Bytes

section Slots

/-- `kMaxJournalKeySlotBytes`. -/
def maxJournalKeySlotBytes : ℕ := 4096

/-- `kSlotHeader`. -/
def slotHeader : ℕ := 72

/-- `kSlotChecksum`. -/
def slotChecksum : ℕ := 32

/-- `kProtectedBytes`. -/
def protectedBytes : ℕ := 88

/-- `kSlotMagic`. -/
def slotMagic : Bytes := [0x41, 0x50, 0x46, 0x53, 0x45, 0x50, 0x4b, 0x31]

/-- `kKeyDomain`. -/
def keyDomain : Bytes := [0x41, 0x50, 0x46, 0x53, 0x4b, 0x45, 0x59, 0x31]

/-- The two hexadecimal digits of a byte. -/
def hexDigits (byte : UInt8) : List Char :=
  [Nat.digitChar (byte.toNat / 16), Nat.digitChar (byte.toNat % 16)]

/-- `SlotName`. -/
def slotName (id : Bytes) : String := "epoch-" ++ String.ofList (id.flatMap hexDigits) ++ ".key"

/-- The files of the directory. -/
abbrev Directory := String → Option Bytes

/-- The slot file of an epoch, opened and read with `Read`. -/
def readSlot (files : Directory) (id : Bytes) : Except JournalError Bytes :=
  match files (slotName id) with
  | none => .error .missingKey
  | some slot =>
    if maxJournalKeySlotBytes < slot.length then .error .resourceLimit else .ok slot

/-- `Binding`: the digest that was passed, if it can be one. -/
def exactBinding (binding : Bytes) : Option Digest :=
  if h : binding.length = 32 then
    if nonzero binding then some ⟨binding, h⟩ else none
  else none

/-- `Envelope`. -/
def envelope (id : Bytes) (binding : Digest) : Bytes := keyDomain ++ (id ++ binding.val)

/-- `Protect`, with what `CryptProtectData` does. -/
def protectKey (platform : Platform) (protect : (plain entropy : Bytes) → Option Bytes)
    (key id : Bytes) (binding : Digest) : Except JournalError Bytes :=
  match protect (envelope id binding ++ key) (envelope id binding) with
  | none => .error .protectionFailure
  | some blob =>
    if blob.length = 0 ∨ maxJournalKeySlotBytes - slotHeader - slotChecksum < blob.length then
      .error .resourceLimit
    else
      let front := slotMagic ++ (appendU32 1 ++ (appendU32 (UInt32.ofNat slotHeader) ++
        (appendU32 (UInt32.ofNat (slotHeader + blob.length + slotChecksum)) ++
        (appendU32 (UInt32.ofNat blob.length) ++ (id ++ (binding.val ++ blob))))))
      .ok (front ++ (platform.checksum front).val)

/-- `Unprotect`. -/
def unprotectKey (platform : Platform) (slot id : Bytes) (binding : Digest) :
    Except JournalError Bytes :=
  if slot.length < slotHeader + slotChecksum ∨ maxJournalKeySlotBytes < slot.length ∨
      slice slot 0 8 ≠ slotMagic ∨ leValue (slice slot 8 4) ≠ 1 ∨
      leValue (slice slot 12 4) ≠ slotHeader ∨ leValue (slice slot 16 4) ≠ slot.length ∨
      leValue (slice slot 20 4) ≠ slot.length - slotHeader - slotChecksum ∨
      leValue (slice slot 20 4) = 0 ∨ slice slot 24 16 ≠ id then
    .error .invalidFrame
  else if slice slot 40 32 ≠ binding.val then .error .bindingMismatch
  else if (platform.checksum (slot.take (slot.length - slotChecksum))).val ≠
      slot.drop (slot.length - slotChecksum) then
    .error .invalidFrame
  else
    match platform.unprotect (slice slot slotHeader (slot.length - slotHeader - slotChecksum))
        (envelope id binding) with
    | none => .error .protectionFailure
    | some plain =>
      if plain.length ≠ protectedBytes ∨ plain.take 56 ≠ envelope id binding then
        .error .protectionFailure
      else .ok (slice plain 56 32)

variable {platform : Platform} {slot id key binding' : Bytes} {binding : Digest}

theorem exactBinding_eq_some_iff :
    exactBinding binding' = some binding ↔ binding' = binding.val ∧ nonzero binding' = true := by
  unfold exactBinding
  constructor
  · intro h
    split_ifs at h with hlength hnonzero
    exact ⟨congrArg Subtype.val (Option.some.inj h), hnonzero⟩
  · rintro ⟨rfl, hnonzero⟩
    rw [dif_pos binding.property, if_pos hnonzero]
    rfl

/-- **A slot opens for the binding it names.** -/
theorem slice_binding_of_unprotectKey (h : unprotectKey platform slot id binding = .ok key) :
    slice slot 40 32 = binding.val := by
  unfold unprotectKey at h
  split_ifs at h with hshape hbinding
  exact not_not.mp hbinding

end Slots

section Opening

/-- The checks of a record before its slot is read. -/
def checkRecord (context : JournalRecordContext) (record : Bytes) : Except JournalError Unit :=
  if context.valid = false then .error .invalidArgument
  else if maxJournalRecordBytes < record.length then .error .resourceLimit
  else if record.length < recordHeaderBytes + 16 ∨ slice record 0 8 ≠ recordMagic ∨
      leValue (slice record 8 4) ≠ 1 ∨ leValue (slice record 12 4) ≠ recordHeaderBytes ∨
      leValue (slice record 16 4) ≠ record.length ∨
      leValue (slice record 20 4) ≠ record.length - recordHeaderBytes ∨
      nonzero (slice record 52 12) = true then
    .error .invalidFrame
  else .ok ()

/-- The epoch that a record names. -/
def recordId (record : Bytes) : Bytes := slice record 24 16

/-- The cipher of a record, opened with a key. -/
def decryptRecord (platform : Platform) (key : Bytes) (binding : Digest)
    (context : JournalRecordContext) (record : Bytes) : Except JournalError Bytes :=
  match platform.decrypt key (slice record 40 12) (record.drop recordHeaderBytes)
      (associatedData (record.take recordHeaderBytes) binding context) with
  | .error error => .error (fromCrypto error)
  | .ok plaintext => .ok plaintext

/-- `ProtectedJournalEpoch::Open`. -/
def openRecord (platform : Platform) (files : Directory) (binding : Bytes)
    (context : JournalRecordContext) (record : Bytes) : Except JournalError Bytes :=
  match exactBinding binding with
  | none => .error .invalidArgument
  | some binding => do
    checkRecord context record
    let slot ← readSlot files (recordId record)
    let key ← unprotectKey platform slot (recordId record) binding
    decryptRecord platform key binding context record

end Opening

/-- `ProtectedJournalReadPass::Impl`. -/
structure ReadPass where
  binding : Digest
  bound : nonzero binding.val = true
  id : Bytes := List.replicate 16 0
  key : Bytes := []
  slot : Bytes := []

namespace ReadPass

/-- `ProtectedJournalReadPass::Acquire`. -/
def acquire (binding : Bytes) : Except JournalError ReadPass :=
  match h : exactBinding binding with
  | none => .error .invalidArgument
  | some named =>
    have hexact := exactBinding_eq_some_iff.mp h
    .ok { binding := named, bound := hexact.1 ▸ hexact.2 }

/-- `Clear`. -/
def clear (pass : ReadPass) : ReadPass :=
  { pass with id := List.replicate 16 0, key := [], slot := [] }

/-- The key for a slot: the one that is kept, or a new one. -/
def keep (platform : Platform) (pass : ReadPass) (slot id : Bytes) : Except JournalError ReadPass :=
  if pass.key.length ≠ 32 ∨ pass.id ≠ id ∨ pass.slot ≠ slot then
    match unprotectKey platform slot id pass.binding with
    | .error error => .error error
    | .ok key => .ok { pass with id := id, key := key, slot := slot }
  else .ok pass

/-- What a pass does with one record, up to `FailureCleanup`. -/
def attempt (platform : Platform) (pass : ReadPass) (files : Directory)
    (context : JournalRecordContext) (record : Bytes) : Except JournalError (Bytes × ReadPass) := do
  checkRecord context record
  let slot ← readSlot files (recordId record)
  let held ← pass.keep platform slot (recordId record)
  let plaintext ← decryptRecord platform held.key held.binding context record
  pure (plaintext, held)

/-- `ProtectedJournalReadPass::Open`. -/
def openNext (platform : Platform) (pass : ReadPass) (files : Directory)
    (context : JournalRecordContext) (record : Bytes) : Except JournalError Bytes × ReadPass :=
  match pass.attempt platform files context record with
  | .error error => (.error error, pass.clear)
  | .ok (plaintext, held) => (.ok plaintext, held)

/-- One call: the slot files as they are then, the expected context and the record. -/
structure Request where
  files : Directory
  context : JournalRecordContext
  record : Bytes

/-- The answers to a sequence of calls. -/
def answers (platform : Platform) : ReadPass → List Request → List (Except JournalError Bytes)
  | _, [] => []
  | pass, request :: rest =>
    let answer := pass.openNext platform request.files request.context request.record
    answer.1 :: answers platform answer.2 rest

/-- The key that is kept is the one that the slot that is kept unwraps to. -/
def Cached (platform : Platform) (pass : ReadPass) : Prop :=
  pass.key.length = 32 → unprotectKey platform pass.slot pass.id pass.binding = .ok pass.key

section Refinement

variable {platform : Platform} {pass held : ReadPass} {files : Directory}
  {context : JournalRecordContext} {record slot id plaintext binding : Bytes}

theorem cached_clear : pass.clear.Cached platform := nofun

theorem acquire_eq_ok (h : acquire binding = .ok pass) :
    pass.binding.val = binding ∧ pass.Cached platform := by
  unfold acquire at h
  split at h
  · cases h
  next named hexact =>
    obtain rfl := Except.ok.inj h
    exact ⟨(exactBinding_eq_some_iff.mp hexact).1.symm, nofun⟩

/-- **The key of a slot**, kept or new, is the one that the slot unwraps to. -/
theorem keep_eq (hcached : pass.Cached platform) :
    pass.keep platform slot id = (unprotectKey platform slot id pass.binding).map fun key =>
      { pass with id := id, key := key, slot := slot } := by
  unfold keep
  split_ifs with hmiss
  · cases unprotectKey platform slot id pass.binding <;> rfl
  · obtain ⟨hlength, rfl, rfl⟩ : pass.key.length = 32 ∧ pass.id = id ∧ pass.slot = slot := by
      simpa only [ne_eq, not_or, not_not] using hmiss
    rw [hcached hlength]
    rfl

/-- What a pass keeps after it has looked for a key. -/
theorem keep_eq_ok (hcached : pass.Cached platform) (h : pass.keep platform slot id = .ok held) :
    held.binding = pass.binding ∧ unprotectKey platform slot id pass.binding = .ok held.key ∧
      held.Cached platform := by
  rw [keep_eq hcached] at h
  cases hkey : unprotectKey platform slot id pass.binding with
  | error error =>
    rw [hkey] at h
    cases h
  | ok key =>
    rw [hkey] at h
    obtain rfl := Except.ok.inj h
    exact ⟨rfl, rfl, fun _ => hkey⟩

/-- **A pass opens a record as `openRecord` does**, with the slot file as it is. -/
theorem openNext_fst (hcached : pass.Cached platform) :
    (pass.openNext platform files context record).1 =
      openRecord platform files pass.binding.val context record := by
  have hexact : exactBinding pass.binding.val = some pass.binding :=
    exactBinding_eq_some_iff.mpr ⟨rfl, pass.bound⟩
  unfold openNext attempt openRecord
  rw [hexact]
  dsimp only
  cases checkRecord context record with
  | error error => rfl
  | ok checked =>
    cases readSlot files (recordId record) with
    | error error => rfl
    | ok slot =>
      simp only [keep_eq hcached, bind, Except.bind]
      cases unprotectKey platform slot (recordId record) pass.binding with
      | error error => rfl
      | ok key =>
        simp only [Except.map]
        cases decryptRecord platform key pass.binding context record <;> rfl

/-- A call leaves the binding, and what is kept is right after it. -/
theorem openNext_snd (hcached : pass.Cached platform) :
    (pass.openNext platform files context record).2.binding = pass.binding ∧
      (pass.openNext platform files context record).2.Cached platform := by
  unfold openNext
  cases hattempt : pass.attempt platform files context record with
  | error error => exact ⟨rfl, cached_clear⟩
  | ok opened =>
    obtain ⟨plaintext, held⟩ := opened
    unfold attempt at hattempt
    obtain ⟨-, -, hattempt⟩ := bind_ok_iff.mp hattempt
    obtain ⟨slot, -, hattempt⟩ := bind_ok_iff.mp hattempt
    obtain ⟨kept, hkept, hattempt⟩ := bind_ok_iff.mp hattempt
    obtain ⟨plain, -, hattempt⟩ := bind_ok_iff.mp hattempt
    obtain ⟨rfl, rfl⟩ := Prod.mk.inj (Except.ok.inj hattempt)
    have hheld := keep_eq_ok hcached hkept
    exact ⟨hheld.1, hheld.2.2⟩

/-- **The answers of a pass** are those of `openRecord` on the slot files as they are at each call. -/
theorem answers_eq_map (hcached : pass.Cached platform) (requests : List Request) :
    answers platform pass requests = requests.map fun request =>
      openRecord platform request.files pass.binding.val request.context request.record := by
  induction requests generalizing pass with
  | nil => rfl
  | cons request rest ih =>
    obtain ⟨hbinding, hafter⟩ := @openNext_snd platform pass request.files request.context
      request.record hcached
    rw [answers, List.map_cons, openNext_fst hcached, ih hafter, hbinding]

end Refinement

end ReadPass

end ProtectedJournal
end ApfsAccess
