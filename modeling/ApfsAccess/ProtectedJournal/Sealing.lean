import ApfsAccess.ProtectedJournal.KeySlots

/-!
# Sealing the records of a protected journal

An epoch takes its nonces from a counter of twelve bytes.  `Seal` takes the nonce and moves the counter on
before anything that can fail, and refuses once the counter has come round or as many calls were made as
one key may serve.  What a call hands to the cipher is a `Sealing`, also where the cipher fails.

* `increment_spec` : the counter, as the number it holds.
* `run_nonces` : the nonces of a run go up.
* `sealing_and_opening_agree` : no nonce is taken twice, a frame opens with the binding and the context it
  was sealed with and no others, and a read pass opens as `ProtectedJournalEpoch::Open` does.
-/

namespace ApfsAccess
namespace ProtectedJournal

open ByteBuffer Format Loops
open Wal (appendU32 appendU64 length_appendU32 length_appendU64)
open ProtectedWal (Digest nonzero JournalRecordContext recordMagic recordHeaderBytes recordHeader
  maxJournalRecordBytes maxJournalPlaintextBytes maxJournalEpochRecords associatedData
  length_recordHeader recordHeader_fields)

section Counter

/-- The loop of `Seal` over the counter, from its last byte: the bytes after it, and whether it has gone
past the first. -/
def increment : Bytes → Bytes × Bool
  | [] => ([], true)
  | byte :: rest =>
    let after := increment rest
    if after.2 then (UInt8.ofNat (byte.toNat + 1) :: after.1, byte.toNat + 1 == 256)
    else (byte :: after.1, false)

theorem length_increment (bytes : Bytes) : (increment bytes).1.length = bytes.length := by
  induction bytes with
  | nil => rfl
  | cons byte rest ih =>
    rw [increment]
    split_ifs <;> simp only [List.length_cons, ih]

/-- **The counter counts**, and the carry stands for the byte it has not. -/
theorem increment_spec (bytes : Bytes) :
    beValue (increment bytes).1 + (if (increment bytes).2 then 256 ^ bytes.length else 0) =
      beValue bytes + 1 := by
  induction bytes with
  | nil => rfl
  | cons byte rest ih =>
    have hbyte : byte.toNat < 256 := byte.toNat_lt
    rw [increment]
    cases hcarry : (increment rest).2 with
    | false =>
      rw [hcarry] at ih
      simp only [Bool.false_eq_true, if_false, beValue_cons, length_increment] at ih ⊢
      omega
    | true =>
      rw [hcarry] at ih
      simp only [if_true, beValue_cons, length_increment, UInt8.toNat_ofNat'] at ih ⊢
      by_cases hlast : byte.toNat + 1 = 256
      · -- the byte turns to zero, and its carry is worth the place in front of it
        have hzero : (byte.toNat + 1) % 2 ^ 8 = 0 := by omega
        have hplace : 256 ^ (rest.length + 1) =
            256 ^ rest.length * byte.toNat + 256 ^ rest.length := by
          rw [pow_succ, ← hlast, Nat.mul_add_one]
        rw [hzero, if_pos (beq_iff_eq.mpr hlast), List.length_cons, Nat.mul_zero]
        omega
      · have hsame : (byte.toNat + 1) % 2 ^ 8 = byte.toNat + 1 := Nat.mod_eq_of_lt (by omega)
        rw [hsame, if_neg (by rwa [beq_iff_eq]), Nat.mul_add_one]
        omega

end Counter

section Epochs

/-- `ProtectedJournalEpoch::Impl`. -/
structure Epoch where
  binding : Digest
  id : List.Vector UInt8 16
  key : List.Vector UInt8 32
  next : List.Vector UInt8 12 := List.Vector.replicate 12 0
  attempts : ℕ := 0
  exhausted : Bool := false

/-- What one acquisition gets from Windows: random bytes, and `CryptProtectData`. -/
structure Draw where
  id : List.Vector UInt8 16
  key : List.Vector UInt8 32
  protect : (plain entropy : Bytes) → Option Bytes

/-- `ProtectedJournalEpoch::AcquireWriter`, with the directory after it. -/
def acquireWriter (platform : Platform) (binding : Bytes) (draw : Draw) (files : Directory) :
    Except JournalError (Epoch × Directory) :=
  match exactBinding binding with
  | none => .error .invalidArgument
  | some binding => do
    let slot ← protectKey platform draw.protect draw.key.val draw.id.val binding
    -- `CREATE_NEW`
    if (files (slotName draw.id.val)).isSome then .error .ioFailure
    else
      let published := Function.update files (slotName draw.id.val) (some slot)
      let readback ← readSlot published draw.id.val
      if slot ≠ readback then .error .invalidFrame
      else
        let recovered ← unprotectKey platform readback draw.id.val binding
        if recovered ≠ draw.key.val then .error .protectionFailure
        else .ok ({ binding := binding, id := draw.id, key := draw.key }, published)

/-- A call of `Seal`, with what fails in it: the memory of the frame, that of the associated data, the
cipher. -/
structure SealCall where
  context : JournalRecordContext
  plaintext : Bytes
  frame : Option CryptoError := none
  aad : Option CryptoError := none
  provider : Option CryptoError := none

/-- A call of `Aes256GcmSeal`. -/
structure Sealing where
  nonce : List.Vector UInt8 12
  plaintext : Bytes
  aad : Bytes
  result : Except CryptoError Bytes

/-- What a call of `Seal` returns, leaves and has handed to the cipher. -/
structure Sealed where
  result : Except JournalError Bytes
  epoch : Epoch
  sealing : Option Sealing

namespace Epoch

/-- The epoch after its next nonce was taken. -/
def burn (epoch : Epoch) : Epoch :=
  { epoch with
    next := ⟨(increment epoch.next.val).1, (length_increment _).trans epoch.next.property⟩
    attempts := epoch.attempts + 1
    exhausted := (increment epoch.next.val).2 }

/-- `ProtectedJournalEpoch::Seal`. -/
def sealNext (platform : Platform) (epoch : Epoch) (call : SealCall) : Sealed :=
  if call.context.valid = false then ⟨.error .invalidArgument, epoch, none⟩
  else if maxJournalPlaintextBytes < call.plaintext.length then
    ⟨.error .resourceLimit, epoch, none⟩
  else if epoch.exhausted ∨ maxJournalEpochRecords ≤ epoch.attempts then
    ⟨.error .nonceExhausted, epoch, none⟩
  else
    match call.frame with
    | some error => ⟨.error (fromCrypto error), epoch.burn, none⟩
    | none =>
      let header := recordHeader epoch.id epoch.next (recordHeaderBytes + call.plaintext.length + 16)
      match call.aad with
      | some error => ⟨.error (fromCrypto error), epoch.burn, none⟩
      | none =>
        let aad := associatedData header epoch.binding call.context
        match call.provider with
        | some error =>
          ⟨.error (fromCrypto error), epoch.burn,
            some ⟨epoch.next, call.plaintext, aad, .error error⟩⟩
        | none =>
          let cipher := platform.encrypt epoch.key.val epoch.next.val call.plaintext aad
          ⟨.ok (header ++ cipher), epoch.burn,
            some ⟨epoch.next, call.plaintext, aad, .ok cipher⟩⟩

/-- A sequence of calls on one epoch, each with what came of it. -/
def run (platform : Platform) : Epoch → List SealCall → List (SealCall × Sealed)
  | _, [] => []
  | epoch, call :: rest =>
    (call, epoch.sealNext platform call) :: run platform (epoch.sealNext platform call).epoch rest

end Epoch

/-- What a run has handed to the cipher. -/
def sealings (calls : List (SealCall × Sealed)) : List Sealing := calls.filterMap (·.2.sealing)

end Epochs

/-- What is relied on of the cipher, for a key with which exactly the given calls were made: it opens what
was sealed and nothing else, and the tag takes 16 bytes. -/
structure OpensExactly (platform : Platform) (key : Bytes) (log : List Sealing) : Prop where
  decrypt : ∀ (nonce : List.Vector UInt8 12) (cipher aad plaintext : Bytes),
    platform.decrypt key nonce.val cipher aad = .ok plaintext ↔
      ⟨nonce, plaintext, aad, .ok cipher⟩ ∈ log
  length : ∀ call ∈ log, ∀ cipher, call.result = .ok cipher →
    cipher.length = call.plaintext.length + 16

namespace Epoch

/-- The counter stands at the number of nonces that were taken. -/
structure Counted (epoch : Epoch) : Prop where
  count : beValue epoch.next.val = epoch.attempts
  bound : epoch.attempts ≤ maxJournalEpochRecords
  fresh : epoch.exhausted = false

/-- Two epochs that seal alike, whatever their counters. -/
structure Alike (epoch other : Epoch) : Prop where
  binding : epoch.binding = other.binding
  id : epoch.id = other.id
  key : epoch.key = other.key

section Steps

variable {platform : Platform} {epoch : Epoch} {call : SealCall} {record : Bytes}

/-- What a call can do: it is refused, or it takes the nonce that is next. -/
theorem sealNext_cases :
    ((epoch.sealNext platform call).sealing = none ∧ (epoch.sealNext platform call).epoch = epoch) ∨
      (epoch.attempts < maxJournalEpochRecords ∧
        (epoch.sealNext platform call).epoch = epoch.burn ∧
        ∀ sealing, (epoch.sealNext platform call).sealing = some sealing →
          sealing.nonce = epoch.next) := by
  unfold sealNext
  split_ifs with hvalid hlong hspent
  · exact .inl ⟨rfl, rfl⟩
  · exact .inl ⟨rfl, rfl⟩
  · exact .inl ⟨rfl, rfl⟩
  · have hroom := not_le.mp (not_or.mp hspent).2
    cases call.frame with
    | some error => exact .inr ⟨hroom, rfl, nofun⟩
    | none =>
      cases call.aad with
      | some error => exact .inr ⟨hroom, rfl, nofun⟩
      | none =>
        cases call.provider with
        | some error => exact .inr ⟨hroom, rfl, fun sealing h => Option.some.inj h ▸ rfl⟩
        | none => exact .inr ⟨hroom, rfl, fun sealing h => Option.some.inj h ▸ rfl⟩

/-- A frame is the header and what the cipher has made. -/
theorem sealNext_eq_ok (h : (epoch.sealNext platform call).result = .ok record) :
    call.context.valid = true ∧ call.plaintext.length ≤ maxJournalPlaintextBytes ∧ ∃ cipher,
      (epoch.sealNext platform call).sealing = some ⟨epoch.next, call.plaintext,
        associatedData (recordHeader epoch.id epoch.next
          (recordHeaderBytes + call.plaintext.length + 16)) epoch.binding call.context,
        .ok cipher⟩ ∧
      record = recordHeader epoch.id epoch.next
        (recordHeaderBytes + call.plaintext.length + 16) ++ cipher := by
  unfold sealNext at h ⊢
  split_ifs at h ⊢ with hvalid hlong hspent
  refine ⟨Bool.eq_true_of_not_eq_false hvalid, not_lt.mp hlong, ?_⟩
  cases hframe : call.frame with
  | some error =>
    rw [hframe] at h
    cases h
  | none =>
    cases haad : call.aad with
    | some error =>
      rw [hframe, haad] at h
      cases h
    | none =>
      cases hprovider : call.provider with
      | some error =>
        rw [hframe, haad, hprovider] at h
        cases h
      | none =>
        rw [hframe, haad, hprovider] at h
        exact ⟨_, rfl, (Except.ok.inj h).symm⟩

/-- A nonce that was taken is behind the counter. -/
theorem Counted.burn (hcounted : epoch.Counted) (hroom : epoch.attempts < maxJournalEpochRecords) :
    epoch.burn.Counted := by
  have hspec := increment_spec epoch.next.val
  rw [hcounted.count, epoch.next.property] at hspec
  unfold maxJournalEpochRecords at hroom
  cases hcarry : (increment epoch.next.val).2 with
  | true =>
    rw [hcarry, if_pos rfl] at hspec
    omega
  | false =>
    rw [hcarry] at hspec
    have hcount : beValue (increment epoch.next.val).1 = epoch.attempts + 1 := by simpa using hspec
    exact ⟨hcount, hroom, hcarry⟩

theorem Counted.sealNext (hcounted : epoch.Counted) :
    (epoch.sealNext platform call).epoch.Counted := by
  obtain ⟨-, hsame⟩ | ⟨hroom, hburn, -⟩ := @sealNext_cases platform epoch call
  · rwa [hsame]
  · rw [hburn]
    exact hcounted.burn hroom

theorem alike_sealNext : (epoch.sealNext platform call).epoch.Alike epoch := by
  obtain ⟨-, hsame⟩ | ⟨-, hburn, -⟩ := @sealNext_cases platform epoch call
  · rw [hsame]
    exact ⟨rfl, rfl, rfl⟩
  · rw [hburn]
    exact ⟨rfl, rfl, rfl⟩

end Steps

section Runs

variable {platform : Platform} {epoch : Epoch}

/-- **The nonces of a run go up** from where its counter stands. -/
theorem run_nonces (hcounted : epoch.Counted) (calls : List SealCall) :
    (∀ sealing ∈ sealings (epoch.run platform calls),
      epoch.attempts ≤ beValue sealing.nonce.val) ∧
    (sealings (epoch.run platform calls)).Pairwise fun first second =>
      beValue first.nonce.val < beValue second.nonce.val := by
  induction calls generalizing epoch with
  | nil => exact ⟨fun _ h => absurd h List.not_mem_nil, List.Pairwise.nil⟩
  | cons call rest ih =>
    obtain ⟨hlater, hrising⟩ := ih (@Counted.sealNext platform epoch call hcounted)
    rw [run, sealings, List.filterMap_cons]
    obtain ⟨hnone, hsame⟩ | ⟨-, hburn, hnonce⟩ := @sealNext_cases platform epoch call
    · rw [hsame] at hlater hrising ⊢
      rw [hnone]
      exact ⟨hlater, hrising⟩
    · rw [hburn] at hlater hrising ⊢
      cases hsealing : (epoch.sealNext platform call).sealing with
      | none => exact ⟨fun sealing h => Nat.le_of_succ_le (hlater sealing h), hrising⟩
      | some taken =>
        have hvalue : beValue taken.nonce.val = epoch.attempts := by
          rw [hnonce taken hsealing, hcounted.count]
        refine ⟨fun sealing h => ?_, List.pairwise_cons.mpr ⟨fun sealing h => ?_, hrising⟩⟩
        · obtain rfl | h := List.mem_cons.mp h
          · exact hvalue.ge
          · exact Nat.le_of_succ_le (hlater sealing h)
        · rw [hvalue]
          exact hlater sealing h

/-- **No nonce is taken twice.** -/
theorem nodup_nonces (hcounted : epoch.Counted) (calls : List SealCall) :
    ((sealings (epoch.run platform calls)).map Sealing.nonce).Nodup := by
  refine List.pairwise_map.mpr ((run_nonces hcounted calls).2.imp fun hlt hsame => ?_)
  rw [hsame] at hlt
  exact lt_irrefl _ hlt

/-- Every call of a run is a call on an epoch that seals alike. -/
theorem exists_of_mem_run {calls : List SealCall} {entry : SealCall × Sealed}
    (h : entry ∈ epoch.run platform calls) :
    ∃ before : Epoch, before.Alike epoch ∧ entry.2 = before.sealNext platform entry.1 := by
  induction calls generalizing epoch with
  | nil => exact absurd h List.not_mem_nil
  | cons call rest ih =>
    rw [run, List.mem_cons] at h
    obtain rfl | h := h
    · exact ⟨epoch, ⟨rfl, rfl, rfl⟩, rfl⟩
    · obtain ⟨before, halike, hentry⟩ := ih h
      have hnext := @alike_sealNext platform epoch call
      exact ⟨before, ⟨halike.binding.trans hnext.binding, halike.id.trans hnext.id,
        halike.key.trans hnext.key⟩, hentry⟩

end Runs

end Epoch

section Acquisition

variable {platform : Platform} {binding : Bytes} {draw : Draw} {files published : Directory}
  {epoch : Epoch}

/-- An epoch starts at the first nonce, and its slot stands in the directory and opens to its key. -/
theorem acquireWriter_eq_ok (h : acquireWriter platform binding draw files = .ok (epoch, published)) :
    epoch.Counted ∧ epoch.binding.val = binding ∧ nonzero binding = true ∧ ∃ slot,
      readSlot published epoch.id.val = .ok slot ∧
      unprotectKey platform slot epoch.id.val epoch.binding = .ok epoch.key.val := by
  unfold acquireWriter at h
  split at h
  · cases h
  next digest hexact =>
    obtain ⟨rfl, hnonzero⟩ := exactBinding_eq_some_iff.mp hexact
    obtain ⟨slot, -, h⟩ := bind_ok_iff.mp h
    split_ifs at h
    obtain ⟨readback, hreadback, h⟩ := bind_ok_iff.mp h
    split_ifs at h
    obtain ⟨recovered, hrecovered, h⟩ := bind_ok_iff.mp h
    split_ifs at h with hkey
    obtain ⟨rfl, rfl⟩ := Prod.mk.inj (Except.ok.inj h)
    rw [not_not.mp hkey] at hrecovered
    exact ⟨⟨rfl, Nat.zero_le _, rfl⟩, rfl, hnonzero, readback, hreadback, hrecovered⟩

/-- An epoch is handed out when its slot was made, was not there before, and opens to its key. -/
theorem acquireWriter_of_published {digest : Digest} {slot : Bytes}
    (hexact : exactBinding binding = some digest)
    (hprotect : protectKey platform draw.protect draw.key.val draw.id.val digest = .ok slot)
    (hfresh : files (slotName draw.id.val) = none)
    (hread : readSlot (Function.update files (slotName draw.id.val) (some slot)) draw.id.val =
      .ok slot)
    (hkey : unprotectKey platform slot draw.id.val digest = .ok draw.key.val) :
    acquireWriter platform binding draw files =
      .ok ({ binding := digest, id := draw.id, key := draw.key },
        Function.update files (slotName draw.id.val) (some slot)) := by
  unfold acquireWriter
  simp only [hexact, hprotect, hfresh, hread, hkey, bind, Except.bind, Option.isSome_none,
    Bool.false_eq_true, if_false, ne_eq, not_true_eq_false]

end Acquisition

section Frames

variable {id : List.Vector UInt8 16} {nonce : List.Vector UInt8 12} {cipher header : Bytes}
  {context context' : JournalRecordContext} {binding : Digest} {size : ℕ}

/-- The parts of a frame, as a reader finds them. -/
theorem frame_parts :
    recordId (recordHeader id nonce size ++ cipher) = id.val ∧
      slice (recordHeader id nonce size ++ cipher) 40 12 = nonce.val ∧
      (recordHeader id nonce size ++ cipher).take recordHeaderBytes = recordHeader id nonce size ∧
      (recordHeader id nonce size ++ cipher).drop recordHeaderBytes = cipher := by
  obtain ⟨-, -, -, -, -, hid, hnonce, -⟩ := @recordHeader_fields id nonce size cipher
  exact ⟨hid, hnonce, List.take_left' length_recordHeader, List.drop_left' length_recordHeader⟩

/-- A frame passes the checks of a record. -/
theorem checkRecord_frame (hvalid : context.valid = true) {length : ℕ}
    (hshort : length ≤ maxJournalPlaintextBytes) (hcipher : cipher.length = length + 16) :
    checkRecord context (recordHeader id nonce (recordHeaderBytes + length + 16) ++ cipher) =
      .ok () := by
  obtain ⟨hmagic, hversion, hheader, htotal, hsize, -, -, hzeros⟩ :=
    @recordHeader_fields id nonce (recordHeaderBytes + length + 16) cipher
  have hlength : (recordHeader id nonce (recordHeaderBytes + length + 16) ++ cipher).length =
      length + 80 := by
    rw [List.length_append, length_recordHeader, hcipher]
    unfold recordHeaderBytes
    omega
  have hnonzero : nonzero (List.replicate 12 0) = false := rfl
  unfold checkRecord
  rw [hmagic, hversion, hheader, htotal, hsize, hzeros, hlength, hvalid, hnonzero,
    Wal.leValue_appendU32, Wal.leValue_appendU32, Wal.leValue_appendU32, Wal.leValue_appendU32,
    UInt32.toNat_ofNat', UInt32.toNat_ofNat']
  unfold maxJournalPlaintextBytes maxJournalRecordBytes recordHeaderBytes at hshort
  unfold maxJournalRecordBytes recordHeaderBytes
  rw [Nat.mod_eq_of_lt (by omega), Nat.mod_eq_of_lt (by omega)]
  rw [if_neg nofun, if_neg (by omega), if_neg]
  simp only [ne_eq, not_true_eq_false, false_or, or_false, Bool.false_eq_true]
  have hone : UInt32.toNat 1 = 1 := rfl
  have hwidth : UInt32.toNat 64 = 64 := rfl
  omega

/-- The associated data of one binding say which context they are for. -/
theorem associatedData_context_inj
    (h : associatedData header binding context = associatedData header binding context') :
    context = context' := by
  unfold associatedData at h
  have hbody := List.append_cancel_left (List.append_cancel_left h)
  obtain ⟨hpurpose, hrest⟩ := List.append_inj hbody (by rw [length_appendU32, length_appendU32])
  obtain ⟨hoperation, hchunk⟩ := List.append_inj hrest
    (by rw [context.operation.property, context'.operation.property])
  have hpurpose' := congrArg leValue hpurpose
  rw [Wal.leValue_appendU32, Wal.leValue_appendU32] at hpurpose'
  have hchunk' : context.chunk.toNat = context'.chunk.toNat := by
    have hvalue := congrArg leValue hchunk
    unfold appendU64 at hvalue
    rwa [leValue_leBytes context.chunk.toNat_lt, leValue_leBytes context'.chunk.toNat_lt] at hvalue
  obtain ⟨purpose, operation, chunk⟩ := context
  obtain ⟨purpose', operation', chunk'⟩ := context'
  obtain rfl := UInt32.toNat_inj.mp hpurpose'
  obtain rfl := Subtype.ext hoperation
  obtain rfl := UInt64.toNat_inj.mp hchunk'
  rfl

end Frames

section Agreement

variable {platform : Platform} {epoch : Epoch} {calls : List SealCall} {call : SealCall}
  {result : Sealed} {record slot : Bytes} {files : Directory}

/-- A call of a run that returned a frame: what it has handed to the cipher. -/
theorem exists_cipher_of_returned (hcall : (call, result) ∈ epoch.run platform calls)
    (hrecord : result.result = .ok record) :
    call.context.valid = true ∧ call.plaintext.length ≤ maxJournalPlaintextBytes ∧
      ∃ (nonce : List.Vector UInt8 12) (cipher : Bytes),
        ⟨nonce, call.plaintext, associatedData (recordHeader epoch.id nonce
          (recordHeaderBytes + call.plaintext.length + 16)) epoch.binding call.context,
          .ok cipher⟩ ∈ sealings (epoch.run platform calls) ∧
        record = recordHeader epoch.id nonce
          (recordHeaderBytes + call.plaintext.length + 16) ++ cipher := by
  obtain ⟨before, halike, hresult⟩ := Epoch.exists_of_mem_run hcall
  rw [show result = before.sealNext platform call from hresult] at hrecord
  obtain ⟨hvalid, hshort, cipher, hsealing, hframe⟩ := Epoch.sealNext_eq_ok hrecord
  rw [halike.id, halike.binding] at hsealing
  rw [halike.id] at hframe
  refine ⟨hvalid, hshort, before.next, cipher, List.mem_filterMap.mpr ⟨_, hcall, ?_⟩, hframe⟩
  rw [← hsealing]
  exact congrArg Sealed.sealing hresult

/-- **A frame opens** with the binding and the context it was sealed with. -/
theorem openRecord_of_returned (hnonzero : nonzero epoch.binding.val = true)
    (hslot : readSlot files epoch.id.val = .ok slot)
    (hkey : unprotectKey platform slot epoch.id.val epoch.binding = .ok epoch.key.val)
    (hopens : OpensExactly platform epoch.key.val (sealings (epoch.run platform calls)))
    (hcall : (call, result) ∈ epoch.run platform calls) (hrecord : result.result = .ok record) :
    openRecord platform files epoch.binding.val call.context record = .ok call.plaintext := by
  obtain ⟨hvalid, hshort, nonce, cipher, hsealing, rfl⟩ := exists_cipher_of_returned hcall hrecord
  obtain ⟨hid, hnonce, htake, hdrop⟩ := @frame_parts epoch.id nonce cipher
    (recordHeaderBytes + call.plaintext.length + 16)
  have hlength := hopens.length _ hsealing cipher rfl
  unfold openRecord
  rw [exactBinding_eq_some_iff.mpr ⟨rfl, hnonzero⟩]
  dsimp only
  rw [checkRecord_frame hvalid hshort hlength, hid, hslot]
  show (unprotectKey platform slot epoch.id.val epoch.binding >>= _) = _
  rw [hkey]
  show decryptRecord platform epoch.key.val epoch.binding call.context _ = _
  unfold decryptRecord
  rw [hnonce, htake, hdrop, (hopens.decrypt _ _ _ _).mpr hsealing]

/-- **A frame that opens** was sealed with the binding and the context it is opened with. -/
theorem eq_of_openRecord_returned (hslot : readSlot files epoch.id.val = .ok slot)
    (hkey : unprotectKey platform slot epoch.id.val epoch.binding = .ok epoch.key.val)
    (hcounted : epoch.Counted)
    (hopens : OpensExactly platform epoch.key.val (sealings (epoch.run platform calls)))
    (hcall : (call, result) ∈ epoch.run platform calls) (hrecord : result.result = .ok record)
    {binding plaintext : Bytes} {context : JournalRecordContext}
    (hopen : openRecord platform files binding context record = .ok plaintext) :
    binding = epoch.binding.val ∧ context = call.context := by
  obtain ⟨-, -, nonce, cipher, hsealing, rfl⟩ := exists_cipher_of_returned hcall hrecord
  obtain ⟨hid, hnonce, htake, hdrop⟩ := @frame_parts epoch.id nonce cipher
    (recordHeaderBytes + call.plaintext.length + 16)
  unfold openRecord at hopen
  split at hopen
  · cases hopen
  next digest hexact =>
    obtain ⟨rfl, -⟩ := exactBinding_eq_some_iff.mp hexact
    obtain ⟨-, -, hopen⟩ := bind_ok_iff.mp hopen
    obtain ⟨read, hread, hopen⟩ := bind_ok_iff.mp hopen
    obtain ⟨key, hunwrapped, hopen⟩ := bind_ok_iff.mp hopen
    rw [hid] at hread hunwrapped
    obtain rfl := Except.ok.inj (hread.symm.trans hslot)
    -- the slot names one binding
    obtain rfl : digest = epoch.binding := Subtype.ext
      ((slice_binding_of_unprotectKey hunwrapped).symm.trans (slice_binding_of_unprotectKey hkey))
    obtain rfl := Except.ok.inj (hunwrapped.symm.trans hkey)
    unfold decryptRecord at hopen
    rw [hnonce, htake, hdrop] at hopen
    split at hopen
    · cases hopen
    next opened hdecrypt =>
      -- and the nonce names one call
      have hother := (hopens.decrypt _ _ _ _).mp hdecrypt
      have hsame := List.inj_on_of_nodup_map (Epoch.nodup_nonces hcounted calls) hother hsealing rfl
      exact ⟨rfl, associatedData_context_inj (congrArg Sealing.aad hsame)⟩

/-- **Sealing and opening agree over any run.**  No two calls of `Seal` on an epoch hand the cipher the
same nonce.  A frame that was returned opens to its plaintext with the binding and the context it was
sealed with, and with no others, as long as the slot of its epoch stands as it was published.  And a read
pass answers every sequence of calls, whatever becomes of the slot files between them, as
`ProtectedJournalEpoch::Open` does on the files as they are at each call. -/
theorem sealing_and_opening_agree (platform : Platform) :
    (∀ (binding : Bytes) (draw : Draw) (files published : Directory) (epoch : Epoch)
        (calls : List SealCall),
      acquireWriter platform binding draw files = .ok (epoch, published) →
      ((sealings (epoch.run platform calls)).map Sealing.nonce).Nodup ∧
      (OpensExactly platform epoch.key.val (sealings (epoch.run platform calls)) →
        ∀ call result record, (call, result) ∈ epoch.run platform calls →
          result.result = .ok record →
          ∀ later : Directory, later (slotName epoch.id.val) = published (slotName epoch.id.val) →
            openRecord platform later binding call.context record = .ok call.plaintext ∧
            ∀ binding' context', binding' ≠ binding ∨ context' ≠ call.context → ∀ plaintext,
              openRecord platform later binding' context' record ≠ .ok plaintext)) ∧
    ∀ (binding : Bytes) (pass : ReadPass) (requests : List ReadPass.Request),
      ReadPass.acquire binding = .ok pass →
      ReadPass.answers platform pass requests = requests.map fun request =>
        openRecord platform request.files binding request.context request.record := by
  refine ⟨fun binding draw files published epoch calls hacquired => ?_,
    fun binding pass requests hpass => ?_⟩
  · obtain ⟨hcounted, rfl, hnonzero, slot, hslot, hkey⟩ := acquireWriter_eq_ok hacquired
    refine ⟨Epoch.nodup_nonces hcounted calls, ?_⟩
    intro hopens call result record hcall hrecord later hlater
    have hread : readSlot later epoch.id.val = .ok slot := by
      unfold readSlot at hslot ⊢
      rwa [hlater]
    refine ⟨openRecord_of_returned hnonzero hread hkey hopens hcall hrecord, ?_⟩
    intro binding' context' hdiffer plaintext hopen
    obtain ⟨hbinding, hcontext⟩ :=
      eq_of_openRecord_returned hread hkey hcounted hopens hcall hrecord hopen
    exact hdiffer.elim (fun h => h hbinding) fun h => h hcontext
  · obtain ⟨rfl, hcached⟩ := @ReadPass.acquire_eq_ok platform _ _ hpass
    exact ReadPass.answers_eq_map hcached requests

end Agreement

section Once

/-- One acquisition: DPAPI puts its entropy in front. -/
def onceDraw : Draw where
  id := List.Vector.replicate 16 1
  key := List.Vector.replicate 32 7
  protect := fun plain entropy => some (entropy ++ plain)

def onceBinding : Digest := List.Vector.replicate 32 5

def onceContext : JournalRecordContext := ⟨1, List.Vector.replicate 32 3, 0⟩

/-- The nonce of the second call. -/
def onceNonce : List.Vector UInt8 12 := ⟨[0, 0, 0, 0, 0, 0, 0, 0, 0, 0, 0, 1], rfl⟩

def onceAad : Bytes :=
  associatedData (recordHeader onceDraw.id onceNonce 81) onceBinding onceContext

def onceCipher : Bytes := 9 :: List.replicate 16 1

/-- A platform whose cipher opens the one frame that is sealed with it. -/
def oncePlatform : Platform where
  checksum := fun bytes => List.Vector.replicate 32 bytes.sum
  unprotect := fun blob entropy => if blob.take 56 = entropy then some (blob.drop 56) else none
  encrypt := fun _ _ plaintext _ => plaintext ++ List.replicate 16 1
  decrypt := fun key nonce record aad =>
    if key = onceDraw.key.val ∧ nonce = onceNonce.val ∧ record = onceCipher ∧ aad = onceAad then
      .ok [9]
    else .error .integrityFailure

def onceEpoch : Epoch := { binding := onceBinding, id := onceDraw.id, key := onceDraw.key }

/-- The cipher fails once, and then seals. -/
def onceCalls : List SealCall :=
  [{ context := onceContext, plaintext := [8], provider := some .providerFailure },
    { context := onceContext, plaintext := [9] }]

def onceSlot : Bytes :=
  match protectKey oncePlatform onceDraw.protect onceDraw.key.val onceDraw.id.val onceBinding with
  | .ok slot => slot
  | .error _ => []

def onceFiles : Directory :=
  Function.update (fun _ => none) (slotName onceDraw.id.val) (some onceSlot)

def oncePass : ReadPass := { binding := onceBinding, bound := rfl }

def onceFrame : Bytes := recordHeader onceDraw.id onceNonce 81 ++ onceCipher

theorem acquireWriter_once :
    acquireWriter oncePlatform onceBinding.val onceDraw (fun _ => none) =
      .ok (onceEpoch, onceFiles) := by
  have hprotect : protectKey oncePlatform onceDraw.protect onceDraw.key.val onceDraw.id.val
      onceBinding = .ok onceSlot := by decide +kernel
  have hread : readSlot onceFiles onceDraw.id.val = .ok onceSlot := by decide +kernel
  have hkey : unprotectKey oncePlatform onceSlot onceDraw.id.val onceBinding =
      .ok onceDraw.key.val := by decide +kernel
  exact acquireWriter_of_published (exactBinding_eq_some_iff.mpr ⟨rfl, rfl⟩) hprotect rfl hread hkey

theorem opensExactly_once :
    OpensExactly oncePlatform onceEpoch.key.val
      (sealings (onceEpoch.run oncePlatform onceCalls)) := by
  have hlog : sealings (onceEpoch.run oncePlatform onceCalls) =
      [⟨List.Vector.replicate 12 0, [8], associatedData (recordHeader onceDraw.id
          (List.Vector.replicate 12 0) 81) onceBinding onceContext, .error .providerFailure⟩,
        ⟨onceNonce, [9], onceAad, .ok onceCipher⟩] := rfl
  rw [hlog]
  constructor
  · intro nonce cipher aad plaintext
    have hkey : onceEpoch.key.val = onceDraw.key.val := rfl
    simp only [oncePlatform, hkey, true_and, List.mem_cons, List.not_mem_nil, or_false,
      Sealing.mk.injEq, Except.ok.injEq, reduceCtorEq, and_false, false_or]
    split_ifs with hsealed
    · rw [Except.ok.injEq]
      exact ⟨fun h => ⟨Subtype.ext hsealed.1, h.symm, hsealed.2.2, hsealed.2.1⟩,
        fun h => h.2.1.symm⟩
    · refine iff_of_false nofun fun h => hsealed ⟨congrArg Subtype.val h.1, h.2.2.2, h.2.2.1⟩
  · intro call hcall cipher hresult
    simp only [List.mem_cons, List.not_mem_nil, or_false] at hcall
    obtain rfl | rfl := hcall
    · cases hresult
    · rw [← Except.ok.inj hresult]
      rfl

/-- The second call returns a frame that opens, and no other context opens it; a pass that reads it, finds
its slot gone and reads it again answers as the reader without a cache. -/
theorem sealing_and_opening_agree_once :
    ((sealings (onceEpoch.run oncePlatform onceCalls)).map Sealing.nonce).Nodup ∧
      openRecord oncePlatform onceFiles onceBinding.val onceContext onceFrame = .ok [9] ∧
      (∀ plaintext, openRecord oncePlatform onceFiles onceBinding.val
        { onceContext with chunk := 1 } onceFrame ≠ .ok plaintext) ∧
      ReadPass.answers oncePlatform oncePass
          [⟨onceFiles, onceContext, onceFrame⟩, ⟨fun _ => none, onceContext, onceFrame⟩,
            ⟨onceFiles, onceContext, onceFrame⟩] =
        [.ok [9], .error .missingKey, .ok [9]] := by
  obtain ⟨hepochs, hpasses⟩ := sealing_and_opening_agree oncePlatform
  obtain ⟨hnodup, hframes⟩ := hepochs onceBinding.val onceDraw (fun _ => none) onceFiles onceEpoch
    onceCalls acquireWriter_once
  obtain ⟨hopen, hrefused⟩ := hframes opensExactly_once
    { context := onceContext, plaintext := [9] } _ onceFrame (List.mem_cons_of_mem _
      (List.mem_singleton.mpr rfl)) rfl onceFiles rfl
  refine ⟨hnodup, hopen, hrefused onceBinding.val _ (.inr fun h => ?_), ?_⟩
  · exact absurd (congrArg JournalRecordContext.chunk h) (by decide)
  · rw [hpasses onceBinding.val oncePass _ rfl, List.map_cons, List.map_cons, List.map_cons, List.map_nil,
      hopen]
    have hgone : openRecord oncePlatform (fun _ => none) onceBinding.val onceContext onceFrame =
        .error .missingKey := by decide +kernel
    rw [hgone]

end Once

end ProtectedJournal
end ApfsAccess
