import ApfsAccess.Fusion.Publication

/-!
# The grammar of the Fusion witness

The decoder goes on after a field that is not there.  Here it is read as a reader that stops, and that
reader takes back exactly what `writeWitness` wrote.

* `decode_eq_ok_iff` : what the decoder accepts.
-/

namespace ApfsAccess
namespace Fusion

open ByteBuffer Cursor Format Recovery

/-! ## The reader that stops -/

/-- `decodeBinding`. -/
def readBinding : Reader UInt8 (Digest × Digest × Bytes) := do
  let source ← readData 32
  let hash ← readData 32
  let jid ← readData 1024
  if h : hash.length = 32 ∧ source.length = 32 then pure (⟨source, h.2⟩, ⟨hash, h.1⟩, jid)
  else failure

/-- `decodeWrite`. -/
def readWrite : Reader UInt8 PlannedWrite := do
  let kind ← readNumber
  check (kind ≤ 4)
  let physicalBlock ← readNumber
  let objectId ← readNumber
  let bytes ← readData 4096
  pure { kind := kind.toUInt32, physicalBlock, objectId, bytes }

/-- `decodeGuard`. -/
def readGuard : Reader UInt8 GuardBlock := do
  let physicalBlock ← readNumber
  let bytes ← readData 4096
  pure { physicalBlock, bytes }

/-- One round of `decodePreimages`. -/
def readPreimage : Reader UInt8 (UInt64 × Bytes) := do
  let physicalBlock ← readNumber
  let bytes ← readData 4096
  pure (physicalBlock, bytes)

/-- `decodeHead`. -/
def readHead : Reader UInt8 Head := do
  let found ← readNumber
  check (found = magic)
  let (source, payloadHash, jid) ← readBinding
  let name ← readData 255
  let [volume, inode, offset, length, operation] ← times 5 readNumber | failure
  let payload ← readData (256 * 1024)
  let blockSize ← readNumber
  check (blockSize = 4096)
  let [expectedCheckpointXid, transactionXid, nextObjectId] ← times 3 readNumber | failure
  let writes ← readList (fun count => decide (count ≤ writeLimit)) readWrite
  let superblockWrite ← readWrite
  let mirror ← readWrite
  let guards ← readList (fun count => decide (count ≤ guardLimit)) readGuard
  pure {
    source, payloadHash, jid, name, volume, inode, offset, length, operation, payload
    expectedCheckpointXid, transactionXid, nextObjectId, writes, superblockWrite, mirror, guards }

section Agreement

theorem agrees_number : Agrees number readNumber := agrees_lenient readNumber 0

theorem agrees_throw {α : Type} (error : String) :
    Agrees (throw error : Decoder α) (failure : Reader UInt8 α) where
  good _ _ _ := iff_of_false nofun nofun
  stuck _ _ _ := nofun

theorem agrees_counted (maximum count : ℕ) :
    Agrees (counted maximum count) (check (count ≤ maximum) >>= fun _ => takeExactly count) where
  good rest value last := by
    rw [check_bind_iff]
    show (if true = false ∨ maximum < count ∨ rest.length < count then
        (Except.ok ([], ⟨rest, false⟩) : Except String (Bytes × Flagged UInt8))
      else .ok (rest.take count, ⟨rest.drop count, true⟩)) = .ok (value, ⟨last, true⟩) ↔
      count ≤ maximum ∧ (if rest.length < count then none
        else some (rest.take count, rest.drop count)) = some (value, last)
    by_cases hmaximum : count ≤ maximum
    · by_cases hlength : rest.length < count
      · rw [if_pos (Or.inr (Or.inr hlength)), if_pos hlength]
        exact iff_of_false (fun h => by cases h) fun h => by cases h.2
      · rw [if_neg (by simp only [Bool.true_eq_false, false_or]; omega), if_neg hlength,
          Except.ok.injEq, Option.some_inj, Prod.mk.injEq, Prod.mk.injEq, Flagged.mk.injEq]
        exact ⟨fun h => ⟨hmaximum, h.1, h.2.1⟩, fun h => ⟨h.2.1, h.2.2, rfl⟩⟩
    · rw [if_pos (Or.inr (Or.inl (not_le.mp hmaximum)))]
      exact iff_of_false (fun h => by cases h) fun h => hmaximum h.1
  stuck rest value last := by
    show (if false = false ∨ maximum < count ∨ rest.length < count then
        (Except.ok ([], ⟨rest, false⟩) : Except String (Bytes × Flagged UInt8))
      else .ok (rest.take count, ⟨rest.drop count, false⟩)) ≠ .ok (value, ⟨last, true⟩)
    rw [if_pos (Or.inl rfl)]
    exact fun h => by cases h

theorem agrees_bytesUpTo (maximum : ℕ) : Agrees (bytesUpTo maximum) (readData maximum) :=
  agrees_number.bind fun count => agrees_counted maximum count.toNat

theorem agrees_decodeBinding : Agrees decodeBinding readBinding := by
  refine (agrees_bytesUpTo 32).bind fun source => (agrees_bytesUpTo 32).bind fun hash =>
    (agrees_bytesUpTo 1024).bind fun jid => ?_
  split_ifs with h hswap hswap
  · exact agrees_pure _
  · exact absurd h.symm hswap
  · exact absurd hswap.symm h
  · exact agrees_throw _

theorem agrees_decodeWrite : Agrees decodeWrite readWrite :=
  agrees_number.bind fun kind => (agrees_mark (kind ≤ 4)).bind fun _ =>
    agrees_number.bind fun _ => agrees_number.bind fun _ =>
      (agrees_bytesUpTo 4096).bind fun _ => agrees_pure _

theorem agrees_decodeGuard : Agrees decodeGuard readGuard :=
  agrees_number.bind fun _ => (agrees_bytesUpTo 4096).bind fun _ => agrees_pure _

theorem agrees_decodeList {α : Type} {item : Decoder α} {reader : Reader UInt8 α} (maximum : ℕ)
    (error : String) (h : Agrees item reader) :
    Agrees (decodeList maximum error item)
      (readList (fun count => decide (count ≤ maximum)) reader) := by
  refine agrees_number.bind fun count => ?_
  have hcheck : (check (decide (count.toNat ≤ maximum) = true) : Reader UInt8 Unit) =
      check (count.toNat ≤ maximum) := by
    funext rest
    simp only [check, decide_eq_true_eq]
  simp only [hcheck]
  exact (agrees_require _ error).bind fun _ => agrees_times h count.toNat

theorem agrees_decodeHead : Agrees decodeHead readHead := by
  refine agrees_number.bind fun found => (agrees_require _ _).bind fun _ =>
    agrees_decodeBinding.bind fun binding => (agrees_bytesUpTo 255).bind fun name =>
    (agrees_times agrees_number 5).bind fun target => ?_
  match target with
  | [] | [_] | [_, _] | [_, _, _] | [_, _, _, _] | _ :: _ :: _ :: _ :: _ :: _ :: _ =>
    exact agrees_throw _
  | [volume, inode, offset, length, operation] =>
    refine (agrees_bytesUpTo _).bind fun payload => agrees_number.bind fun blockSize =>
      (agrees_require _ _).bind fun _ => (agrees_times agrees_number 3).bind fun numbers => ?_
    match numbers with
    | [] | [_] | [_, _] | _ :: _ :: _ :: _ :: _ => exact agrees_throw _
    | [expected, transaction, next] =>
      exact (agrees_decodeList _ _ agrees_decodeWrite).bind fun writes =>
        agrees_decodeWrite.bind fun superblock => agrees_decodeWrite.bind fun mirror =>
          (agrees_decodeList _ _ agrees_decodeGuard).bind fun guards => agrees_pure _

end Agreement

/-! ## The reader takes back what was written -/

/-- The writes that the reader takes. -/
def PlannedWrite.Readable (w : PlannedWrite) : Prop := w.kind ≤ 4 ∧ w.bytes.length ≤ 4096

/-- The heads that the reader takes. -/
structure Head.Readable (head : Head) : Prop where
  jid : head.jid.length ≤ 1024
  name : head.name.length ≤ 255
  payload : head.payload.length ≤ 256 * 1024
  writeCount : head.writes.length ≤ writeLimit
  writes : ∀ w ∈ head.writes, w.Readable
  superblockWrite : head.superblockWrite.Readable
  mirror : head.mirror.Readable
  guardCount : head.guards.length ≤ guardLimit
  guards : ∀ g ∈ head.guards, g.bytes.length ≤ 4096

section Codec

theorem codes_readBinding :
    Codes readBinding Head.writeBinding (fun binding => binding.2.2.length ≤ 1024) := by
  intro input binding rest
  rw [readBinding, (codes_readData (by norm_num)).bind_iff]
  constructor
  · rintro ⟨source, r0, -, e0, hrun⟩
    obtain ⟨hash, r1, -, e1, hrun⟩ := (codes_readData (by norm_num)).bind_iff.mp hrun
    obtain ⟨jid, r2, hjid, e2, hrun⟩ := (codes_readData (by norm_num)).bind_iff.mp hrun
    split_ifs at hrun with h
    · obtain ⟨rfl, rfl⟩ := Prod.mk.inj (run_pure_iff.mp hrun)
      refine ⟨hjid, ?_⟩
      rw [e0, e1, e2, Head.writeBinding, List.append_assoc, List.append_assoc]
    · cases hrun
  · rintro ⟨hjid, hinput⟩
    rw [Head.writeBinding, List.append_assoc, List.append_assoc] at hinput
    refine ⟨binding.1.val, _, binding.1.property.le, hinput, ?_⟩
    refine (codes_readData (by norm_num)).bind_iff.mpr
      ⟨binding.2.1.val, _, binding.2.1.property.le, rfl, ?_⟩
    refine (codes_readData (by norm_num)).bind_iff.mpr ⟨binding.2.2, rest, hjid, rfl, ?_⟩
    rw [dif_pos ⟨binding.2.1.property, binding.1.property⟩]
    rfl

theorem codes_readWrite : Codes readWrite PlannedWrite.write PlannedWrite.Readable := by
  intro input w rest
  rw [readWrite, codes_readNumber.bind_iff]
  constructor
  · rintro ⟨kind, r0, -, e0, hrun⟩
    obtain ⟨hkind, hrun⟩ := check_bind_iff.mp hrun
    obtain ⟨physicalBlock, r1, -, e1, hrun⟩ := codes_readNumber.bind_iff.mp hrun
    obtain ⟨objectId, r2, -, e2, hrun⟩ := codes_readNumber.bind_iff.mp hrun
    obtain ⟨bytes, r3, hbytes, e3, hrun⟩ := (codes_readData (by norm_num)).bind_iff.mp hrun
    obtain ⟨rfl, rfl⟩ := Prod.mk.inj (run_pure_iff.mp hrun)
    have hle : kind.toNat ≤ 4 := UInt64.le_iff_toNat_le.mp hkind
    have hback : kind.toUInt32.toUInt64 = kind := by
      apply UInt64.toNat_inj.mp
      rw [UInt32.toNat_toUInt64, UInt64.toNat_toUInt32]
      omega
    refine ⟨⟨?_, hbytes⟩, ?_⟩
    · rw [UInt32.le_iff_toNat_le, UInt64.toNat_toUInt32]
      show kind.toNat % 2 ^ 32 ≤ 4
      omega
    · rw [e0, e1, e2, e3, PlannedWrite.write, hback]
      simp only [List.append_assoc]
  · rintro ⟨⟨hkind, hbytes⟩, hinput⟩
    simp only [PlannedWrite.write, List.append_assoc] at hinput
    have hle : w.kind.toUInt64 ≤ 4 := by
      rw [UInt64.le_iff_toNat_le, UInt32.toNat_toUInt64]
      exact UInt32.le_iff_toNat_le.mp hkind
    refine ⟨_, _, trivial, hinput, check_bind_iff.mpr ⟨hle, ?_⟩⟩
    refine codes_readNumber.bind_iff.mpr ⟨_, _, trivial, rfl, ?_⟩
    refine codes_readNumber.bind_iff.mpr ⟨_, _, trivial, rfl, ?_⟩
    refine (codes_readData (by norm_num)).bind_iff.mpr ⟨_, _, hbytes, rfl, ?_⟩
    rw [UInt32.toUInt32_toUInt64]
    rfl

theorem codes_readGuard :
    Codes readGuard GuardBlock.write (fun g => g.bytes.length ≤ 4096) := by
  intro input g rest
  simp only [readGuard, codes_readNumber.bind_iff,
    (codes_readData (show 4096 < 2 ^ 64 by norm_num)).bind_iff, run_pure_iff, Prod.mk.injEq]
  constructor
  · rintro ⟨physicalBlock, left, -, hinput, bytes, last, hbytes, hleft, rfl, rfl⟩
    exact ⟨hbytes, by rw [hinput, hleft, GuardBlock.write, List.append_assoc]⟩
  · rintro ⟨hbytes, hinput⟩
    rw [GuardBlock.write, List.append_assoc] at hinput
    exact ⟨_, _, trivial, hinput, _, _, hbytes, rfl, rfl, rfl⟩

theorem codes_readPreimage :
    Codes readPreimage writePreimage (fun entry => entry.2.length ≤ 4096) := by
  intro input entry rest
  simp only [readPreimage, codes_readNumber.bind_iff,
    (codes_readData (show 4096 < 2 ^ 64 by norm_num)).bind_iff, run_pure_iff, Prod.mk.injEq]
  constructor
  · rintro ⟨physicalBlock, left, -, hinput, bytes, last, hbytes, hleft, rfl, rfl⟩
    exact ⟨hbytes, by rw [hinput, hleft, writePreimage, List.append_assoc]⟩
  · rintro ⟨hbytes, hinput⟩
    rw [writePreimage, List.append_assoc] at hinput
    exact ⟨_, _, trivial, hinput, _, _, hbytes, rfl, rfl, rfl⟩

/-- A list of at most `maximum` items. -/
theorem codes_readLimited {α : Type} {maximum : ℕ} (hmaximum : maximum < 2 ^ 64)
    {item : Reader UInt8 α} {write : α → Bytes} {valid : α → Prop} (hitem : Codes item write valid) :
    Codes (readList (fun count => decide (count ≤ maximum)) item) (writeList write)
      (fun values => values.length ≤ maximum ∧ ∀ value ∈ values, valid value) := by
  intro input values rest
  have hlist := @codes_readList α (fun count => decide (count ≤ maximum)) item write valid
    (fun count h => lt_of_le_of_lt (of_decide_eq_true h) hmaximum) hitem input values rest
  simp only [decide_eq_true_eq] at hlist
  exact hlist

/-- **Reader and writer form a codec.** -/
theorem codes_readHead : Codes readHead Head.write Head.Readable := by
  intro input head rest
  rw [readHead, codes_readNumber.bind_iff]
  constructor
  · rintro ⟨found, r0, -, e0, hrun⟩
    obtain ⟨hfound, hrun⟩ := check_bind_iff.mp hrun
    obtain ⟨⟨source, hash, jid⟩, r1, hjid, e1, hrun⟩ := codes_readBinding.bind_iff.mp hrun
    obtain ⟨name, r2, hname, e2, hrun⟩ := (codes_readData (by norm_num)).bind_iff.mp hrun
    obtain ⟨target, r3, ⟨htarget, -⟩, e3, hrun⟩ := (codes_times codes_readNumber 5).bind_iff.mp hrun
    match target, htarget with
    | [volume, inode, offset, length, operation], _ =>
      obtain ⟨payload, r4, hpayload, e4, hrun⟩ := (codes_readData (by norm_num)).bind_iff.mp hrun
      obtain ⟨blockSize, r5, -, e5, hrun⟩ := codes_readNumber.bind_iff.mp hrun
      obtain ⟨hblockSize, hrun⟩ := check_bind_iff.mp hrun
      obtain ⟨numbers, r6, ⟨hnumbers, -⟩, e6, hrun⟩ :=
        (codes_times codes_readNumber 3).bind_iff.mp hrun
      match numbers, hnumbers with
      | [expected, transaction, next], _ =>
        obtain ⟨writes, r7, ⟨hcount, hwrites⟩, e7, hrun⟩ :=
          (codes_readLimited (by norm_num [writeLimit]) codes_readWrite).bind_iff.mp hrun
        obtain ⟨superblock, r8, hsuperblock, e8, hrun⟩ := codes_readWrite.bind_iff.mp hrun
        obtain ⟨mirror, r9, hmirror, e9, hrun⟩ := codes_readWrite.bind_iff.mp hrun
        obtain ⟨guards, r10, ⟨hguardCount, hguards⟩, e10, hrun⟩ :=
          (codes_readLimited (by norm_num [guardLimit]) codes_readGuard).bind_iff.mp hrun
        obtain ⟨rfl, rfl⟩ := Prod.mk.inj (run_pure_iff.mp hrun)
        refine ⟨⟨hjid, hname, hpayload, hcount, hwrites, hsuperblock, hmirror, hguardCount, hguards⟩,
          ?_⟩
        rw [e0, e1, e2, e3, e4, e5, e6, e7, e8, e9, e10, hfound, hblockSize]
        simp only [Head.write, List.append_assoc]
        rfl
  · rintro ⟨h, hinput⟩
    simp only [Head.write, List.append_assoc] at hinput
    refine ⟨magic, _, trivial, hinput, check_bind_iff.mpr ⟨rfl, ?_⟩⟩
    refine codes_readBinding.bind_iff.mpr ⟨head.binding, _, h.jid, rfl, ?_⟩
    refine (codes_readData (by norm_num)).bind_iff.mpr ⟨head.name, _, h.name, rfl, ?_⟩
    refine (codes_times codes_readNumber 5).bind_iff.mpr
      ⟨head.target, _, ⟨rfl, fun _ _ => trivial⟩, rfl, ?_⟩
    refine (codes_readData (by norm_num)).bind_iff.mpr ⟨head.payload, _, h.payload, rfl, ?_⟩
    refine codes_readNumber.bind_iff.mpr ⟨4096, _, trivial, rfl, check_bind_iff.mpr ⟨rfl, ?_⟩⟩
    refine (codes_times codes_readNumber 3).bind_iff.mpr
      ⟨head.planNumbers, _, ⟨rfl, fun _ _ => trivial⟩, rfl, ?_⟩
    refine (codes_readLimited (by norm_num [writeLimit]) codes_readWrite).bind_iff.mpr
      ⟨head.writes, _, ⟨h.writeCount, h.writes⟩, rfl, ?_⟩
    refine codes_readWrite.bind_iff.mpr ⟨head.superblockWrite, _, h.superblockWrite, rfl, ?_⟩
    refine codes_readWrite.bind_iff.mpr ⟨head.mirror, _, h.mirror, rfl, ?_⟩
    exact (codes_readLimited (by norm_num [guardLimit]) codes_readGuard).bind_iff.mpr
      ⟨head.guards, rest, ⟨h.guardCount, h.guards⟩, rfl, rfl⟩

end Codec

/-! ## The preimages and the whole witness -/

/-- `decodePreimages`. -/
def readPreimages : ℕ → Preimages → Reader UInt8 Preimages
  | 0, before => pure before
  | count + 1, before => do
    let physicalBlock ← readNumber
    let bytes ← readData 4096
    match before.emplace physicalBlock bytes with
    | some before => readPreimages count before
    | none => do
      check False
      readPreimages count before

theorem agrees_decodePreimages (count : ℕ) (before : Preimages) :
    Agrees (decodePreimages count before) (readPreimages count before) := by
  induction count generalizing before with
  | zero => exact agrees_pure before
  | succ count ih =>
    refine agrees_number.bind fun physicalBlock => (agrees_bytesUpTo 4096).bind fun bytes => ?_
    match before.emplace physicalBlock bytes with
    | some before => exact ih before
    | none => exact (agrees_mark False).bind fun _ => ih before

/-- **The loop over the preimages**: the entries as they stand, put into the map one after another. -/
theorem run_readPreimages_iff {count : ℕ} {before after : Preimages} {input rest : Bytes} :
    (readPreimages count before).run input = some (after, rest) ↔
      ∃ entries, entries.length = count ∧ (∀ entry ∈ entries, entry.2.length ≤ 4096) ∧
        before.emplaceAll entries = some after ∧ input = entries.flatMap writePreimage ++ rest := by
  induction count generalizing before input with
  | zero =>
    rw [readPreimages, run_pure_iff, Prod.mk.injEq]
    constructor
    · rintro ⟨rfl, rfl⟩
      exact ⟨[], rfl, nofun, rfl, rfl⟩
    · rintro ⟨entries, hlength, -, hbefore, hinput⟩
      obtain rfl := List.length_eq_zero_iff.mp hlength
      exact ⟨Option.some.inj hbefore, hinput⟩
  | succ count ih =>
    rw [readPreimages, codes_readNumber.bind_iff]
    constructor
    · rintro ⟨physicalBlock, r0, -, e0, hrun⟩
      obtain ⟨bytes, r1, hbytes, e1, hrun⟩ := (codes_readData (by norm_num)).bind_iff.mp hrun
      match hemplace : before.emplace physicalBlock bytes with
      | none =>
        rw [hemplace] at hrun
        exact (check_bind_iff.mp hrun).1.elim
      | some middle =>
        rw [hemplace] at hrun
        obtain ⟨entries, hlength, hall, hmiddle, e2⟩ := ih.mp hrun
        refine ⟨(physicalBlock, bytes) :: entries, congrArg (· + 1) hlength,
          List.forall_mem_cons.mpr ⟨hbytes, hall⟩, ?_, ?_⟩
        · rw [Preimages.emplaceAll_cons, hemplace]
          exact hmiddle
        · rw [e0, e1, e2, List.flatMap_cons, writePreimage]
          simp only [List.append_assoc]
    · rintro ⟨entries, hlength, hall, hbefore, hinput⟩
      obtain ⟨entry, others, rfl⟩ := List.exists_cons_of_length_eq_add_one hlength
      obtain ⟨hbytes, hothers⟩ := List.forall_mem_cons.mp hall
      rw [Preimages.emplaceAll_cons, Option.bind_eq_some_iff] at hbefore
      obtain ⟨middle, hemplace, hmiddle⟩ := hbefore
      rw [List.flatMap_cons, writePreimage, List.append_assoc, List.append_assoc] at hinput
      refine ⟨entry.1, _, trivial, hinput, ?_⟩
      refine (codes_readData (by norm_num)).bind_iff.mpr ⟨entry.2, _, hbytes, rfl, ?_⟩
      rw [hemplace]
      exact ih.mpr ⟨others, Nat.succ.inj hlength, hothers, hmiddle, rfl⟩

/-- A head and its preimages, as they stand in a witness that the decoder reads to the end. -/
structure Spelled (head : Head) (entries : List (UInt64 × Bytes)) (before : Preimages) : Prop where
  head : head.Readable
  count : entries.length ≤ preimageLimit
  bytes : ∀ entry ∈ entries, entry.2.length ≤ 4096
  before : Preimages.empty.emplaceAll entries = some before

section Body

variable {View : Type} [Inhabited View]

/-- `decodeBody`. -/
def readBody : Reader UInt8 (PreparedPublication View) := do
  let head ← readHead
  let count ← readNumber
  check (count.toNat ≤ preimageLimit)
  let before ← readPreimages count.toNat .empty
  pure (head.publication before)

theorem agrees_decodeBody : Agrees (@decodeBody View _) readBody :=
  agrees_decodeHead.bind fun _ => agrees_number.bind fun count => (agrees_require _ _).bind fun _ =>
    (agrees_decodePreimages count.toNat .empty).bind fun _ => agrees_pure _

theorem run_readBody_iff {p : PreparedPublication View} {input rest : Bytes} :
    readBody.run input = some (p, rest) ↔
      ∃ head entries before, Spelled head entries before ∧ p = head.publication before ∧
        input = writeWitness head entries ++ rest := by
  rw [readBody, codes_readHead.bind_iff]
  constructor
  · rintro ⟨head, r0, hhead, e0, hrun⟩
    obtain ⟨count, r1, -, e1, hrun⟩ := codes_readNumber.bind_iff.mp hrun
    obtain ⟨hcount, hrun⟩ := check_bind_iff.mp hrun
    rw [StateT.run_bind, Option.bind_eq_bind, Option.bind_eq_some_iff] at hrun
    obtain ⟨⟨before, r2⟩, hpreimages, hrun⟩ := hrun
    obtain ⟨rfl, rfl⟩ := Prod.mk.inj (run_pure_iff.mp hrun)
    obtain ⟨entries, hlength, hbytes, hbefore, e2⟩ := run_readPreimages_iff.mp hpreimages
    refine ⟨head, entries, before, ⟨hhead, hlength.trans_le hcount, hbytes, hbefore⟩, rfl, ?_⟩
    rw [e0, e1, e2, writeWitness, writeList, hlength, UInt64.ofNat_toNat]
    simp only [List.append_assoc]
  · rintro ⟨head, entries, before, h, rfl, rfl⟩
    have hfit : entries.length < 2 ^ 64 :=
      lt_of_le_of_lt h.count (by norm_num [preimageLimit, writeLimit])
    have hlength := UInt64.toNat_ofNat_of_lt' hfit
    rw [writeWitness, writeList, List.append_assoc, List.append_assoc]
    refine ⟨head, _, h.head, rfl, codes_readNumber.bind_iff.mpr ⟨_, _, trivial, rfl, ?_⟩⟩
    refine check_bind_iff.mpr ⟨hlength.trans_le h.count, ?_⟩
    rw [StateT.run_bind, Option.bind_eq_bind, Option.bind_eq_some_iff]
    refine ⟨(before, rest), run_readPreimages_iff.mpr ?_, rfl⟩
    exact ⟨entries, hlength.symm, h.bytes, h.before, rfl⟩

/-- **What the decoder accepts.** -/
theorem decode_eq_ok_iff {sha256 : Bytes → Digest} {b : Bytes} {p : PreparedPublication View} :
    decode sha256 b = .ok p ↔
      b.length ≤ limit ∧ ∃ head entries before, Spelled head entries before ∧
        p = head.publication before ∧ b = writeWitness head entries ∧
        sha256 head.payload = head.payloadHash := by
  unfold decode
  split_ifs with hlength
  · exact iff_of_false nofun fun h => absurd h.1 (not_le.mpr hlength)
  · rw [and_iff_right (not_lt.mp hlength)]
    constructor
    · intro h
      split at h
      · cases h
      · rename_i read state hrun
        split_ifs at h with hbad
        obtain rfl := Except.ok.inj h
        simp only [not_or, Bool.not_eq_false, not_not] at hbad
        obtain ⟨hok, hrest, hhash⟩ := hbad
        obtain ⟨rest, ok⟩ := state
        obtain rfl := hok
        obtain rfl := hrest
        obtain ⟨head, entries, before, hspelled, rfl, hb⟩ :=
          run_readBody_iff.mp ((agrees_decodeBody.good b _ []).mp hrun)
        rw [List.append_nil] at hb
        refine ⟨head, entries, before, hspelled, rfl, hb, ?_⟩
        unfold publicationHash at hhash
        split_ifs at hhash
        exact Option.some.inj hhash
    · rintro ⟨head, entries, before, hspelled, rfl, rfl, hhash⟩
      have hrun := (agrees_decodeBody.good (writeWitness head entries)
        (head.publication before : PreparedPublication View) []).mpr
        (run_readBody_iff.mpr ⟨head, entries, before, hspelled, rfl, (List.append_nil _).symm⟩)
      have hpayload : head.payload.length ≤ limit :=
        hspelled.head.payload.trans (by norm_num [limit])
      have hpublication : publicationHash sha256 head.payload = some head.payloadHash := by
        rw [publicationHash, if_pos hpayload, hhash]
      rw [hrun]
      exact if_neg (by
        simp only [not_or, Bool.true_eq_false, not_false_eq_true, not_not, true_and]
        exact hpublication)

end Body

end Fusion
end ApfsAccess
