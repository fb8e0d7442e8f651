import ApfsAccess.Records.SecurityEntries

/-!
# Security records

A security record is 44 bytes and 24 more for each entry, its words big-endian.  A record without an
access-control list has four bytes of no meaning where the others have their flags; the decoded
record has a field for each, and the one that does not apply is cleared.
-/

namespace ApfsAccess
namespace Records

open ByteBuffer Format

/-! ## The record -/

/-- `AppleSecurityRecord`. -/
structure AppleSecurityRecord where
  owner : Guid
  group : Guid
  noAcl : Bool
  aclFlags : BitVec 32
  noAclFlags : List.Vector UInt8 4
  entries : List AppleSecurityAce
deriving DecidableEq

/-- `kSecurityMagic`. -/
def securityMagic : BitVec 32 := 0x012cc16d

/-- `kSecurityNoAcl`. -/
def securityNoAcl : BitVec 32 := 0xffffffff

/-- `kSecurityMaxEntries`. -/
def securityMaxEntries : ℕ := 128

/-- `kSecurityHeaderBytes`. -/
def securityHeaderBytes : ℕ := 44

/-- `kSecurityAceBytes`. -/
def securityAceBytes : ℕ := 24

/-- The entry of 24 bytes. -/
def decodeAce (bytes : Bytes) : AppleSecurityAce where
  applicable := fieldAt 16 bytes 0
  flags := readSecurityU32 bytes 16
  rights := readSecurityU32 bytes 20

/-- `DecodeSecurity`. -/
def decodeSecurity (bytes : Bytes) : Except String AppleSecurityRecord := do
  rejectIf (bytes.length < securityHeaderBytes) "AppleSecuritySizeInvalid"
  rejectIf (readSecurityU32 bytes 0 ≠ securityMagic) "AppleSecurityMagicInvalid"
  let count := readSecurityU32 bytes 36
  let noAcl := count == securityNoAcl
  rejectIf (noAcl = false ∧ securityMaxEntries < count.toNat) "AppleSecurityCountInvalid"
  let entries := if noAcl then 0 else count.toNat
  rejectIf (bytes.length ≠ securityHeaderBytes + securityAceBytes * entries)
    "AppleSecuritySizeInvalid"
  .ok {
    owner := fieldAt 16 bytes 4
    group := fieldAt 16 bytes 20
    noAcl
    aclFlags := if noAcl then 0 else readSecurityU32 bytes 40
    noAclFlags := if noAcl then fieldAt 4 bytes 40 else List.Vector.replicate 4 0
    entries := (records securityAceBytes entries (bytes.drop securityHeaderBytes)).map decodeAce }

/-- The 24 bytes of an entry. -/
def encodeAce (ace : AppleSecurityAce) : Bytes :=
  ace.applicable.val ++ (writeSecurityU32 ace.flags ++ writeSecurityU32 ace.rights)

/-- The count of a record's header. -/
def AppleSecurityRecord.count (security : AppleSecurityRecord) : BitVec 32 :=
  if security.noAcl then securityNoAcl else BitVec.ofNat 32 security.entries.length

/-- The last four bytes of a record's header. -/
def AppleSecurityRecord.tail (security : AppleSecurityRecord) : Bytes :=
  if security.noAcl then security.noAclFlags.val else writeSecurityU32 security.aclFlags

/-- The bytes that `EncodeSecurity` writes: the magic at 0, the owner at 4, the group at 20, the count
at 36, the flags at 40 and the entries from 44 on. -/
def AppleSecurityRecord.bytes (security : AppleSecurityRecord) : Bytes :=
  writeSecurityU32 securityMagic ++ (security.owner.val ++ (security.group.val ++
    (writeSecurityU32 security.count ++ (security.tail ++ security.entries.flatMap encodeAce))))

/-- `EncodeSecurity`. -/
def encodeSecurity (security : AppleSecurityRecord) : Except String Bytes := do
  rejectIf (securityMaxEntries < security.entries.length ∨
    (security.noAcl = true ∧ security.entries ≠ [])) "AppleSecurityCountInvalid"
  .ok security.bytes

/-- The field that does not apply to a record is zero. -/
def AppleSecurityRecord.Applies (security : AppleSecurityRecord) : Prop :=
  if security.noAcl then security.aclFlags = 0 else security.noAclFlags = List.Vector.replicate 4 0

/-- The record with the field that does not apply cleared. -/
def AppleSecurityRecord.cleared (security : AppleSecurityRecord) : AppleSecurityRecord :=
  { security with
    aclFlags := if security.noAcl then 0 else security.aclFlags
    noAclFlags := if security.noAcl then security.noAclFlags else List.Vector.replicate 4 0 }

section Record

variable {security : AppleSecurityRecord} {bytes : Bytes}

@[simp] theorem length_encodeAce (ace : AppleSecurityAce) :
    (encodeAce ace).length = securityAceBytes := by
  rw [encodeAce, List.length_append, List.length_append, length_writeSecurityU32,
    length_writeSecurityU32, ace.applicable.property]
  rfl

theorem decodeAce_encodeAce (ace : AppleSecurityAce) : decodeAce (encodeAce ace) = ace := by
  have happlicable : fieldAt 16 (encodeAce ace) 0 = ace.applicable :=
    @fieldAt_append UInt8 _ 16 0 [] _ ace.applicable rfl
  have hflags : readSecurityU32 (encodeAce ace) 16 = ace.flags :=
    readSecurityU32_append ace.flags ace.applicable.property
  have hrights : readSecurityU32 (encodeAce ace) 20 = ace.rights := by
    have hsplit : encodeAce ace = (ace.applicable.val ++ writeSecurityU32 ace.flags) ++
        (writeSecurityU32 ace.rights ++ []) := by
      rw [encodeAce, List.append_nil, List.append_assoc]
    rw [hsplit]
    refine readSecurityU32_append ace.rights ?_
    rw [List.length_append, length_writeSecurityU32, ace.applicable.property]
  rw [decodeAce, happlicable, hflags, hrights]

theorem encodeAce_decodeAce (h : bytes.length = securityAceBytes) :
    encodeAce (decodeAce bytes) = bytes := by
  rw [securityAceBytes] at h
  rw [encodeAce, decodeAce, fieldAt_val (by omega), writeSecurityU32_read (by omega),
    writeSecurityU32_read (by omega), slice_append_slice, slice_append_slice]
  refine (congrArg (slice bytes 0) ?_).trans (slice_zero_length bytes)
  omega

@[simp] theorem length_tail : security.tail.length = 4 := by
  rw [AppleSecurityRecord.tail]
  split
  · exact security.noAclFlags.property
  · exact length_writeSecurityU32 security.aclFlags

theorem length_entries :
    (security.entries.flatMap encodeAce).length = securityAceBytes * security.entries.length := by
  rw [List.length_flatMap]
  simp only [length_encodeAce, List.map_const', List.sum_replicate, smul_eq_mul, Nat.mul_comm]

theorem length_bytes :
    security.bytes.length = securityHeaderBytes + securityAceBytes * security.entries.length := by
  rw [AppleSecurityRecord.bytes]
  simp only [List.length_append, length_writeSecurityU32, length_tail, length_entries,
    security.owner.property, security.group.property, securityHeaderBytes]
  omega

/-- What `EncodeSecurity` admits. -/
theorem encodeSecurity_iff :
    encodeSecurity security = .ok bytes ↔
      security.entries.length ≤ securityMaxEntries ∧
      (security.noAcl = true → security.entries = []) ∧ security.bytes = bytes := by
  rw [encodeSecurity, rejectIf_bind_eq_ok_iff, Except.ok.injEq, not_or, not_lt, not_and,
    not_not, and_assoc]

/-- The count of the header tells a record without a list from one with at most 128 entries. -/
theorem count_spec (hmax : security.entries.length ≤ securityMaxEntries)
    (hnone : security.noAcl = true → security.entries = []) :
    (security.count == securityNoAcl) = security.noAcl ∧
      (if security.noAcl then 0 else security.count.toNat) = security.entries.length := by
  have hmax' : security.entries.length < 2 ^ 32 - 1 := by
    rw [securityMaxEntries] at hmax
    omega
  cases hacl : security.noAcl with
  | true =>
    rw [AppleSecurityRecord.count, hacl, if_pos rfl, if_pos rfl, hnone hacl]
    exact ⟨beq_self_eq_true _, rfl⟩
  | false =>
    have htoNat : (BitVec.ofNat 32 security.entries.length).toNat = security.entries.length := by
      rw [BitVec.toNat_ofNat]
      omega
    rw [AppleSecurityRecord.count, hacl, if_neg Bool.false_ne_true, if_neg Bool.false_ne_true]
    refine ⟨beq_eq_false_iff_ne.mpr fun hsame => ?_, htoNat⟩
    rw [hsame] at htoNat
    exact hmax'.ne htoNat.symm

/-- The fields of the header, and the entries behind it. -/
theorem read_bytes :
    readSecurityU32 security.bytes 0 = securityMagic ∧
    fieldAt 16 security.bytes 4 = security.owner ∧
    fieldAt 16 security.bytes 20 = security.group ∧
    readSecurityU32 security.bytes 36 = security.count ∧
    (security.noAcl = true → fieldAt 4 security.bytes 40 = security.noAclFlags) ∧
    (security.noAcl = false → readSecurityU32 security.bytes 40 = security.aclFlags) ∧
    security.bytes.drop securityHeaderBytes = security.entries.flatMap encodeAce := by
  have howner := security.owner.property
  have hgroup := security.group.property
  have hmagic : security.bytes = [] ++ (writeSecurityU32 securityMagic ++ (security.owner.val ++
      (security.group.val ++ (writeSecurityU32 security.count ++
        (security.tail ++ security.entries.flatMap encodeAce))))) := rfl
  have hcount : security.bytes = (writeSecurityU32 securityMagic ++ security.owner.val ++
      security.group.val) ++ (writeSecurityU32 security.count ++
        (security.tail ++ security.entries.flatMap encodeAce)) := by
    simp only [AppleSecurityRecord.bytes, List.append_assoc]
  have htail : security.bytes = (writeSecurityU32 securityMagic ++ security.owner.val ++
      security.group.val ++ writeSecurityU32 security.count) ++
        (security.tail ++ security.entries.flatMap encodeAce) := by
    simp only [AppleSecurityRecord.bytes, List.append_assoc]
  have hfront : (writeSecurityU32 securityMagic ++ security.owner.val ++
      security.group.val ++ writeSecurityU32 security.count).length = 40 := by
    simp only [List.length_append, length_writeSecurityU32, howner, hgroup]
  refine ⟨?_, ?_, ?_, ?_, fun hacl => ?_, fun hacl => ?_, ?_⟩
  · rw [hmagic]
    exact readSecurityU32_append securityMagic rfl
  · exact fieldAt_append security.owner (length_writeSecurityU32 securityMagic)
  · rw [AppleSecurityRecord.bytes, ← List.append_assoc]
    refine fieldAt_append security.group ?_
    rw [List.length_append, length_writeSecurityU32, howner]
  · rw [hcount]
    refine readSecurityU32_append security.count ?_
    simp only [List.length_append, length_writeSecurityU32, howner, hgroup]
  · rw [htail, AppleSecurityRecord.tail, hacl, if_pos rfl]
    exact fieldAt_append security.noAclFlags hfront
  · rw [htail, AppleSecurityRecord.tail, hacl, if_neg Bool.false_ne_true]
    exact readSecurityU32_append security.aclFlags hfront
  · rw [htail, ← List.append_assoc]
    refine List.drop_left' ?_
    rw [List.length_append, hfront, length_tail]
    rfl

/-- **A record that was encoded** is decoded with the field that does not apply cleared. -/
theorem decodeSecurity_encodeSecurity (h : encodeSecurity security = .ok bytes) :
    decodeSecurity bytes = .ok security.cleared := by
  obtain ⟨hmax, hnone, rfl⟩ := encodeSecurity_iff.mp h
  obtain ⟨hnoAcl, hentries⟩ := count_spec hmax hnone
  obtain ⟨hmagic, howner, hgroup, hcount, hnoAclFlags, haclFlags, hrest⟩ :=
    @read_bytes security
  have hdecoded : (records securityAceBytes security.entries.length
      (security.entries.flatMap encodeAce)).map decodeAce = security.entries := by
    have hrecords := records_flatMap length_encodeAce security.entries []
    rw [List.append_nil] at hrecords
    rw [hrecords, List.map_map]
    exact (List.map_congr_left fun ace _ => decodeAce_encodeAce ace).trans (List.map_id _)
  rw [decodeSecurity]
  dsimp only
  rw [rejectIf_bind_of_not _ _ (by rw [length_bytes]; omega),
    rejectIf_bind_of_not _ _ (not_not.mpr hmagic), hcount, hnoAcl, hentries,
    rejectIf_bind_of_not, rejectIf_bind_of_not _ _ (not_not.mpr length_bytes), howner, hgroup,
    hrest, hdecoded, AppleSecurityRecord.cleared]
  · refine congrArg Except.ok ?_
    cases hacl : security.noAcl with
    | true => simp only [hnoAclFlags hacl, if_true]
    | false => simp only [haclFlags hacl, Bool.false_eq_true, if_false]
  · rintro ⟨hacl, hlarge⟩
    rw [hacl, if_neg Bool.false_ne_true] at hentries
    omega

/-- What `DecodeSecurity` admits, and what it makes of it. -/
theorem fields_of_decodeSecurity (h : decodeSecurity bytes = .ok security) :
    readSecurityU32 bytes 0 = securityMagic ∧ security.owner = fieldAt 16 bytes 4 ∧
    security.group = fieldAt 16 bytes 20 ∧ security.count = readSecurityU32 bytes 36 ∧
    security.tail = slice bytes 40 4 ∧ security.Applies ∧
    security.entries = (records securityAceBytes security.entries.length
      (bytes.drop securityHeaderBytes)).map decodeAce ∧
    security.entries.length ≤ securityMaxEntries ∧
    (security.noAcl = true → security.entries = []) ∧
    bytes.length = securityHeaderBytes + securityAceBytes * security.entries.length := by
  rw [decodeSecurity] at h
  obtain ⟨hheader, h⟩ := rejectIf_bind_eq_ok_iff.mp h
  obtain ⟨hmagic, h⟩ := rejectIf_bind_eq_ok_iff.mp h
  obtain ⟨hcount, h⟩ := rejectIf_bind_eq_ok_iff.mp h
  obtain ⟨hsize, h⟩ := rejectIf_bind_eq_ok_iff.mp h
  rw [not_lt, securityHeaderBytes] at hheader
  have hlength : ∀ count : ℕ, ((records securityAceBytes count
      (bytes.drop securityHeaderBytes)).map decodeAce).length = count := fun count => by
    rw [List.length_map, records, List.length_map, List.length_range]
  cases hacl : readSecurityU32 bytes 36 == securityNoAcl with
  | true =>
    simp only [hacl, if_true] at h hsize
    obtain rfl := Except.ok.inj h
    refine ⟨not_not.mp hmagic, rfl, rfl, (beq_iff_eq.mp hacl).symm, fieldAt_val (by omega), rfl, rfl,
      Nat.zero_le _, fun _ => rfl, not_not.mp hsize⟩
  | false =>
    simp only [hacl, Bool.false_eq_true, if_false, true_and, not_lt] at h hsize hcount
    obtain rfl := Except.ok.inj h
    have hentries := hlength (readSecurityU32 bytes 36).toNat
    refine ⟨not_not.mp hmagic, rfl, rfl, ?_, writeSecurityU32_read (by omega), rfl, ?_,
      hentries.le.trans hcount, fun hno => absurd hno Bool.false_ne_true, ?_⟩
    · rw [AppleSecurityRecord.count, if_neg Bool.false_ne_true, hentries, BitVec.ofNat_toNat,
        BitVec.setWidth_eq]
    · dsimp only
      rw [hentries]
    · dsimp only
      rw [hentries]
      exact not_not.mp hsize

/-- **Bytes that were decoded** are encoded again. -/
theorem encodeSecurity_decodeSecurity (h : decodeSecurity bytes = .ok security) :
    encodeSecurity security = .ok bytes := by
  obtain ⟨hmagic, howner, hgroup, hcount, htail, -, hentries, hmax, hnone, hsize⟩ :=
    fields_of_decodeSecurity h
  rw [securityHeaderBytes] at hsize
  refine encodeSecurity_iff.mpr ⟨hmax, hnone, ?_⟩
  have hrest : (bytes.drop securityHeaderBytes).length =
      securityAceBytes * security.entries.length := by
    rw [List.length_drop, securityHeaderBytes]
    omega
  have hwritten : security.entries.flatMap encodeAce = bytes.drop securityHeaderBytes := by
    rw [hentries, List.flatMap_map]
    calc (records securityAceBytes security.entries.length
          (bytes.drop securityHeaderBytes)).flatMap (fun record => encodeAce (decodeAce record))
        = (records securityAceBytes security.entries.length
          (bytes.drop securityHeaderBytes)).flatMap id :=
          List.flatMap_congr fun record hrecord =>
            encodeAce_decodeAce (length_of_mem_records hrest hrecord)
      _ = bytes.drop securityHeaderBytes := by rw [List.flatMap_id, flatten_records hrest]
  rw [AppleSecurityRecord.bytes, ← hmagic, hcount, howner, hgroup, htail, hwritten,
    writeSecurityU32_read (by omega), writeSecurityU32_read (by omega), fieldAt_val (by omega),
    fieldAt_val (by omega), securityHeaderBytes, slice_append_drop bytes 40 4,
    slice_append_drop bytes 36 4, slice_append_drop bytes 20 16, slice_append_drop bytes 4 16,
    slice_append_drop bytes 0 4, List.drop_zero]

theorem cleared_eq_self_iff : security.cleared = security ↔ security.Applies := by
  obtain ⟨owner, group, noAcl, aclFlags, noAclFlags, entries⟩ := security
  cases noAcl with
  | true =>
    simp only [AppleSecurityRecord.cleared, AppleSecurityRecord.Applies, if_true,
      AppleSecurityRecord.mk.injEq, true_and, and_true]
    exact eq_comm
  | false =>
    simp only [AppleSecurityRecord.cleared, AppleSecurityRecord.Applies, Bool.false_eq_true,
      if_false, AppleSecurityRecord.mk.injEq, true_and, and_true]
    exact eq_comm

end Record

/-! ## Main result -/

/-- **Security records and entries round trip**: a record is returned with the field that does not
apply cleared, which is the record itself exactly when that field is zero; bytes are returned as they
are; an entry and its Windows form are brought to each other. -/
theorem security_roundTrip :
    (∀ security bytes, encodeSecurity security = .ok bytes →
      decodeSecurity bytes = .ok security.cleared ∧
        (decodeSecurity bytes = .ok security ↔ security.Applies)) ∧
    (∀ bytes security, decodeSecurity bytes = .ok security →
      encodeSecurity security = .ok bytes) ∧
    ∀ ace projected, projectSecurityAce ace = .ok projected ↔
      unprojectSecurityAce projected = .ok ace := by
  refine ⟨fun security bytes h => ?_, fun bytes security => encodeSecurity_decodeSecurity,
    fun ace projected => projectSecurityAce_unproject⟩
  have hdecoded := decodeSecurity_encodeSecurity h
  refine ⟨hdecoded, ?_⟩
  rw [hdecoded, Except.ok.injEq, cleared_eq_self_iff]

/-- An entry that lets the group with number 20 read and write. -/
def groupEntry : AppleSecurityAce where
  applicable := prefixedGuid groupPrefix 20
  flags := 0x31
  rights := 0x106

/-- A record with one entry. -/
def groupRecord : AppleSecurityRecord where
  owner := prefixedGuid userPrefix 501
  group := prefixedGuid groupPrefix 20
  noAcl := false
  aclFlags := 0x20000
  noAclFlags := List.Vector.replicate 4 0
  entries := [groupEntry]

theorem security_roundTrip_sample :
    (∃ bytes, encodeSecurity groupRecord = .ok bytes ∧ decodeSecurity bytes = .ok groupRecord ∧
      encodeSecurity groupRecord = .ok bytes) ∧
    ∃ projected, projectSecurityAce groupEntry = .ok projected ∧
      unprojectSecurityAce projected = .ok groupEntry := by
  have hencoded : encodeSecurity groupRecord = .ok groupRecord.bytes := rfl
  have hdecoded := ((security_roundTrip.1 groupRecord _ hencoded).2).mpr rfl
  refine ⟨⟨_, hencoded, hdecoded, security_roundTrip.2.1 _ _ hdecoded⟩, ?_⟩
  have hprojected : projectSecurityAce groupEntry = .ok {
      principal := { kind := .gid, id := 20 }
      kind := .allow
      accessMask := 0x103
      aceFlags := 0x11 } := by decide +kernel
  exact ⟨_, hprojected, (security_roundTrip.2.2 _ _).mp hprojected⟩

/-- A record without a list whose list flags were set all the same. -/
def flaggedRecord : AppleSecurityRecord where
  owner := List.Vector.replicate 16 1
  group := List.Vector.replicate 16 2
  noAcl := true
  aclFlags := 1
  noAclFlags := List.Vector.replicate 4 3
  entries := []

/-- The bytes of a record do not keep the field that does not apply to it. -/
theorem flaggedRecord_not_returned :
    ∃ bytes, encodeSecurity flaggedRecord = .ok bytes ∧
      decodeSecurity bytes ≠ .ok flaggedRecord :=
  ⟨flaggedRecord.bytes, rfl, by decide⟩

end Records
end ApfsAccess
