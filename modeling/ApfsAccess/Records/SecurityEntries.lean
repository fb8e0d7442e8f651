import ApfsAccess.Format.Object
import ApfsAccess.Library.BitMapping
import ApfsAccess.Library.FixedWidth
import ApfsAccess.Library.Layout

/-!
# Principals and access-control entries

An entry names a principal by a compatibility GUID, and its flags and rights are mapped bit by bit to
the Windows ones.

* `decodeSecurityPrincipal_iff` : GUIDs and principals are mapped to each other and back.
* `projectSecurityAce_unproject` : so are entries and their Windows forms.
-/

namespace ApfsAccess
namespace Records

open ByteBuffer BitMapping Format

/-! ## The types -/

/-- A GUID of sixteen bytes. -/
abbrev Guid := List.Vector UInt8 16

/-- `AppleSecurityAce`. -/
structure AppleSecurityAce where
  applicable : Guid
  flags : BitVec 32
  rights : BitVec 32
deriving DecidableEq

/-- `ApplePrincipalKind`. -/
inductive ApplePrincipalKind
  | uid | gid | owner | group | everybody | nobody
deriving DecidableEq

/-- `AppleSecurityPrincipal`. -/
structure AppleSecurityPrincipal where
  kind : ApplePrincipalKind
  id : BitVec 32 := 0
deriving DecidableEq

/-- `ProjectedAceKind`. -/
inductive ProjectedAceKind
  | allow | deny
deriving DecidableEq

/-- `ProjectedSecurityAce`. -/
structure ProjectedSecurityAce where
  principal : AppleSecurityPrincipal
  kind : ProjectedAceKind
  accessMask : BitVec 32
  aceFlags : BitVec 8
deriving DecidableEq

/-! ## Words -/

/-- `ReadSecurityU32`. -/
def readSecurityU32 (bytes : Bytes) (offset : ℕ) : BitVec 32 :=
  BitVec.ofNat 32 (beValue (slice bytes offset 4))

/-- The four bytes of `WriteSecurityU32`. -/
def writeSecurityU32 (value : BitVec 32) : Bytes := beBytes 4 value.toNat

@[simp] theorem length_writeSecurityU32 (value : BitVec 32) : (writeSecurityU32 value).length = 4 :=
  length_beBytes 4 value.toNat

theorem readSecurityU32_append {front back : Bytes} {offset : ℕ} (value : BitVec 32)
    (hoffset : front.length = offset) :
    readSecurityU32 (front ++ (writeSecurityU32 value ++ back)) offset = value := by
  rw [readSecurityU32, slice_append_middle hoffset (length_writeSecurityU32 value),
    writeSecurityU32, beValue_beBytes value.isLt, BitVec.ofNat_toNat, BitVec.setWidth_eq]

theorem writeSecurityU32_read {bytes : Bytes} {offset : ℕ} (h : offset + 4 ≤ bytes.length) :
    writeSecurityU32 (readSecurityU32 bytes offset) = slice bytes offset 4 := by
  have hlength := length_slice_of_le h
  have hlt : beValue (slice bytes offset 4) < 2 ^ 32 := by
    have hwide := beValue_lt (slice bytes offset 4)
    rw [hlength] at hwide
    norm_num at hwide ⊢
    exact hwide
  have hback := beBytes_beValue (slice bytes offset 4)
  rw [hlength] at hback
  rw [writeSecurityU32, readSecurityU32, BitVec.toNat_ofNat, Nat.mod_eq_of_lt hlt, hback]

/-! ## Principals -/

/-- `kUserPrefix`. -/
def userPrefix : List.Vector UInt8 12 :=
  ⟨[0xff, 0xff, 0xee, 0xee, 0xdd, 0xdd, 0xcc, 0xcc, 0xbb, 0xbb, 0xaa, 0xaa], rfl⟩

/-- `kGroupPrefix`. -/
def groupPrefix : List.Vector UInt8 12 :=
  ⟨[0xab, 0xcd, 0xef, 0xab, 0xcd, 0xef, 0xab, 0xcd, 0xef, 0xab, 0xcd, 0xef], rfl⟩

/-- `UnsupportedNumericIdentity`. -/
def unsupportedNumericIdentity (id : BitVec 32) : Prop :=
  id = 0xffffffff ∨ id = 0xffffffff - 100

instance (id : BitVec 32) : Decidable (unsupportedNumericIdentity id) :=
  inferInstanceAs (Decidable (_ ∨ _))

/-- Whether `id` is a number that the kind carries. -/
def ApplePrincipalKind.Numeric (kind : ApplePrincipalKind) : Prop := kind = .uid ∨ kind = .gid

instance (kind : ApplePrincipalKind) : Decidable kind.Numeric :=
  inferInstanceAs (Decidable (_ ∨ _))

/-- The principal of a group GUID. -/
def groupPrincipal (id : BitVec 32) : AppleSecurityPrincipal :=
  if id = 0x0c then { kind := .everybody }
  else if id = 0xfffffffe then { kind := .nobody }
  else if id = 0x0a then { kind := .owner }
  else if id = 0x10 then { kind := .group }
  else { kind := .gid, id }

/-- The principal of a GUID with one of the two prefixes. -/
def prefixedPrincipal (guid : Guid) (id : BitVec 32) : Except String AppleSecurityPrincipal :=
  if guid.val.take 12 = groupPrefix.val then .ok (groupPrincipal id)
  else if guid.val.take 12 = userPrefix.val then .ok { kind := .uid, id }
  else .error "AppleSecurityPrincipalUnsupported"

/-- `DecodeSecurityPrincipal`. -/
def decodeSecurityPrincipal (guid : Guid) : Except String AppleSecurityPrincipal := do
  let id := readSecurityU32 guid.val 12
  let decoded ← prefixedPrincipal guid id
  rejectIf (decoded.kind.Numeric ∧ unsupportedNumericIdentity id)
    "AppleSecurityPrincipalUnsupported"
  .ok decoded

/-- The GUID with a prefix of twelve bytes and a word. -/
def prefixedGuid (front : List.Vector UInt8 12) (id : BitVec 32) : Guid :=
  ⟨front.val ++ writeSecurityU32 id, by rw [List.length_append, front.property,
    length_writeSecurityU32]⟩

/-- The word of a principal that `EncodeSecurityPrincipal` admits. -/
def principalWord (principal : AppleSecurityPrincipal) : Except String (BitVec 32) := do
  rejectIf ((principal.kind.Numeric ∧ unsupportedNumericIdentity principal.id) ∨
    (¬principal.kind.Numeric ∧ principal.id ≠ 0)) "AppleSecurityPrincipalUnsupported"
  match principal.kind with
  | .uid => .ok principal.id
  | .gid => do
    rejectIf (principal.id = 0x0a ∨ principal.id = 0x0c ∨ principal.id = 0x10 ∨
      principal.id = 0xfffffffe) "AppleSecurityPrincipalUnsupported"
    .ok principal.id
  | .owner => .ok 0x0a
  | .group => .ok 0x10
  | .everybody => .ok 0x0c
  | .nobody => .ok 0xfffffffe

/-- `EncodeSecurityPrincipal`. -/
def encodeSecurityPrincipal (principal : AppleSecurityPrincipal) : Except String Guid := do
  let id ← principalWord principal
  .ok (prefixedGuid (if principal.kind = .uid then userPrefix else groupPrefix) id)

section Principals

variable {front : List.Vector UInt8 12} {id : BitVec 32} {guid : Guid}
  {principal : AppleSecurityPrincipal}

theorem take_prefixedGuid : (prefixedGuid front id).val.take 12 = front.val :=
  List.take_left' front.property

theorem read_prefixedGuid : readSecurityU32 (prefixedGuid front id).val 12 = id := by
  have h := @readSecurityU32_append front.val [] 12 id front.property
  rwa [List.append_nil] at h

/-- A GUID is its prefix and its word. -/
theorem prefixedGuid_read (h : guid.val.take 12 = front.val) :
    prefixedGuid front (readSecurityU32 guid.val 12) = guid := by
  refine Subtype.ext ?_
  have hword : writeSecurityU32 (readSecurityU32 guid.val 12) = guid.val.drop 12 := by
    rw [writeSecurityU32_read guid.property.ge, slice]
    exact List.take_of_length_le (by rw [List.length_drop, guid.property])
  calc front.val ++ writeSecurityU32 (readSecurityU32 guid.val 12)
      = guid.val.take 12 ++ guid.val.drop 12 := by rw [hword, h]
    _ = guid.val := List.take_append_drop 12 guid.val

theorem userPrefix_ne_groupPrefix : userPrefix.val ≠ groupPrefix.val := by decide

/-- What a group GUID decodes to. -/
theorem decode_group (h : guid = prefixedGuid groupPrefix id) :
    decodeSecurityPrincipal guid = .ok principal ↔
      ¬((groupPrincipal id).kind.Numeric ∧ unsupportedNumericIdentity id) ∧
        groupPrincipal id = principal := by
  rw [decodeSecurityPrincipal, h, read_prefixedGuid, prefixedPrincipal, take_prefixedGuid,
    if_pos rfl, ok_bind, rejectIf_bind_eq_ok_iff, Except.ok.injEq]

/-- What a user GUID decodes to. -/
theorem decode_user (h : guid = prefixedGuid userPrefix id) :
    decodeSecurityPrincipal guid = .ok principal ↔
      ¬unsupportedNumericIdentity id ∧ { kind := .uid, id } = principal := by
  have hnumeric : ApplePrincipalKind.uid.Numeric := Or.inl rfl
  rw [decodeSecurityPrincipal, h, read_prefixedGuid, prefixedPrincipal, take_prefixedGuid,
    if_neg userPrefix_ne_groupPrefix, if_pos rfl, ok_bind, rejectIf_bind_eq_ok_iff,
    Except.ok.injEq, and_iff_right hnumeric]

/-- A GUID that decodes has one of the two prefixes. -/
theorem prefixed_of_decode (h : decodeSecurityPrincipal guid = .ok principal) :
    ∃ id, guid = prefixedGuid groupPrefix id ∨ guid = prefixedGuid userPrefix id := by
  refine ⟨readSecurityU32 guid.val 12, ?_⟩
  rw [decodeSecurityPrincipal] at h
  obtain ⟨decoded, hdecoded, -⟩ := bind_eq_ok_iff.mp h
  rw [prefixedPrincipal] at hdecoded
  split_ifs at hdecoded with hgroup huser
  · exact Or.inl (prefixedGuid_read hgroup).symm
  · exact Or.inr (prefixedGuid_read huser).symm

/-- The word of each principal that is encoded, and the GUID. -/
theorem encodeSecurityPrincipal_iff :
    encodeSecurityPrincipal principal = .ok guid ↔
      ∃ id, principalWord principal = .ok id ∧
        prefixedGuid (if principal.kind = .uid then userPrefix else groupPrefix) id =
          guid := by
  rw [encodeSecurityPrincipal, bind_eq_ok_iff]
  simp only [Except.ok.injEq]

/-- A principal of a group GUID has the word it came from. -/
theorem principalWord_groupPrincipal
    (h : ¬((groupPrincipal id).kind.Numeric ∧ unsupportedNumericIdentity id)) :
    principalWord (groupPrincipal id) = .ok id ∧ (groupPrincipal id).kind ≠ .uid := by
  unfold groupPrincipal at h ⊢
  split_ifs at h ⊢ with heverybody hnobody howner hgroup
  · rw [heverybody]
    decide
  · rw [hnobody]
    decide
  · rw [howner]
    decide
  · rw [hgroup]
    decide
  · have hnumeric : ApplePrincipalKind.gid.Numeric := Or.inr rfl
    refine ⟨?_, fun huser => by cases huser⟩
    rw [principalWord, rejectIf_bind_of_not]
    · exact rejectIf_bind_of_not _ _
        (not_or.mpr ⟨howner, not_or.mpr ⟨heverybody, not_or.mpr ⟨hgroup, hnobody⟩⟩⟩)
    · rintro (hunsupported | ⟨hsymbolic, -⟩)
      · exact h hunsupported
      · exact hsymbolic hnumeric

/-- The word of a principal that is no user brings the principal back. -/
theorem groupPrincipal_principalWord (h : principalWord principal = .ok id)
    (huser : principal.kind ≠ .uid) :
    ¬((groupPrincipal id).kind.Numeric ∧ unsupportedNumericIdentity id) ∧
      groupPrincipal id = principal := by
  obtain ⟨kind, word⟩ := principal
  rw [principalWord, rejectIf_bind_eq_ok_iff, not_or] at h
  obtain ⟨⟨hsupported, hsymbolic⟩, hword⟩ := h
  cases kind with
  | uid => exact absurd rfl huser
  | gid =>
    dsimp only at hword
    rw [rejectIf_bind_eq_ok_iff, not_or, not_or, not_or, Except.ok.injEq] at hword
    obtain ⟨⟨howner, heverybody, hgroup, hnobody⟩, rfl⟩ := hword
    have hplain : groupPrincipal word = { kind := .gid, id := word } := by
      rw [groupPrincipal, if_neg heverybody, if_neg hnobody, if_neg howner, if_neg hgroup]
    rw [hplain]
    exact ⟨hsupported, rfl⟩
  | owner | group | everybody | nobody =>
    have hzero : word = 0 := by
      by_contra hne
      exact hsymbolic ⟨by simp [ApplePrincipalKind.Numeric], hne⟩
    obtain rfl := Except.ok.inj hword
    rw [hzero]
    decide

/-- **GUIDs and principals** are mapped to each other and back. -/
theorem decodeSecurityPrincipal_iff :
    decodeSecurityPrincipal guid = .ok principal ↔
      encodeSecurityPrincipal principal = .ok guid := by
  rw [encodeSecurityPrincipal_iff]
  constructor
  · intro h
    obtain ⟨id, hguid | hguid⟩ := prefixed_of_decode h
    · obtain ⟨hsupported, rfl⟩ := (decode_group hguid).mp h
      obtain ⟨hword, huser⟩ := principalWord_groupPrincipal hsupported
      exact ⟨id, hword, by rw [if_neg huser, hguid]⟩
    · obtain ⟨hsupported, rfl⟩ := (decode_user hguid).mp h
      refine ⟨id, ?_, by rw [if_pos rfl, hguid]⟩
      rw [principalWord, rejectIf_bind_of_not]
      rintro (⟨-, hunsupported⟩ | ⟨hsymbolic, -⟩)
      · exact hsupported hunsupported
      · exact hsymbolic (Or.inl rfl)
  · rintro ⟨id, hword, hguid⟩
    by_cases huser : principal.kind = .uid
    · rw [if_pos huser] at hguid
      rw [decode_user hguid.symm]
      obtain ⟨kind, word⟩ := principal
      obtain rfl : kind = .uid := huser
      rw [principalWord, rejectIf_bind_eq_ok_iff, not_or] at hword
      obtain ⟨⟨hsupported, -⟩, hid⟩ := hword
      obtain rfl := Except.ok.inj hid
      exact ⟨fun hunsupported => hsupported ⟨Or.inl rfl, hunsupported⟩, rfl⟩
    · rw [if_neg huser] at hguid
      rw [decode_group hguid.symm]
      exact groupPrincipal_principalWord hword huser

end Principals

/-! ## Entries -/

/-- The positions of `kAceRights`: those of the native bits and of the Windows ones. -/
def aceRightPositions : List (ℕ × ℕ) :=
  [(1, 0), (2, 1), (3, 5), (4, 16), (5, 2), (6, 6), (7, 7), (8, 8), (9, 3), (10, 4), (11, 17),
    (12, 18), (13, 19), (20, 20)]

/-- The positions of `kAceFlags`. -/
def aceFlagPositions : List (ℕ × ℕ) := [(4, 4), (5, 0), (6, 1), (7, 2), (8, 3)]

/-- `kAceRights`. -/
def aceRights : List (BitVec 32 × BitVec 32) :=
  [(1 <<< 1, 0x000001), (1 <<< 2, 0x000002), (1 <<< 3, 0x000020),
    (1 <<< 4, 0x010000), (1 <<< 5, 0x000004), (1 <<< 6, 0x000040),
    (1 <<< 7, 0x000080), (1 <<< 8, 0x000100), (1 <<< 9, 0x000008),
    (1 <<< 10, 0x000010), (1 <<< 11, 0x020000), (1 <<< 12, 0x040000),
    (1 <<< 13, 0x080000), (1 <<< 20, 0x100000)]

/-- `kAceFlags`. -/
def aceFlags : List (BitVec 32 × BitVec 32) :=
  [(1 <<< 4, 0x10), (1 <<< 5, 0x01), (1 <<< 6, 0x02), (1 <<< 7, 0x04), (1 <<< 8, 0x08)]

/-- `MapAceBits`. -/
def mapAceBits (input : BitVec 32) (mapping : List (BitVec 32 × BitVec 32)) (toWindows : Bool) :
    Option (BitVec 32) :=
  if toWindows then mapBits mapping input else mapBits (turn mapping) input

/-- The bits of an entry's kind. -/
def aceKindMask : BitVec 32 := 0xf

/-- The mapped bits, or the error of a bit that no entry of the table maps. -/
def mappedOr (mapped : Option (BitVec 32)) (error : String) : Except String (BitVec 32) :=
  match mapped with
  | none => .error error
  | some output => .ok output

/-- `ProjectSecurityAce`. -/
def projectSecurityAce (ace : AppleSecurityAce) : Except String ProjectedSecurityAce := do
  rejectIf (ace.flags &&& aceKindMask ≠ 1 ∧ ace.flags &&& aceKindMask ≠ 2)
    "AppleSecurityAceKindUnsupported"
  let flags ← mappedOr (mapAceBits (ace.flags &&& ~~~aceKindMask) aceFlags true)
    "AppleSecurityAceFlagsUnsupported"
  let accessMask ← mappedOr (mapAceBits ace.rights aceRights true)
    "AppleSecurityAceRightsUnsupported"
  let principal ← decodeSecurityPrincipal ace.applicable
  .ok {
    principal
    kind := if ace.flags &&& aceKindMask = 1 then .allow else .deny
    accessMask
    aceFlags := flags.setWidth 8 }

/-- The native number of an entry's kind. -/
def ProjectedAceKind.code : ProjectedAceKind → BitVec 32
  | .allow => 1
  | .deny => 2

/-- `UnprojectSecurityAce`. -/
def unprojectSecurityAce (ace : ProjectedSecurityAce) : Except String AppleSecurityAce := do
  let flags ← mappedOr (mapAceBits (ace.aceFlags.setWidth 32) aceFlags false)
    "AppleSecurityAceFlagsUnsupported"
  let rights ← mappedOr (mapAceBits ace.accessMask aceRights false)
    "AppleSecurityAceRightsUnsupported"
  let applicable ← encodeSecurityPrincipal ace.principal
  .ok { applicable, flags := flags ||| ace.kind.code, rights }

section Entries

variable {input output flags : BitVec 32} {ace : AppleSecurityAce}
  {projected : ProjectedSecurityAce}

theorem separates_aceRights : Separates 32 aceRightPositions :=
  ⟨by decide, by decide, by decide⟩

theorem separates_aceFlags : Separates 32 aceFlagPositions :=
  ⟨by decide, by decide, by decide⟩

theorem aceRights_eq_masks : aceRights = masks aceRightPositions := by decide

theorem aceFlags_eq_masks : aceFlags = masks aceFlagPositions := by decide

theorem mapAceBits_rights_iff :
    mapAceBits input aceRights true = some output ↔
      mapAceBits output aceRights false = some input := by
  rw [aceRights_eq_masks]
  exact mapBits_turn_iff separates_aceRights

theorem mapAceBits_flags_iff :
    mapAceBits input aceFlags true = some output ↔
      mapAceBits output aceFlags false = some input := by
  rw [aceFlags_eq_masks]
  exact mapBits_turn_iff separates_aceFlags

/-- The inheritance flags of Windows fit a byte. -/
theorem setWidth_of_mapAceBits (h : mapAceBits input aceFlags true = some output) :
    (output.setWidth 8).setWidth 32 = output := by
  rw [aceFlags_eq_masks] at h
  have hbits := ((mapBits_iff separates_aceFlags).mp h).2
  have hlow : ∀ position ∈ aceFlagPositions, position.2 < 8 := by decide
  refine BitVec.eq_of_getLsbD_eq fun k hk => Bool.eq_iff_iff.mpr ?_
  rw [BitVec.getLsbD_setWidth, BitVec.getLsbD_setWidth, Bool.and_eq_true, Bool.and_eq_true,
    decide_eq_true_eq, decide_eq_true_eq]
  refine ⟨fun hset => hset.2.2, fun hset => ?_⟩
  obtain ⟨position, hposition, rfl, -⟩ := (hbits k).mp hset
  exact ⟨hk, hlow position hposition, hset⟩

/-- The native inheritance flags stand apart from the kind. -/
theorem and_aceKindMask_of_mapAceBits (h : mapAceBits input aceFlags true = some output) :
    input &&& aceKindMask = 0 := by
  rw [aceFlags_eq_masks] at h
  have hsources := ((mapBits_iff separates_aceFlags).mp h).1
  have hhigh : ∀ k ∈ aceFlagPositions.map Prod.fst, aceKindMask.getLsbD k = false := by decide
  refine BitVec.eq_of_getLsbD_eq fun k _ => ?_
  rw [BitVec.getLsbD_and, BitVec.ofNat_eq_ofNat, BitVec.getLsbD_zero, Bool.and_eq_false_imp]
  exact fun hset => hhigh k (hsources k hset)

/-- A word is what a mask leaves of it and what the mask takes away. -/
theorem and_not_or_and (word mask : BitVec 32) : (word &&& ~~~mask) ||| (word &&& mask) = word := by
  ext k hk
  simp only [BitVec.getElem_or, BitVec.getElem_and, BitVec.getElem_not]
  cases word[k] <;> cases mask[k] <;> rfl

/-- A kind beside flags that stand apart from it is read by the mask. -/
theorem or_code_and (hflags : flags &&& aceKindMask = 0) (kind : ProjectedAceKind) :
    (flags ||| kind.code) &&& aceKindMask = kind.code ∧
      (flags ||| kind.code) &&& ~~~aceKindMask = flags := by
  have hcode : kind.code &&& aceKindMask = kind.code ∧ kind.code &&& ~~~aceKindMask = 0 := by
    cases kind <;> decide
  have hkeep : flags &&& ~~~aceKindMask = flags := by
    have hsplit := and_not_or_and flags aceKindMask
    rw [hflags] at hsplit
    exact BitVec.or_zero.symm.trans hsplit
  constructor
  · rw [BitVec.and_or_distrib_right, hflags, hcode.1]
    exact BitVec.zero_or
  · rw [BitVec.and_or_distrib_right, hkeep, hcode.2]
    exact BitVec.or_zero

theorem mappedOr_eq_ok_iff {mapped : Option (BitVec 32)} {error : String} :
    mappedOr mapped error = .ok output ↔ mapped = some output := by
  cases mapped with
  | none => exact ⟨nofun, nofun⟩
  | some value => exact ⟨fun h => congrArg some (Except.ok.inj h),
      fun h => congrArg Except.ok (Option.some.inj h)⟩

/-- What an entry that is projected is made of. -/
theorem projectSecurityAce_iff :
    projectSecurityAce ace = .ok projected ↔
      ace.flags &&& aceKindMask = projected.kind.code ∧
      mapAceBits (ace.flags &&& ~~~aceKindMask) aceFlags true =
        some (projected.aceFlags.setWidth 32) ∧
      mapAceBits ace.rights aceRights true = some projected.accessMask ∧
      decodeSecurityPrincipal ace.applicable = .ok projected.principal := by
  rw [projectSecurityAce, rejectIf_bind_eq_ok_iff]
  constructor
  · rintro ⟨hkind, h⟩
    obtain ⟨flags, hflags, h⟩ := bind_eq_ok_iff.mp h
    obtain ⟨accessMask, hrights, h⟩ := bind_eq_ok_iff.mp h
    obtain ⟨principal, hprincipal, h⟩ := bind_eq_ok_iff.mp h
    obtain rfl := Except.ok.inj h
    rw [mappedOr_eq_ok_iff] at hflags hrights
    refine ⟨?_, ?_, hrights, hprincipal⟩
    · by_cases hallow : ace.flags &&& aceKindMask = 1
      · rw [if_pos hallow, hallow]
        rfl
      · rw [if_neg hallow]
        by_contra hdeny
        exact hkind ⟨hallow, hdeny⟩
    · rw [setWidth_of_mapAceBits hflags]
      exact hflags
  · rintro ⟨hkind, hflags, hrights, hprincipal⟩
    have hchoice : (if ace.flags &&& aceKindMask = 1 then ProjectedAceKind.allow else .deny) =
        projected.kind := by
      rw [hkind]
      cases projected.kind <;> rfl
    have hnarrow : (projected.aceFlags.setWidth 32).setWidth 8 = projected.aceFlags := by
      rw [BitVec.setWidth_setWidth_of_le _ (by omega), BitVec.setWidth_eq]
    refine ⟨?_, ?_⟩
    · rw [hkind]
      cases projected.kind <;> decide
    · rw [hflags, hrights, hprincipal, mappedOr, mappedOr, ok_bind, ok_bind, ok_bind, hchoice,
        hnarrow]

/-- What an entry that is brought back is made of. -/
theorem unprojectSecurityAce_iff :
    unprojectSecurityAce projected = .ok ace ↔
      ∃ flags, mapAceBits (projected.aceFlags.setWidth 32) aceFlags false = some flags ∧
        ace.flags = flags ||| projected.kind.code ∧
        mapAceBits projected.accessMask aceRights false = some ace.rights ∧
        encodeSecurityPrincipal projected.principal = .ok ace.applicable := by
  rw [unprojectSecurityAce]
  constructor
  · intro h
    obtain ⟨flags, hflags, h⟩ := bind_eq_ok_iff.mp h
    obtain ⟨rights, hrights, h⟩ := bind_eq_ok_iff.mp h
    obtain ⟨applicable, happlicable, h⟩ := bind_eq_ok_iff.mp h
    obtain rfl := Except.ok.inj h
    exact ⟨flags, mappedOr_eq_ok_iff.mp hflags, rfl, mappedOr_eq_ok_iff.mp hrights, happlicable⟩
  · rintro ⟨flags, hflags, hnative, hrights, happlicable⟩
    rw [hflags, hrights, happlicable, mappedOr, mappedOr, ok_bind, ok_bind, ok_bind, ← hnative]

/-- **Entries are mapped to Windows and back.** -/
theorem projectSecurityAce_unproject :
    projectSecurityAce ace = .ok projected ↔ unprojectSecurityAce projected = .ok ace := by
  rw [projectSecurityAce_iff, unprojectSecurityAce_iff]
  constructor
  · rintro ⟨hkind, hflags, hrights, hprincipal⟩
    refine ⟨_, mapAceBits_flags_iff.mp hflags, ?_, mapAceBits_rights_iff.mp hrights,
      decodeSecurityPrincipal_iff.mp hprincipal⟩
    rw [← hkind, and_not_or_and]
  · rintro ⟨flags, hflags, hnative, hrights, happlicable⟩
    have hback := mapAceBits_flags_iff.mpr hflags
    obtain ⟨hkind, hkeep⟩ := or_code_and (and_aceKindMask_of_mapAceBits hback) projected.kind
    rw [hnative, hkind, hkeep]
    exact ⟨rfl, hback, mapAceBits_rights_iff.mpr hrights,
      decodeSecurityPrincipal_iff.mpr happlicable⟩

end Entries

end Records
end ApfsAccess
