import ApfsAccess.Extents.Records

/-!
# Inodes and extended attributes

The extent graph looks at inodes for the private stream they own and at extended
attributes for the external stream they point to.  Both decoders are embedded with
all their checks, because a record that does not decode makes the whole graph
inadmissible: the extended-field table of an inode, and the UTF-8 check of an
attribute name, which is `utf8proc_iterate` of the vendored library.
-/

namespace ApfsAccess
namespace Extents

open Format ByteBuffer

/-- `AppleExtendedField`. -/
structure AppleExtendedField where
  type : ℕ
  flags : ℕ
  data : Bytes
  deriving DecidableEq, Repr

/-- `AppleInodeRecord`. -/
structure AppleInodeRecord where
  objectId : ℕ
  parentId : ℕ
  privateId : ℕ
  createTime : ℕ
  modificationTime : ℕ
  changeTime : ℕ
  accessTime : ℕ
  internalFlags : ℕ
  childrenOrLinks : ℕ
  defaultProtectionClass : ℕ
  writeGeneration : ℕ
  bsdFlags : ℕ
  owner : ℕ
  group : ℕ
  mode : ℕ
  reservedPad : ℕ
  uncompressedSize : ℕ
  extendedFields : List AppleExtendedField
  deriving DecidableEq, Repr

/-- `AppleXattrRecord`, with the name as the bytes of its UTF-8 text. -/
structure AppleXattrRecord where
  objectId : ℕ
  nameUtf8 : Bytes
  flags : ℕ
  data : Bytes
  deriving DecidableEq, Repr

/-- `kAppleXattrDataStream`. -/
def xattrDataStream : ℕ := 0x0001

/-- `kAppleXattrDataEmbedded`. -/
def xattrDataEmbedded : ℕ := 0x0002

/-- `kAppleXattrDataStreamBytes`. -/
def xattrDataStreamBytes : ℕ := 48

/-- `AlignEight`. -/
def alignEight (size : ℕ) : ℕ := (size + 7) / 8 * 8

/-- `ParseExactKey`. -/
def parseExactKey (record : BtreeRecord) (expectedType expectedSize : ℕ) : Except String ℕ :=
  if record.key.length ≠ expectedSize then
    .error "AppleRecordKeySizeInvalid"
  else
    match readU64LE record.key 0 with
    | none => .error "AppleRecordTypeInvalid"
    | some key =>
      if recordType key ≠ expectedType then .error "AppleRecordTypeInvalid"
      else if recordObjectId key = 0 then .error "AppleRecordObjectIdInvalid"
      else .ok (recordObjectId key)

/-- The loop of `DecodeExtendedFields` over the field descriptors that are left. -/
def decodeFieldLoop (value : Bytes) (dataEnd : ℕ) (observational : Bool) :
    ℕ → ℕ → ℕ → List ℕ → Except String (List AppleExtendedField)
  | 0, _, dataCursor, _ =>
    if dataCursor = dataEnd then .ok [] else .error "AppleExtendedFieldTrailingData"
  | left + 1, descriptor, dataCursor, types =>
    let type := (value.getD descriptor 0).toNat
    let flags := (value.getD (descriptor + 1) 0).toNat
    match readU16LE value (descriptor + 2) with
    | none => .error "AppleExtendedFieldDescriptorInvalid"
    | some fieldSize =>
      if type = 0 ∨ type ∈ types then
        .error "AppleExtendedFieldDescriptorInvalid"
      else if dataEnd - dataCursor < alignEight fieldSize then
        .error "AppleExtendedFieldDataInvalid"
      else if observational &&
          !(slice value (dataCursor + fieldSize) (alignEight fieldSize - fieldSize)).all
            (· == 0) then
        .error "AppleExtendedFieldPaddingInvalid"
      else
        match decodeFieldLoop value dataEnd observational left (descriptor + 4)
            (dataCursor + alignEight fieldSize) (type :: types) with
        | .error reason => .error reason
        | .ok fields => .ok (⟨type, flags, slice value dataCursor fieldSize⟩ :: fields)

/-- `DecodeExtendedFields`. -/
def decodeExtendedFields (value : Bytes) (offset : ℕ) (observational : Bool) :
    Except String (List AppleExtendedField) :=
  if offset = value.length then
    .ok []
  else if value.length < offset ∨ value.length - offset < 4 then
    .error "AppleExtendedFieldHeaderInvalid"
  else
    match readU16LE value offset, readU16LE value (offset + 2) with
    | some count, some used =>
      let descriptorBytes := count * 4
      let remaining := value.length - offset - 4
      if count = 0 then
        if used = 0 ∧ offset + 4 = value.length then .ok []
        else .error "AppleExtendedFieldEmptyInvalid"
      else if 1024 < count then
        .error "AppleExtendedFieldCountInvalid"
      else if ¬ (descriptorBytes ≤ used ∧ used = remaining) ∧
          ¬ (descriptorBytes ≤ remaining ∧ used = remaining - descriptorBytes) then
        .error "AppleExtendedFieldSizeInvalid"
      else
        decodeFieldLoop value value.length observational count (offset + 4)
          (offset + 4 + descriptorBytes) []
    | _, _ => .error "AppleExtendedFieldHeaderInvalid"

/-- `DecodeInodeWithAdmission`. -/
def decodeInodeWithAdmission (record : BtreeRecord) (observational : Bool) :
    Except String AppleInodeRecord :=
  match parseExactKey record 3 8 with
  | .error reason => .error reason
  | .ok objectId =>
    let value := record.value
    let links := (readU32LE value 0x38).getD (2 ^ 32 - 1)
    let parentId := (readU64LE value 0x00).getD 0
    let privateId := (readU64LE value 0x08).getD 0
    if value.length < 0x5c then
      .error "AppleInodeRecordSizeInvalid"
    else if parentId = 0 ∨ privateId = 0 ∨ 2 ^ 31 - 1 < links then
      .error "AppleInodeRecordIdentityInvalid"
    else
      match decodeExtendedFields value 0x5c observational with
      | .error reason => .error reason
      | .ok fields =>
        .ok
          { objectId := objectId
            parentId := parentId
            privateId := privateId
            createTime := (readU64LE value 0x10).getD 0
            modificationTime := (readU64LE value 0x18).getD 0
            changeTime := (readU64LE value 0x20).getD 0
            accessTime := (readU64LE value 0x28).getD 0
            internalFlags := (readU64LE value 0x30).getD 0
            childrenOrLinks := links
            defaultProtectionClass := (readU32LE value 0x3c).getD 0
            writeGeneration := (readU32LE value 0x40).getD 0
            bsdFlags := (readU32LE value 0x44).getD 0
            owner := (readU32LE value 0x48).getD 0
            group := (readU32LE value 0x4c).getD 0
            mode := (readU16LE value 0x50).getD 0
            reservedPad := (readU16LE value 0x52).getD 0
            uncompressedSize := (readU64LE value 0x54).getD 0
            extendedFields := fields }

/-- `ApfsExtendedRecordCodec::DecodeInode`. -/
def decodeInode (record : BtreeRecord) : Except String AppleInodeRecord :=
  decodeInodeWithAdmission record false

/-- `utf_cont`. -/
def utfCont (byte : ℕ) : Bool := byte &&& 0xc0 == 0x80

/-- `utf8proc_iterate` on a string that is not empty: the code point it starts with
and the number of bytes that takes. -/
def utf8procIterate (str : List ℕ) : Option (ℕ × ℕ) :=
  match str with
  | [] => none
  | uc :: rest =>
    if uc < 0x80 then some (uc, 1)
    else if uc < 0xc2 ∨ 0xf4 < uc then none
    else if uc < 0xe0 then
      match rest with
      | c1 :: _ =>
        if utfCont c1 then some (((uc &&& 0x1f) <<< 6) ||| (c1 &&& 0x3f), 2) else none
      | _ => none
    else if uc < 0xf0 then
      match rest with
      | c1 :: c2 :: _ =>
        if !utfCont c1 ∨ !utfCont c2 then none
        else if uc = 0xed ∧ 0x9f < c1 then none
        else
          let code := ((uc &&& 0xf) <<< 12) ||| ((c1 &&& 0x3f) <<< 6) ||| (c2 &&& 0x3f)
          if code < 0x800 then none else some (code, 3)
      | _ => none
    else
      match rest with
      | c1 :: c2 :: c3 :: _ =>
        if !utfCont c1 ∨ !utfCont c2 ∨ !utfCont c3 then none
        else if uc = 0xf0 ∧ c1 < 0x90 then none
        else if uc = 0xf4 ∧ 0x8f < c1 then none
        else some (((uc &&& 7) <<< 18) ||| ((c1 &&& 0x3f) <<< 12) ||| ((c2 &&& 0x3f) <<< 6) |||
          (c3 &&& 0x3f), 4)
      | _ => none

/-- The loop of `DecodeTerminatedXattrName`; every step takes at least one byte, so
the length of the name is fuel enough. -/
def xattrNameIsUtf8 : ℕ → List ℕ → Bool
  | _, [] => true
  | 0, _ :: _ => false
  | fuel + 1, name =>
    match utf8procIterate name with
    | none => false
    | some (code, consumed) => code != 0 && xattrNameIsUtf8 fuel (name.drop consumed)

/-- `DecodeTerminatedXattrName`. -/
def decodeTerminatedXattrName (bytes : Bytes) (offset encodedLength : ℕ) : Except String Bytes :=
  if encodedLength ≤ 1 ∨ 822 < encodedLength ∨ bytes.length < offset ∨
      encodedLength ≠ bytes.length - offset ∨ bytes.getLast? ≠ some 0 then
    .error "AppleXattrNameLengthInvalid"
  else
    let name := slice bytes offset (encodedLength - 1)
    if xattrNameIsUtf8 name.length (name.map UInt8.toNat) then .ok name
    else .error "AppleXattrNameUtf8Invalid"

/-- `ApfsExtendedRecordCodec::DecodeXattr`. -/
def decodeXattr (record : BtreeRecord) : Except String AppleXattrRecord :=
  if record.key.length < 11 ∨ record.value.length < 4 then
    .error "AppleXattrRecordSizeInvalid"
  else
    let key := keyHeader record
    if recordType key ≠ 4 ∨ recordObjectId key = 0 then
      .error "AppleXattrRecordKeyInvalid"
    else
      match decodeTerminatedXattrName record.key 10 ((readU16LE record.key 8).getD 0) with
      | .error reason => .error reason
      | .ok name =>
        let flags := (readU16LE record.value 0).getD 0
        let embeddedLength := (readU16LE record.value 2).getD 0
        let storageFlags := flags &&& (xattrDataStream ||| xattrDataEmbedded)
        let decoded : AppleXattrRecord := ⟨recordObjectId key, name, flags, record.value.drop 4⟩
        if storageFlags = xattrDataEmbedded then
          if embeddedLength ≠ record.value.length - 4 ∨ 3804 < embeddedLength then
            .error "AppleXattrEmbeddedSizeInvalid"
          else .ok decoded
        else if storageFlags = xattrDataStream then
          let streamId := (readU64LE record.value 4).getD 0
          if record.value.length ≠ 4 + xattrDataStreamBytes then
            .error "AppleXattrStreamSizeInvalid"
          else if streamId = 0 ∨ fsObjectIdMask < streamId then
            .error "AppleXattrStreamIdentityInvalid"
          else .ok decoded
        else
          .error "AppleXattrStorageFlagsInvalid"

end Extents
end ApfsAccess
