import ApfsAccess.Compression.Slices

/-!
# Ranges of compressed files

`ApfsCompression::DecodeRange` reads the attribute, decodes what the range needs and hands the bytes
over in one last step.

* `decodeRange_slice` : a range is that part of the whole file, a failure leaves the output as it was,
  and nothing is accessed out of bounds.
-/

namespace ApfsAccess
namespace Compression

open ByteBuffer Format

/-- `kHeaderBytes`. -/
def kHeaderBytes : ℕ := 16

/-- The types that are supported. -/
def supportedTypes : List ℕ := [1, 3, 4, 7, 8, 9, 10, 11, 12, 13, 14]

/-- `OffsetResourceType`. -/
def offsetResourceType (type : ℕ) : Bool := type == 8 || type == 10 || type == 12 || type == 14

/-- `ResourceType`. -/
def resourceType (type : ℕ) : Bool := type == 4 || offsetResourceType type

/-- The checks of `Inspect` on the payload of an inline attribute. -/
def checkPayload (header : ApfsCompressionHeader) (payload : Bytes) : Checked Unit :=
  match payload with
  | [] => failIf (header.type = 3 ∨ header.type = 7 ∨ header.type = 9 ∨ header.type = 13) .corrupt
      "CompressionInlinePayloadInvalid"
  | first :: stored => do
    failIf (header.type = 3 ∧ rawMarker first = true ∧ stored.length ≠ header.uncompressedSize)
      .corrupt "CompressionInlinePayloadInvalid"
    failIf (header.type = 7 ∧ first = 0x06 ∧ stored.length ≠ header.uncompressedSize) .corrupt
      "CompressionLzvnRawSizeMismatch"
    failIf (header.type = 9 ∧ first ≠ 0xcc) .unsupported "CompressionStoredMarkerUnsupported"
    failIf (header.type = 13 ∧ first ≠ 0xff ∧ rawMarker first = true) .unsupported
      "CompressionLzbitmapRawMarkerUnsupported"
    failIf ((header.type = 9 ∨ header.type = 13 ∧ first = 0xff) ∧
      stored.length ≠ header.uncompressedSize) .corrupt "CompressionStoredSizeMismatch"

/-- `ApfsCompression::Inspect`. -/
def inspect (decmpfs : Bytes) (limits : ApfsCompressionLimits) : Checked ApfsCompressionHeader := do
  failIf (decmpfs.length < kHeaderBytes) .corrupt "CompressionHeaderInvalid"
  let found ← u32 decmpfs 0 false
  failIf (found ≠ 0x636d7066) .corrupt "CompressionHeaderInvalid"
  let type ← u32 decmpfs 4 false
  let uncompressedSize ← u64 decmpfs 8
  failIf (type ∉ supportedTypes) .unsupported "CompressionTypeUnsupported"
  failIf (type = 1 ∧ decmpfs.length - kHeaderBytes ≠ uncompressedSize) .corrupt
    "CompressionInlineRawSizeMismatch"
  failIf (resourceType type = true ∧ decmpfs.length ≠ kHeaderBytes) .corrupt
    "CompressionResourceAttributeSizeInvalid"
  checkPayload { type, uncompressedSize } (decmpfs.drop kHeaderBytes)
  failIf (limits.maxDecmpfsBytes < decmpfs.length ∨ limits.maxFileBytes < uncompressedSize ∨
    resourceType type = false ∧ limits.maxInlineDecodedBytes < uncompressedSize) .limitExceeded
    "CompressionHeaderSizeLimit"
  .ok { type, uncompressedSize }

/-- `subspan`. -/
def subspan (bytes : Bytes) (offset count : ℕ) : Checked Bytes :=
  if offset + count ≤ bytes.length then .ok (slice bytes offset count) else .error .outOfBounds

/-- The coding of an inline stream. -/
def inlineCoding (type : ℕ) : Coding :=
  if type = 13 then .lzbitmap
  else if type = 11 then .lzfse
  else if type = 7 then .lzvn
  else .zlib

/-- The bytes that an inline attribute stands for. -/
def inlineBytes (codecs : BlockCodecs) (limits : ApfsCompressionLimits)
    (header : ApfsCompressionHeader) (payload : Bytes) (wanted : ℕ) : Checked Bytes :=
  if header.type = 3 ∨ header.type = 7 ∨ header.type = 11 ∨ header.type = 13 then do
    failIf (limits.maxDecodedBytes < header.uncompressedSize) .limitExceeded
      "CompressionDecodedWorkLimit"
    let (decoded, _) ← (inlineCoding header.type).decode codecs limits payload
      header.uncompressedSize ⟨limits.maxLzfseWorkUnits, limits.maxLzbitmapWorkUnits⟩
    .ok decoded
  else do
    failIf (limits.maxDecodedBytes < wanted) .limitExceeded "CompressionDecodedWorkLimit"
    if header.type = 9 then subspan payload 1 (payload.length - 1) else .ok payload

/-- The bytes of the range, for each kind of attribute. -/
def rangeBytes (codecs : BlockCodecs) (limits : ApfsCompressionLimits)
    (header : ApfsCompressionHeader) (decmpfs : Bytes) (resource : ResourceReader)
    (offset wanted : ℕ) : Checked Bytes :=
  if resourceType header.type then
    if header.type ≠ 4 then decodeOffsetResource codecs header resource offset wanted limits
    else decodeResource codecs header resource offset wanted limits
  else do
    let payload ← inlineBytes codecs limits header (decmpfs.drop kHeaderBytes) wanted
    if wanted = 0 then .ok [] else subspan payload offset wanted

/-- How much of a range lies in the file. -/
def clip (size offset length : ℕ) : ℕ := if size ≤ offset then 0 else min length (size - offset)

/-- `DecodeRange`, up to the hand-over of the bytes. -/
def decodeResult (codecs : BlockCodecs) (decmpfs : Bytes) (resource : ResourceReader)
    (offset length : ℕ) (limits : ApfsCompressionLimits) : Checked Bytes := do
  let header ← inspect decmpfs limits
  failIf ((header.type = 7 ∨ header.type = 9 ∨ header.type = 11 ∨ header.type = 13) ∧
    (resource.size ≠ 0 ∨ resource.read.isSome = true)) .corrupt
    "CompressionInlineResourceReaderUnexpected"
  let wanted := clip header.uncompressedSize offset length
  failIf (limits.maxOutputBytes < wanted ∨ fitsVector wanted = false) .limitExceeded
    "CompressionOutputLimit"
  rangeBytes codecs limits header decmpfs resource offset wanted

/-- `ApfsCompression::DecodeRange`, with what the caller's output holds afterwards. -/
def decodeRange (codecs : BlockCodecs) (decmpfs : Bytes) (resource : ResourceReader)
    (offset length : ℕ) (limits : ApfsCompressionLimits) (out : Bytes) :
    Except Fault Unit × Bytes :=
  match decodeResult codecs decmpfs resource offset length limits with
  | .ok result => (.ok (), result)
  | .error fault => (.error fault, out)

/-! ## What `Inspect` lets through -/

section Inspect

variable {decmpfs : Bytes} {limits : ApfsCompressionLimits} {header : ApfsCompressionHeader}

/-- What an attribute that is inspected without complaint looks like. -/
structure Inspected (decmpfs : Bytes) (header : ApfsCompressionHeader) : Prop where
  supported : header.type ∈ supportedTypes
  raw : header.type = 1 → (decmpfs.drop kHeaderBytes).length = header.uncompressedSize
  stored : header.type = 9 → (decmpfs.drop kHeaderBytes).length = header.uncompressedSize + 1

/-- An attribute with a stored payload holds its marker and the bytes. -/
theorem length_of_checkPayload {payload : Bytes} (h : checkPayload header payload = .ok ())
    (htype : header.type = 9) : payload.length = header.uncompressedSize + 1 := by
  unfold checkPayload at h
  split at h
  · rw [failIf, if_pos (Or.inr (Or.inr (Or.inl htype)))] at h
    cases h
  · rename_i first stored
    simp only [failIf_bind_eq_ok_iff] at h
    have hlast := h.2.2.2.2
    unfold failIf at hlast
    split_ifs at hlast with hbad
    · cases hlast
    · have hsize : stored.length = header.uncompressedSize := by
        by_contra hne
        exact hbad ⟨Or.inl htype, hne⟩
      rw [List.length_cons, hsize]

theorem inspected_of_inspect (h : inspect decmpfs limits = .ok header) :
    Inspected decmpfs header := by
  unfold inspect at h
  rw [failIf_bind_eq_ok_iff] at h
  obtain ⟨found, -, h⟩ := checked_bind_eq_ok_iff.mp h.2
  rw [failIf_bind_eq_ok_iff] at h
  obtain ⟨type, -, h⟩ := checked_bind_eq_ok_iff.mp h.2
  obtain ⟨uncompressedSize, -, h⟩ := checked_bind_eq_ok_iff.mp h
  rw [failIf_bind_eq_ok_iff, failIf_bind_eq_ok_iff, failIf_bind_eq_ok_iff] at h
  obtain ⟨hsupported, hraw, -, h⟩ := h
  obtain ⟨_, hpayload, h⟩ := checked_bind_eq_ok_iff.mp h
  rw [failIf_bind_eq_ok_iff] at h
  obtain rfl := Except.ok.inj h.2
  refine ⟨not_not.mp hsupported, fun htype => ?_, fun htype => length_of_checkPayload hpayload htype⟩
  rw [List.length_drop]
  by_contra hne
  exact hraw ⟨htype, hne⟩

theorem inBounds_checkPayload (payload : Bytes) : InBounds (checkPayload header payload) := by
  unfold checkPayload
  have hlast : ∀ (condition : Prop) [Decidable condition] status detail,
      InBounds (failIf condition status detail) := by
    intro condition _ status detail
    unfold failIf
    split_ifs
    · exact inBounds_fail _ _
    · exact inBounds_ok _
  split
  · exact hlast _ _ _
  · exact inBounds_failIf_bind fun _ => inBounds_failIf_bind fun _ => inBounds_failIf_bind fun _ =>
      inBounds_failIf_bind fun _ => hlast _ _ _

theorem inBounds_inspect : InBounds (inspect decmpfs limits) := by
  unfold inspect
  refine inBounds_failIf_bind fun hlength => ?_
  have hsize : 16 ≤ decmpfs.length := not_lt.mp hlength
  refine inBounds_bind (inBounds_u32 _ (by omega)) fun _ _ => inBounds_failIf_bind fun _ => ?_
  refine inBounds_bind (inBounds_u32 _ (by omega)) fun _ _ => ?_
  refine inBounds_bind ?_ fun _ _ => inBounds_failIf_bind fun _ => inBounds_failIf_bind fun _ =>
    inBounds_failIf_bind fun _ => ?_
  · exact inBounds_bind (inBounds_u32 _ (by omega)) fun _ _ =>
      inBounds_bind (inBounds_u32 _ (by omega)) fun _ _ => inBounds_ok _
  · exact inBounds_bind (inBounds_checkPayload _) fun _ _ => inBounds_failIf_bind fun _ =>
      inBounds_ok _

end Inspect

/-! ## Inline attributes -/

section Inline

variable {codecs : BlockCodecs} {limits : ApfsCompressionLimits} {header : ApfsCompressionHeader}
  {decmpfs : Bytes} {wanted : ℕ}

/-- A type that is not one of the streams or of the forks is raw or stored. -/
theorem type_of_not_resource (h : Inspected decmpfs header) (hresource : resourceType header.type = false)
    (hstream : ¬(header.type = 3 ∨ header.type = 7 ∨ header.type = 11 ∨ header.type = 13)) :
    header.type = 1 ∨ header.type = 9 := by
  have hsupported := h.supported
  simp only [supportedTypes, List.mem_cons, List.not_mem_nil, or_false] at hsupported
  simp only [resourceType, offsetResourceType, Bool.or_eq_false_iff, beq_eq_false_iff_ne] at hresource
  omega

/-- **An inline attribute stands for as many bytes as the file has.** -/
theorem length_of_inlineBytes {bytes : Bytes} (h : Inspected decmpfs header)
    (hresource : resourceType header.type = false)
    (hbytes : inlineBytes codecs limits header (decmpfs.drop kHeaderBytes) wanted = .ok bytes) :
    bytes.length = header.uncompressedSize := by
  unfold inlineBytes at hbytes
  split_ifs at hbytes with hstream hstored
  · rw [failIf_bind_eq_ok_iff] at hbytes
    obtain ⟨⟨decoded, left⟩, hdecode, hlast⟩ := checked_bind_eq_ok_iff.mp hbytes.2
    obtain rfl := Except.ok.inj hlast
    exact Coding.length_of_decode hdecode
  · rw [failIf_bind_eq_ok_iff] at hbytes
    have hlength := h.stored hstored
    have hsub := hbytes.2
    unfold subspan at hsub
    split_ifs at hsub with hfits
    obtain rfl := Except.ok.inj hsub
    rw [length_slice_of_le hfits, hlength, Nat.add_sub_cancel]
  · rw [failIf_bind_eq_ok_iff] at hbytes
    obtain rfl := Except.ok.inj hbytes.2
    have hraw := (type_of_not_resource h hresource hstream).resolve_right hstored
    exact h.raw hraw

theorem inBounds_inlineBytes (h : Inspected decmpfs header) :
    InBounds (inlineBytes codecs limits header (decmpfs.drop kHeaderBytes) wanted) := by
  unfold inlineBytes
  split_ifs with hstream hstored
  · exact inBounds_failIf_bind fun _ => inBounds_bind (Coding.inBounds_decode _ _ _ _ _ _) fun _ _ =>
      inBounds_ok _
  · have hlength := h.stored hstored
    refine inBounds_failIf_bind fun _ => ?_
    rw [subspan, if_pos (by omega)]
    exact inBounds_ok _
  · exact inBounds_failIf_bind fun _ => inBounds_ok _

/-- A smaller range of an inline attribute needs no more than a larger one. -/
theorem inlineBytes_of_le {payload bytes : Bytes} {less : ℕ} (hless : less ≤ wanted)
    (h : inlineBytes codecs limits header payload wanted = .ok bytes) :
    inlineBytes codecs limits header payload less = .ok bytes := by
  unfold inlineBytes at h ⊢
  by_cases hstream : header.type = 3 ∨ header.type = 7 ∨ header.type = 11 ∨ header.type = 13
  · rw [if_pos hstream] at h ⊢
    exact h
  · rw [if_neg hstream, failIf_bind_eq_ok_iff] at h ⊢
    exact ⟨fun hlimit => h.1 (hlimit.trans_le hless), h.2⟩

end Inline

/-! ## Ranges -/

section Ranges

variable {codecs : BlockCodecs} {limits : ApfsCompressionLimits} {header : ApfsCompressionHeader}
  {decmpfs : Bytes} {resource : ResourceReader} {offset wanted : ℕ}

theorem clip_le (size offset length : ℕ) : clip size offset length ≤ size - offset := by
  unfold clip
  split_ifs <;> omega

/-- **A part of the file**, whatever the attribute. -/
theorem rangeBytes_slice {whole : Bytes} (hinspected : Inspected decmpfs header)
    (h : rangeBytes codecs limits header decmpfs resource 0 header.uncompressedSize = .ok whole)
    (hpart : wanted ≠ 0 → offset + wanted ≤ header.uncompressedSize) :
    whole.length = header.uncompressedSize ∧
      rangeBytes codecs limits header decmpfs resource offset wanted =
        .ok (slice whole offset wanted) := by
  unfold rangeBytes at h ⊢
  by_cases hresource : resourceType header.type = true
  · rw [if_pos hresource] at h ⊢
    by_cases htype : header.type ≠ 4
    · rw [if_pos htype] at h ⊢
      obtain ⟨⟨table, reads⟩, htable, hblocks⟩ := checked_bind_eq_ok_iff.mp h
      exact ⟨length_of_decodeBlocks hblocks, checked_bind_eq_ok_iff.mpr
        ⟨(table, reads), htable, decodeBlocks_slice hblocks hpart⟩⟩
    · rw [if_neg htype] at h ⊢
      obtain ⟨⟨base, table, reads⟩, htable, hblocks⟩ := checked_bind_eq_ok_iff.mp h
      exact ⟨length_of_decodeBlocks hblocks, checked_bind_eq_ok_iff.mpr
        ⟨(base, table, reads), htable, decodeBlocks_slice hblocks hpart⟩⟩
  · rw [if_neg hresource] at h ⊢
    obtain ⟨payload, hpayload, hall⟩ := checked_bind_eq_ok_iff.mp h
    have hlength := length_of_inlineBytes hinspected (Bool.eq_false_of_not_eq_true hresource) hpayload
    have hwhole : whole = payload := by
      by_cases hzero : header.uncompressedSize = 0
      · rw [if_pos hzero] at hall
        obtain rfl := Except.ok.inj hall
        exact (List.length_eq_zero_iff.mp (hlength.trans hzero)).symm
      · rw [if_neg hzero, subspan, if_pos (by omega)] at hall
        rw [← Except.ok.inj hall, ← hlength, slice_zero_length]
    refine ⟨hwhole ▸ hlength, checked_bind_eq_ok_iff.mpr ⟨payload, ?_, ?_⟩⟩
    · exact inlineBytes_of_le (by omega) hpayload
    · by_cases hzero : wanted = 0
      · rw [if_pos hzero, hzero, slice_zero]
      · have hfits := hpart hzero
        rw [if_neg hzero, subspan, if_pos (by omega), hwhole]

theorem inBounds_rangeBytes (hinspected : Inspected decmpfs header)
    (hpart : wanted ≠ 0 → offset + wanted ≤ header.uncompressedSize) :
    InBounds (rangeBytes codecs limits header decmpfs resource offset wanted) := by
  unfold rangeBytes
  split_ifs with hresource htype hzero
  · exact inBounds_decodeOffsetResource codecs hpart
  · exact inBounds_decodeResource codecs hpart
  · exact inBounds_bind (inBounds_inlineBytes hinspected) fun _ _ => inBounds_ok _
  · refine inBounds_bind (inBounds_inlineBytes hinspected) fun payload hpayload => ?_
    have hlength := length_of_inlineBytes hinspected (Bool.eq_false_of_not_eq_true hresource) hpayload
    have hfits := hpart hzero
    rw [subspan, if_pos (by omega)]
    exact inBounds_ok _

theorem add_clip_le {size offset length : ℕ} (h : clip size offset length ≠ 0) :
    offset + clip size offset length ≤ size := by
  unfold clip at h ⊢
  split_ifs at h ⊢ <;> omega

theorem clip_self (size : ℕ) : clip size 0 size = size := by
  unfold clip
  split_ifs <;> omega

/-- What is clipped is the range up to the end of the file. -/
theorem slice_clip {whole : Bytes} {size : ℕ} (hlength : whole.length = size) (offset length : ℕ) :
    slice whole offset (clip size offset length) =
      (whole.take (min (offset + length) size)).drop offset := by
  unfold slice clip
  split_ifs with hend
  · rw [List.take_zero, List.drop_eq_nil_of_le]
    rw [List.length_take]
    omega
  · rw [List.drop_take]
    congr 1
    omega

theorem inBounds_decodeResult (offset length : ℕ) :
    InBounds (decodeResult codecs decmpfs resource offset length limits) := by
  refine inBounds_bind inBounds_inspect fun header hinspect => inBounds_failIf_bind fun _ => ?_
  dsimp only
  exact inBounds_failIf_bind fun _ =>
    inBounds_rangeBytes (inspected_of_inspect hinspect) add_clip_le

/-- **A range is a slice of the whole file.** -/
theorem decodeResult_slice {whole : Bytes} (hinspect : inspect decmpfs limits = .ok header)
    (h : decodeResult codecs decmpfs resource 0 header.uncompressedSize limits = .ok whole)
    (offset length : ℕ) :
    decodeResult codecs decmpfs resource offset length limits =
      .ok ((whole.take (min (offset + length) header.uncompressedSize)).drop offset) := by
  unfold decodeResult at h ⊢
  rw [hinspect] at h ⊢
  obtain ⟨found, hfound, h⟩ := checked_bind_eq_ok_iff.mp h
  obtain rfl := Except.ok.inj hfound
  rw [failIf_bind_eq_ok_iff] at h
  dsimp only at h
  rw [failIf_bind_eq_ok_iff, clip_self] at h
  obtain ⟨hreader, houtput, hrange⟩ := h
  obtain ⟨hlength, hslice⟩ := rangeBytes_slice (inspected_of_inspect hinspect) hrange
    (@add_clip_le header.uncompressedSize offset length)
  refine checked_bind_eq_ok_iff.mpr ⟨header, rfl, ?_⟩
  rw [failIf_bind_eq_ok_iff]
  dsimp only
  rw [failIf_bind_eq_ok_iff, ← slice_clip hlength]
  refine ⟨hreader, ?_, hslice⟩
  have hle := clip_le header.uncompressedSize offset length
  simp only [fitsVector, decide_eq_false_iff_not, not_or, not_lt, not_not] at houtput ⊢
  omega

end Ranges

/-- **Ranges of compressed files.**  Where the whole file is decoded, every range is decoded to that
part of it; a failure leaves the output as it was; and nothing is accessed out of bounds. -/
theorem decodeRange_slice (codecs : BlockCodecs) (decmpfs : Bytes) (resource : ResourceReader)
    (limits : ApfsCompressionLimits) :
    (∀ header out whole, inspect decmpfs limits = .ok header →
      decodeRange codecs decmpfs resource 0 header.uncompressedSize limits out = (.ok (), whole) →
      ∀ offset length out', decodeRange codecs decmpfs resource offset length limits out' =
        (.ok (), (whole.take (min (offset + length) header.uncompressedSize)).drop offset)) ∧
    (∀ offset length out fault,
      (decodeRange codecs decmpfs resource offset length limits out).1 = .error fault →
      (decodeRange codecs decmpfs resource offset length limits out).2 = out) ∧
    ∀ offset length out, (decodeRange codecs decmpfs resource offset length limits out).1 ≠
      .error .outOfBounds := by
  refine ⟨fun header out whole hinspect h offset length out' => ?_, fun offset length out fault h => ?_,
    fun offset length out h => ?_⟩
  · unfold decodeRange at h ⊢
    split at h
    · rename_i result hresult
      obtain rfl := (Prod.mk.inj h).2
      rw [decodeResult_slice hinspect hresult]
    · cases (Prod.mk.inj h).1
  · unfold decodeRange at h ⊢
    split at h
    · cases h
    · rfl
  · unfold decodeRange at h
    split at h
    · cases h
    · rename_i found hfound
      obtain rfl := Except.error.inj h
      exact inBounds_decodeResult offset length hfound

/-- Decoders that take no stream, as for files whose blocks are all stored. -/
def noStreams : BlockCodecs where
  inflateInit _ := .memError
  inflate _ _ _ := ⟨.other, 0, 0, []⟩
  lzvn _ _ := none
  lzfseScratchSize := 0
  lzfse _ _ := (.invalid, [])
  lzbitmapStateSize := 0
  lzbitmap _ _ work := ((.invalid, []), work)
  lzbitmap_le _ _ _ := le_rfl
  lzbitmap_mono _ _ _ _ hle _ := ⟨rfl, hle⟩

/-- Limits that a small file stays within. -/
def smallLimits : ApfsCompressionLimits where
  maxFileBytes := 4096
  maxResourceBytes := 4096
  maxDecmpfsBytes := 3802
  maxInlineDecodedBytes := 4096
  maxOutputBytes := 4096
  maxTableBytes := 4096
  maxResourceReadBytes := 4096
  maxDecodedBytes := 4096
  maxZlibAllocationBytes := 0
  maxLzfseStateBytes := 0
  maxLzfseWorkUnits := 0
  maxLzbitmapStateBytes := 0
  maxLzbitmapWorkUnits := 0

/-- The attribute of a file of type 10 and three bytes. -/
def storedAttribute : Bytes := [0x66, 0x70, 0x6d, 0x63, 10, 0, 0, 0, 3, 0, 0, 0, 0, 0, 0, 0]

/-- Its fork: two offsets, and one stored block. -/
def storedFork : ResourceReader where
  size := 12
  read := some fun offset count =>
    .ok (slice [8, 0, 0, 0, 12, 0, 0, 0, 0xcc, 0x61, 0x62, 0x63] offset count)

/-- The middle one of the three bytes. -/
theorem decodeRange_slice_stored :
    decodeRange noStreams storedAttribute storedFork 1 1 smallLimits [] = (.ok (), [0x62]) := by
  have hwhole := (decodeRange_slice noStreams storedAttribute storedFork smallLimits).1
    ⟨10, 3⟩ [] [0x61, 0x62, 0x63] (by rfl) (by rfl)
  exact hwhole 1 1 []

end Compression
end ApfsAccess
