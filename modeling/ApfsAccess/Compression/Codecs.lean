import ApfsAccess.Format.Codec

/-!
# Block codings of compressed files

The stored, zlib, LZVN, LZFSE and LZBITMAP codings of one block, each with the checks that stand around
the decoder proper.  The decoders are a parameter: functions of the block and the expected size, the
LZBITMAP one with a budget that it counts down.

* `Work.AtLeast.decode` : with more work to spend a block decodes to the same bytes.
* `length_of_decode` : a block that decodes has the expected size.
-/

namespace ApfsAccess
namespace Compression

open ByteBuffer Format

/-! ## Outcomes -/

/-- `ApfsCompressionStatus`, apart from success. -/
inductive ApfsCompressionStatus where
  | unsupported
  | corrupt
  | limitExceeded
  | readError
deriving DecidableEq, Repr

/-- A failure that is reported, or an access outside a table, a fork or a buffer, which the code would
not notice. -/
inductive Fault where
  | failed (status : ApfsCompressionStatus) (detail : String)
  | outOfBounds
deriving DecidableEq, Repr

/-- A computation that may fail. -/
abbrev Checked (α : Type) := Except Fault α

/-- `Fail`. -/
def fail {α : Type} (status : ApfsCompressionStatus) (detail : String) : Checked α :=
  .error (.failed status detail)

/-- A test in front of the next step. -/
def failIf (condition : Prop) [Decidable condition] (status : ApfsCompressionStatus)
    (detail : String) : Checked Unit :=
  if condition then fail status detail else .ok ()

section Rules

variable {α β : Type}

theorem failIf_bind_eq_ok_iff {condition : Prop} [Decidable condition]
    {status : ApfsCompressionStatus} {detail : String} {next : Unit → Checked α} {result : α} :
    (failIf condition status detail >>= next) = .ok result ↔ ¬condition ∧ next () = .ok result := by
  unfold failIf
  split_ifs with h
  · exact iff_of_false nofun fun h' => h'.1 h
  · exact (and_iff_right h).symm

theorem checked_bind_eq_ok_iff {first : Checked α} {next : α → Checked β} {result : β} :
    (first >>= next) = .ok result ↔ ∃ value, first = .ok value ∧ next value = .ok result := by
  cases first with
  | error fault => exact iff_of_false nofun nofun
  | ok value =>
    simp only [Except.ok.injEq, exists_eq_left']
    exact Iff.rfl

/-- Nothing is accessed outside its bounds. -/
def InBounds (computation : Checked α) : Prop := computation ≠ .error .outOfBounds

theorem inBounds_ok (value : α) : InBounds (.ok value) := nofun

theorem inBounds_fail (status : ApfsCompressionStatus) (detail : String) :
    InBounds (fail status detail : Checked α) := nofun

theorem inBounds_bind {first : Checked α} {next : α → Checked β} (hfirst : InBounds first)
    (hnext : ∀ value, first = .ok value → InBounds (next value)) : InBounds (first >>= next) := by
  cases first with
  | error fault => exact fun h => hfirst (congrArg Except.error (Except.error.inj h))
  | ok value => exact hnext value rfl

theorem inBounds_failIf_bind {condition : Prop} [Decidable condition]
    {status : ApfsCompressionStatus} {detail : String} {next : Unit → Checked α}
    (h : ¬condition → InBounds (next ())) : InBounds (failIf condition status detail >>= next) := by
  unfold failIf
  split_ifs with hcondition
  · exact inBounds_fail status detail
  · exact h hcondition

end Rules

/-! ## Limits and helpers -/

/-- `ApfsCompressionLimits`. -/
structure ApfsCompressionLimits where
  maxFileBytes : ℕ
  maxResourceBytes : ℕ
  maxDecmpfsBytes : ℕ
  maxInlineDecodedBytes : ℕ
  maxOutputBytes : ℕ
  maxTableBytes : ℕ
  maxResourceReadBytes : ℕ
  maxDecodedBytes : ℕ
  maxZlibAllocationBytes : ℕ
  maxLzfseStateBytes : ℕ
  maxLzfseWorkUnits : ℕ
  maxLzbitmapStateBytes : ℕ
  maxLzbitmapWorkUnits : ℕ

/-- `RawMarker`. -/
def rawMarker (first : UInt8) : Bool := first &&& 0x0f == 0x0f

/-- `FitsVector`. -/
def fitsVector (size : ℕ) : Bool := decide (size ≤ 2 ^ 63 - 1)

/-- `resize`. -/
def resize (bytes : Bytes) (size : ℕ) : Bytes :=
  bytes.take size ++ List.replicate (size - bytes.length) 0

theorem length_resize (bytes : Bytes) (size : ℕ) : (resize bytes size).length = size := by
  rw [resize, List.length_append, List.length_take, List.length_replicate]
  omega

/-! ## The decoders -/

/-- The codes of zlib that are told apart. -/
inductive ZlibCode where
  | ok
  | streamEnd
  | memError
  | other
deriving DecidableEq, Repr

/-- The state of a stream after `inflate`. -/
structure InflateEnd where
  code : ZlibCode
  availIn : ℕ
  totalOut : ℕ
  output : Bytes

/-- How an LZFSE or an LZBITMAP decoder ends. -/
inductive DecodeCode where
  | ok
  | limit
  | noncanonical
  | invalid
deriving DecidableEq, Repr

/-- The decoders that are called. -/
structure BlockCodecs where
  /-- `inflateInit2`, with the bytes it may allocate. -/
  inflateInit : ℕ → ZlibCode
  /-- `inflate`, with the bytes it may allocate, the input and the size of the output. -/
  inflate : ℕ → Bytes → ℕ → InflateEnd
  /-- `apfsaccess_lzvn_decode_exact`, with the input and the expected size. -/
  lzvn : Bytes → ℕ → Option Bytes
  /-- `apfsaccess_lzfse_scratch_size`. -/
  lzfseScratchSize : ℕ
  /-- `apfsaccess_lzfse_decode_exact`, with the input and the expected size. -/
  lzfse : Bytes → ℕ → DecodeCode × Bytes
  /-- `apfsaccess_lzbitmap_state_size`. -/
  lzbitmapStateSize : ℕ
  /-- `apfsaccess_lzbitmap_decode_exact`, with the input, the expected size and the work that is left. -/
  lzbitmap : Bytes → ℕ → ℕ → (DecodeCode × Bytes) × ℕ
  /-- The work is counted down. -/
  lzbitmap_le : ∀ encoded expected work, (lzbitmap encoded expected work).2 ≤ work
  /-- More work neither changes a block that decodes nor leaves less. -/
  lzbitmap_mono : ∀ encoded expected work more, work ≤ more →
    (lzbitmap encoded expected work).1.1 = .ok →
    (lzbitmap encoded expected more).1 = (lzbitmap encoded expected work).1 ∧
      (lzbitmap encoded expected work).2 ≤ (lzbitmap encoded expected more).2

/-- `remaining_work` and `remaining_bitmap_work`. -/
structure Work where
  lzfse : ℕ
  lzbitmap : ℕ

/-- `DecodeStored`. -/
def decodeStored (encoded : Bytes) (expected : ℕ) (marker : UInt8) : Checked Bytes :=
  match encoded with
  | [] => fail .corrupt "CompressionStoredFramingInvalid"
  | first :: stored => do
    failIf (first ≠ marker) .unsupported "CompressionStoredMarkerUnsupported"
    failIf (stored.length ≠ expected) .corrupt "CompressionStoredFramingInvalid"
    .ok stored

/-- `DecodeBlock`. -/
def decodeBlock (codecs : BlockCodecs) (limits : ApfsCompressionLimits) (encoded : Bytes)
    (expected : ℕ) : Checked Bytes :=
  match encoded with
  | [] => fail .corrupt "CompressionPayloadMissing"
  | first :: stored =>
    if rawMarker first then do
      failIf (stored.length ≠ expected) .corrupt "CompressionRawSizeMismatch"
      .ok stored
    else do
      failIf (2 ^ 32 - 1 ≤ expected ∨ fitsVector (expected + 1) = false ∨
        2 ^ 32 - 1 < encoded.length) .limitExceeded "CompressionZlibApiSizeLimit"
      match codecs.inflateInit limits.maxZlibAllocationBytes with
      | .ok => do
        let done := codecs.inflate limits.maxZlibAllocationBytes encoded (expected + 1)
        failIf (done.code = .memError) .limitExceeded "CompressionZlibMemoryLimit"
        failIf (done.code ≠ .streamEnd ∨ done.availIn ≠ 0 ∨ done.totalOut ≠ expected) .corrupt
          "CompressionZlibStreamInvalid"
        .ok (resize done.output expected)
      | .memError => fail .limitExceeded "CompressionZlibInitFailed"
      | _ => fail .corrupt "CompressionZlibInitFailed"

/-- `DecodeLzvn`. -/
def decodeLzvn (codecs : BlockCodecs) (encoded : Bytes) (expected : ℕ) : Checked Bytes :=
  match encoded with
  | [] => fail .corrupt "CompressionPayloadMissing"
  | first :: stored =>
    if first = 0x06 then do
      failIf (stored.length ≠ expected) .corrupt "CompressionLzvnRawSizeMismatch"
      .ok stored
    else do
      failIf (expected = 2 ^ 64 - 1 ∨ fitsVector (expected + 1) = false ∨
        fitsVector encoded.length = false) .limitExceeded "CompressionLzvnApiSizeLimit"
      match codecs.lzvn encoded expected with
      | none => fail .corrupt "CompressionLzvnStreamInvalid"
      | some decoded => do
        failIf (encoded.length < 8 ∨ encoded[encoded.length - 8]? ≠ some 0x06 ∨
          (encoded.drop (encoded.length - 7)).all (· == 0) = false) .unsupported
          "CompressionLzvnNoncanonicalEosUnsupported"
        .ok (resize decoded expected)

/-- `DecodeLzfse`, with the work that is left. -/
def decodeLzfse (codecs : BlockCodecs) (limits : ApfsCompressionLimits) (encoded : Bytes)
    (expected remaining : ℕ) : Checked (Bytes × ℕ) := do
  failIf (encoded = []) .corrupt "CompressionLzfsePayloadMissing"
  failIf (fitsVector expected = false ∨ limits.maxLzfseStateBytes < codecs.lzfseScratchSize ∨
    2 ^ 64 - 1 - expected < encoded.length ∨
    (2 ^ 64 - 1 - 4096) / 16 < encoded.length + expected) .limitExceeded
    "CompressionLzfseStateOrSizeLimit"
  let work := 4096 + 16 * (encoded.length + expected)
  failIf (remaining < work) .limitExceeded "CompressionLzfseWorkLimit"
  match codecs.lzfse encoded expected with
  | (.ok, decoded) => .ok (resize decoded expected, remaining - work)
  | (.limit, _) => fail .limitExceeded "CompressionLzfseStreamInvalid"
  | _ => fail .corrupt "CompressionLzfseStreamInvalid"

/-- `DecodeLzbitmap`, with the work that is left. -/
def decodeLzbitmap (codecs : BlockCodecs) (limits : ApfsCompressionLimits) (encoded : Bytes)
    (expected remaining : ℕ) : Checked (Bytes × ℕ) :=
  match encoded with
  | [] => fail .corrupt "CompressionLzbitmapPayloadMissing"
  | first :: _ =>
    if first = 0xff then do
      let stored ← decodeStored encoded expected 0xff
      .ok (stored, remaining)
    else do
      failIf (rawMarker first = true) .unsupported "CompressionLzbitmapRawMarkerUnsupported"
      failIf (fitsVector expected = false ∨ limits.maxLzbitmapStateBytes < codecs.lzbitmapStateSize)
        .limitExceeded "CompressionLzbitmapStateOrSizeLimit"
      match codecs.lzbitmap encoded expected remaining with
      | ((.ok, decoded), left) => .ok (resize decoded expected, left)
      | ((.limit, _), _) => fail .limitExceeded "CompressionLzbitmapStreamInvalid"
      | ((.noncanonical, _), _) => fail .unsupported "CompressionLzbitmapStreamInvalid"
      | _ => fail .corrupt "CompressionLzbitmapStreamInvalid"

/-- The coding of a block. -/
inductive Coding where
  | stored (marker : UInt8)
  | zlib
  | lzvn
  | lzfse
  | lzbitmap
deriving DecidableEq, Repr

/-- A block of a coding, with the work that is left. -/
def Coding.decode (codecs : BlockCodecs) (limits : ApfsCompressionLimits) (coding : Coding)
    (encoded : Bytes) (expected : ℕ) (work : Work) : Checked (Bytes × Work) :=
  match coding with
  | .stored marker => do
    let decoded ← decodeStored encoded expected marker
    .ok (decoded, work)
  | .zlib => do
    let decoded ← decodeBlock codecs limits encoded expected
    .ok (decoded, work)
  | .lzvn => do
    let decoded ← decodeLzvn codecs encoded expected
    .ok (decoded, work)
  | .lzfse => do
    let (decoded, left) ← decodeLzfse codecs limits encoded expected work.lzfse
    .ok (decoded, { work with lzfse := left })
  | .lzbitmap => do
    let (decoded, left) ← decodeLzbitmap codecs limits encoded expected work.lzbitmap
    .ok (decoded, { work with lzbitmap := left })

/-! ## What a decoded block is -/

section Blocks

variable {codecs : BlockCodecs} {limits : ApfsCompressionLimits} {encoded decoded : Bytes}
  {expected : ℕ}

theorem length_of_decodeStored {marker : UInt8}
    (h : decodeStored encoded expected marker = .ok decoded) : decoded.length = expected := by
  unfold decodeStored at h
  split at h
  · cases h
  · rw [failIf_bind_eq_ok_iff, failIf_bind_eq_ok_iff] at h
    obtain ⟨-, hlength, h⟩ := h
    obtain rfl := Except.ok.inj h
    exact not_not.mp hlength

theorem length_of_decodeBlock (h : decodeBlock codecs limits encoded expected = .ok decoded) :
    decoded.length = expected := by
  unfold decodeBlock at h
  split at h
  · cases h
  · split_ifs at h
    · rw [failIf_bind_eq_ok_iff] at h
      obtain rfl := Except.ok.inj h.2
      exact not_not.mp h.1
    · rw [failIf_bind_eq_ok_iff] at h
      replace h := h.2
      split at h
      · rw [failIf_bind_eq_ok_iff, failIf_bind_eq_ok_iff] at h
        obtain rfl := Except.ok.inj h.2.2
        exact length_resize _ _
      · cases h
      · cases h

theorem length_of_decodeLzvn (h : decodeLzvn codecs encoded expected = .ok decoded) :
    decoded.length = expected := by
  unfold decodeLzvn at h
  split at h
  · cases h
  · split_ifs at h
    · rw [failIf_bind_eq_ok_iff] at h
      obtain rfl := Except.ok.inj h.2
      exact not_not.mp h.1
    · rw [failIf_bind_eq_ok_iff] at h
      replace h := h.2
      split at h
      · cases h
      · rw [failIf_bind_eq_ok_iff] at h
        obtain rfl := Except.ok.inj h.2
        exact length_resize _ _

/-- What an LZFSE block that decodes went through. -/
theorem decodeLzfse_eq_ok_iff {remaining left : ℕ} :
    decodeLzfse codecs limits encoded expected remaining = .ok (decoded, left) ↔
      encoded ≠ [] ∧
      ¬(fitsVector expected = false ∨ limits.maxLzfseStateBytes < codecs.lzfseScratchSize ∨
        2 ^ 64 - 1 - expected < encoded.length ∨
        (2 ^ 64 - 1 - 4096) / 16 < encoded.length + expected) ∧
      4096 + 16 * (encoded.length + expected) ≤ remaining ∧
      (codecs.lzfse encoded expected).1 = .ok ∧
      decoded = resize (codecs.lzfse encoded expected).2 expected ∧
      left = remaining - (4096 + 16 * (encoded.length + expected)) := by
  unfold decodeLzfse
  rw [failIf_bind_eq_ok_iff, failIf_bind_eq_ok_iff, failIf_bind_eq_ok_iff, not_lt]
  refine and_congr_right fun _ => and_congr_right fun _ => and_congr_right fun _ => ?_
  split
  · rename_i bytes heq
    rw [heq, Except.ok.injEq, Prod.mk.injEq]
    exact ⟨fun h => ⟨rfl, h.1.symm, h.2.symm⟩, fun h => ⟨h.2.1.symm, h.2.2.symm⟩⟩
  · rename_i bytes heq
    rw [heq]
    exact iff_of_false nofun nofun
  · rename_i hne hlimit
    refine iff_of_false nofun fun h => ?_
    exact hne (codecs.lzfse encoded expected).2 (Prod.ext h.1 rfl)

/-- What an LZBITMAP block that decodes went through. -/
theorem decodeLzbitmap_cases {remaining left : ℕ}
    (h : decodeLzbitmap codecs limits encoded expected remaining = .ok (decoded, left)) :
    (left = remaining ∧ ∀ more, decodeLzbitmap codecs limits encoded expected more =
        .ok (decoded, more)) ∨
    ((codecs.lzbitmap encoded expected remaining).1.1 = .ok ∧
      left = (codecs.lzbitmap encoded expected remaining).2 ∧
      ∀ more, (codecs.lzbitmap encoded expected more).1 =
          (codecs.lzbitmap encoded expected remaining).1 →
        decodeLzbitmap codecs limits encoded expected more =
          .ok (decoded, (codecs.lzbitmap encoded expected more).2)) := by
  unfold decodeLzbitmap at h ⊢
  split at h
  · cases h
  · split_ifs at h with hstored
    · rw [checked_bind_eq_ok_iff] at h
      obtain ⟨stored, hdecode, h⟩ := h
      obtain ⟨rfl, rfl⟩ := Prod.mk.inj (Except.ok.inj h)
      refine Or.inl ⟨rfl, fun more => ?_⟩
      rw [if_pos hstored, hdecode]
      rfl
    · rw [failIf_bind_eq_ok_iff, failIf_bind_eq_ok_iff] at h
      obtain ⟨hmarker, hsize, h⟩ := h
      refine Or.inr ?_
      split at h
      · rename_i bytes rest heq
        obtain ⟨rfl, rfl⟩ := Prod.mk.inj (Except.ok.inj h)
        rw [heq]
        refine ⟨rfl, rfl, fun more hmore => ?_⟩
        rw [if_neg hstored, failIf_bind_eq_ok_iff, failIf_bind_eq_ok_iff]
        refine ⟨hmarker, hsize, ?_⟩
        have hsplit : codecs.lzbitmap _ expected more =
            ((.ok, bytes), (codecs.lzbitmap _ expected more).2) := Prod.ext hmore rfl
        rw [hsplit]
      · cases h
      · cases h
      · cases h

theorem length_of_decodeLzbitmap {remaining left : ℕ}
    (h : decodeLzbitmap codecs limits encoded expected remaining = .ok (decoded, left)) :
    decoded.length = expected := by
  unfold decodeLzbitmap at h
  split at h
  · cases h
  · split_ifs at h
    · rw [checked_bind_eq_ok_iff] at h
      obtain ⟨stored, hdecode, h⟩ := h
      obtain ⟨rfl, -⟩ := Prod.mk.inj (Except.ok.inj h)
      exact length_of_decodeStored hdecode
    · rw [failIf_bind_eq_ok_iff, failIf_bind_eq_ok_iff] at h
      replace h := h.2.2
      split at h
      · obtain ⟨rfl, -⟩ := Prod.mk.inj (Except.ok.inj h)
        exact length_resize _ _
      · cases h
      · cases h
      · cases h

/-- **A block that decodes has the expected size.** -/
theorem Coding.length_of_decode {coding : Coding} {work left : Work}
    (h : coding.decode codecs limits encoded expected work = .ok (decoded, left)) :
    decoded.length = expected := by
  cases coding with
  | stored marker =>
    obtain ⟨bytes, hdecode, h⟩ := checked_bind_eq_ok_iff.mp h
    obtain ⟨rfl, -⟩ := Prod.mk.inj (Except.ok.inj h)
    exact length_of_decodeStored hdecode
  | zlib =>
    obtain ⟨bytes, hdecode, h⟩ := checked_bind_eq_ok_iff.mp h
    obtain ⟨rfl, -⟩ := Prod.mk.inj (Except.ok.inj h)
    exact length_of_decodeBlock hdecode
  | lzvn =>
    obtain ⟨bytes, hdecode, h⟩ := checked_bind_eq_ok_iff.mp h
    obtain ⟨rfl, -⟩ := Prod.mk.inj (Except.ok.inj h)
    exact length_of_decodeLzvn hdecode
  | lzfse =>
    obtain ⟨⟨bytes, rest⟩, hdecode, h⟩ := checked_bind_eq_ok_iff.mp h
    obtain ⟨rfl, -⟩ := Prod.mk.inj (Except.ok.inj h)
    obtain ⟨-, -, -, -, rfl, -⟩ := decodeLzfse_eq_ok_iff.mp hdecode
    exact length_resize _ _
  | lzbitmap =>
    obtain ⟨⟨bytes, rest⟩, hdecode, h⟩ := checked_bind_eq_ok_iff.mp h
    obtain ⟨rfl, -⟩ := Prod.mk.inj (Except.ok.inj h)
    exact length_of_decodeLzbitmap hdecode

/-- One budget is at least another. -/
structure Work.AtLeast (more less : Work) : Prop where
  lzfse : less.lzfse ≤ more.lzfse
  lzbitmap : less.lzbitmap ≤ more.lzbitmap

theorem Work.AtLeast.refl (work : Work) : work.AtLeast work := ⟨le_rfl, le_rfl⟩

theorem Work.AtLeast.trans {first second third : Work} (h : first.AtLeast second)
    (h' : second.AtLeast third) : first.AtLeast third :=
  ⟨h'.lzfse.trans h.lzfse, h'.lzbitmap.trans h.lzbitmap⟩

/-- **With more work to spend a block decodes to the same bytes**, and no less is left. -/
theorem Work.AtLeast.decode {coding : Coding} {less more left : Work} (hmore : more.AtLeast less)
    (h : coding.decode codecs limits encoded expected less = .ok (decoded, left)) :
    ∃ left', coding.decode codecs limits encoded expected more = .ok (decoded, left') ∧
      left'.AtLeast left := by
  cases coding with
  | stored marker =>
    obtain ⟨bytes, hdecode, h⟩ := checked_bind_eq_ok_iff.mp h
    obtain ⟨rfl, rfl⟩ := Prod.mk.inj (Except.ok.inj h)
    exact ⟨more, checked_bind_eq_ok_iff.mpr ⟨bytes, hdecode, rfl⟩, hmore⟩
  | zlib =>
    obtain ⟨bytes, hdecode, h⟩ := checked_bind_eq_ok_iff.mp h
    obtain ⟨rfl, rfl⟩ := Prod.mk.inj (Except.ok.inj h)
    exact ⟨more, checked_bind_eq_ok_iff.mpr ⟨bytes, hdecode, rfl⟩, hmore⟩
  | lzvn =>
    obtain ⟨bytes, hdecode, h⟩ := checked_bind_eq_ok_iff.mp h
    obtain ⟨rfl, rfl⟩ := Prod.mk.inj (Except.ok.inj h)
    exact ⟨more, checked_bind_eq_ok_iff.mpr ⟨bytes, hdecode, rfl⟩, hmore⟩
  | lzfse =>
    obtain ⟨⟨bytes, rest⟩, hdecode, h⟩ := checked_bind_eq_ok_iff.mp h
    obtain ⟨rfl, rfl⟩ := Prod.mk.inj (Except.ok.inj h)
    obtain ⟨hsome, hsize, hwork, hcode, hbytes, rfl⟩ := decodeLzfse_eq_ok_iff.mp hdecode
    have hagain := decodeLzfse_eq_ok_iff.mpr
      ⟨hsome, hsize, hwork.trans hmore.lzfse, hcode, hbytes, rfl⟩
    refine ⟨_, checked_bind_eq_ok_iff.mpr ⟨_, hagain, rfl⟩, ?_, hmore.lzbitmap⟩
    exact Nat.sub_le_sub_right hmore.lzfse _
  | lzbitmap =>
    obtain ⟨⟨bytes, rest⟩, hdecode, h⟩ := checked_bind_eq_ok_iff.mp h
    obtain ⟨rfl, rfl⟩ := Prod.mk.inj (Except.ok.inj h)
    rcases decodeLzbitmap_cases hdecode with ⟨rfl, hagain⟩ | ⟨hcode, rfl, hagain⟩
    · exact ⟨_, checked_bind_eq_ok_iff.mpr ⟨_, hagain more.lzbitmap, rfl⟩, hmore.lzfse,
        hmore.lzbitmap⟩
    · obtain ⟨hsame, hle⟩ := codecs.lzbitmap_mono encoded expected _ _ hmore.lzbitmap hcode
      exact ⟨_, checked_bind_eq_ok_iff.mpr ⟨_, hagain more.lzbitmap hsame, rfl⟩, hmore.lzfse, hle⟩

/-- A block does not add to the work. -/
theorem Coding.atLeast_of_decode {coding : Coding} {work left : Work}
    (h : coding.decode codecs limits encoded expected work = .ok (decoded, left)) :
    work.AtLeast left := by
  cases coding with
  | stored marker =>
    obtain ⟨bytes, hdecode, h⟩ := checked_bind_eq_ok_iff.mp h
    obtain ⟨-, rfl⟩ := Prod.mk.inj (Except.ok.inj h)
    exact Work.AtLeast.refl work
  | zlib =>
    obtain ⟨bytes, hdecode, h⟩ := checked_bind_eq_ok_iff.mp h
    obtain ⟨-, rfl⟩ := Prod.mk.inj (Except.ok.inj h)
    exact Work.AtLeast.refl work
  | lzvn =>
    obtain ⟨bytes, hdecode, h⟩ := checked_bind_eq_ok_iff.mp h
    obtain ⟨-, rfl⟩ := Prod.mk.inj (Except.ok.inj h)
    exact Work.AtLeast.refl work
  | lzfse =>
    obtain ⟨⟨bytes, rest⟩, hdecode, h⟩ := checked_bind_eq_ok_iff.mp h
    obtain ⟨-, rfl⟩ := Prod.mk.inj (Except.ok.inj h)
    obtain ⟨-, -, -, -, -, rfl⟩ := decodeLzfse_eq_ok_iff.mp hdecode
    exact ⟨Nat.sub_le _ _, le_rfl⟩
  | lzbitmap =>
    obtain ⟨⟨bytes, rest⟩, hdecode, h⟩ := checked_bind_eq_ok_iff.mp h
    obtain ⟨-, rfl⟩ := Prod.mk.inj (Except.ok.inj h)
    rcases decodeLzbitmap_cases hdecode with ⟨rfl, -⟩ | ⟨-, rfl, -⟩
    · exact Work.AtLeast.refl work
    · exact ⟨le_rfl, codecs.lzbitmap_le encoded expected work.lzbitmap⟩

end Blocks

/-! ## Nothing is accessed outside its bounds -/

section Bounds

variable (codecs : BlockCodecs) (limits : ApfsCompressionLimits) (encoded : Bytes) (expected : ℕ)

theorem inBounds_decodeStored (marker : UInt8) :
    InBounds (decodeStored encoded expected marker) := by
  unfold decodeStored
  split
  · exact inBounds_fail _ _
  · exact inBounds_failIf_bind fun _ => inBounds_failIf_bind fun _ => inBounds_ok _

theorem inBounds_decodeBlock : InBounds (decodeBlock codecs limits encoded expected) := by
  unfold decodeBlock
  split
  · exact inBounds_fail _ _
  · split_ifs
    · exact inBounds_failIf_bind fun _ => inBounds_ok _
    · refine inBounds_failIf_bind fun _ => ?_
      split
      · exact inBounds_failIf_bind fun _ => inBounds_failIf_bind fun _ => inBounds_ok _
      · exact inBounds_fail _ _
      · exact inBounds_fail _ _

theorem inBounds_decodeLzvn : InBounds (decodeLzvn codecs encoded expected) := by
  unfold decodeLzvn
  split
  · exact inBounds_fail _ _
  · split_ifs
    · exact inBounds_failIf_bind fun _ => inBounds_ok _
    · refine inBounds_failIf_bind fun _ => ?_
      split
      · exact inBounds_fail _ _
      · exact inBounds_failIf_bind fun _ => inBounds_ok _

theorem inBounds_decodeLzfse (remaining : ℕ) :
    InBounds (decodeLzfse codecs limits encoded expected remaining) := by
  unfold decodeLzfse
  refine inBounds_failIf_bind fun _ => inBounds_failIf_bind fun _ => inBounds_failIf_bind fun _ => ?_
  split
  · exact inBounds_ok _
  · exact inBounds_fail _ _
  · exact inBounds_fail _ _

theorem inBounds_decodeLzbitmap (remaining : ℕ) :
    InBounds (decodeLzbitmap codecs limits encoded expected remaining) := by
  unfold decodeLzbitmap
  split
  · exact inBounds_fail _ _
  · split_ifs
    · exact inBounds_bind (inBounds_decodeStored _ _ _) fun _ _ => inBounds_ok _
    · refine inBounds_failIf_bind fun _ => inBounds_failIf_bind fun _ => ?_
      split
      · exact inBounds_ok _
      · exact inBounds_fail _ _
      · exact inBounds_fail _ _
      · exact inBounds_fail _ _

theorem Coding.inBounds_decode (coding : Coding) (work : Work) :
    InBounds (coding.decode codecs limits encoded expected work) := by
  cases coding with
  | stored marker => exact inBounds_bind (inBounds_decodeStored _ _ _) fun _ _ => inBounds_ok _
  | zlib => exact inBounds_bind (inBounds_decodeBlock _ _ _ _) fun _ _ => inBounds_ok _
  | lzvn => exact inBounds_bind (inBounds_decodeLzvn _ _ _) fun _ _ => inBounds_ok _
  | lzfse => exact inBounds_bind (inBounds_decodeLzfse _ _ _ _ _) fun _ _ => inBounds_ok _
  | lzbitmap => exact inBounds_bind (inBounds_decodeLzbitmap _ _ _ _ _) fun _ _ => inBounds_ok _

end Bounds

end Compression
end ApfsAccess
