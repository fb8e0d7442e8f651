import ApfsAccess.Names.Utf8
import ApfsAccess.Library.Repacking

/-!
# Windows names: UTF-16, legal spellings and the projection of the others

A name whose UTF-16 spelling is a legal Windows name is shown as it is.  Any other name is
projected: the escape prefix, one digit for the length, and the UTF-8 bytes packed into
digits of fourteen bits.  `unprojectBytes_projectBytes` undoes the packing, and
`wideToUtf8_wideUnits` the conversion to UTF-16.
-/

namespace ApfsAccess
namespace Names

open Format Repacking

/-- A `std::wstring` of 16-bit units. -/
abbrev WString := List UInt16

/-- A wide literal. -/
def wide (text : String) : WString := text.toList.map fun ch => UInt16.ofNat ch.toNat

/-- `ApfsNameCodec::EscapePrefix`. -/
def escapePrefix : WString := wide "~APFS~"

/-- `ApfsNameCodec::kMaxApfsNameBytes`. -/
def maxApfsNameBytes : ℕ := 255

/-- `kEscapeDigitBase`. -/
def escapeDigitBase : ℕ := 0x4E00

/-- `kEscapeDigitBits`. -/
def escapeDigitBits : ℕ := 14

/-- `kEscapeDigitMask`. -/
def escapeDigitMask : ℕ := 2 ^ escapeDigitBits - 1

/-! ## Legal spellings -/

/-- An ASCII letter in upper case; every other unit as it is. -/
def upperUnit (ch : UInt16) : UInt16 :=
  if 0x61 ≤ ch.toNat ∧ ch.toNat ≤ 0x7A then UInt16.ofNat (ch.toNat - 0x61 + 0x41) else ch

/-- `StartsWithEscapePrefixInsensitive`. -/
def startsWithEscapePrefixInsensitive (value : WString) : Bool :=
  escapePrefix.length ≤ value.length &&
    (value.take escapePrefix.length).map upperUnit == escapePrefix

/-- The superscript digits that count as device digits. -/
def superscriptDigit (ch : UInt16) : Bool := ch == 0xB9 || ch == 0xB2 || ch == 0xB3

/-- The part of a name before its first dot, without trailing spaces. -/
def deviceBase (name : WString) : WString :=
  (name.takeWhile (· != 0x2E)).rdropWhile (· == 0x20)

/-- `IsReservedDosName`. -/
def isReservedDosName (name : WString) : Bool :=
  let base := deviceBase name
  if base.zipIdx.any (fun entry => 0x7F < entry.1.toNat &&
      !(entry.2 == 3 && superscriptDigit entry.1)) then false
  else
    let upper := base.map upperUnit
    if upper == wide "CON" || upper == wide "PRN" || upper == wide "AUX" ||
        upper == wide "NUL" || upper == wide "CLOCK$" || upper == wide "CONIN$" ||
        upper == wide "CONOUT$" then true
    else if upper.length != 4 ||
        (upper.take 3 != wide "COM" && upper.take 3 != wide "LPT") then false
    else
      let digit := upper.getD 3 0
      (0x31 ≤ digit.toNat && digit.toNat ≤ 0x39) || superscriptDigit digit

/-- A unit that may not stand in a Windows name. -/
def unitForbidden (ch : UInt16) : Bool :=
  ch.toNat ≤ 0x1F || (wide "<>:\"/\\|?*").contains ch

/-- `IsLiteralWindowsName`. -/
def isLiteralWindowsName (name : WString) : Bool :=
  if name == [] || name == wide "." || name == wide ".." ||
      startsWithEscapePrefixInsensitive name || name.getLast? == some 0x2E ||
      name.getLast? == some 0x20 || isReservedDosName name then false
  else !name.any unitForbidden

theorem not_startsWithEscapePrefix_of_literal {name : WString}
    (h : isLiteralWindowsName name = true) : startsWithEscapePrefixInsensitive name = false := by
  unfold isLiteralWindowsName at h
  split at h
  · cases h
  · rename_i hnot
    simp only [Bool.or_eq_true, not_or, Bool.not_eq_true] at hnot
    exact hnot.1.1.1.2

/-! ## UTF-16 -/

/-- `AppendUtf8`. -/
def appendUtf8 (codePoint : ℕ) (output : Bytes) : Option Bytes :=
  if (encodeChar codePoint).length = 0 then none else some (output ++ encodeChar codePoint)

theorem appendUtf8_eq {codePoint : ℕ} (h : codePoint < 0x110000) (output : Bytes) :
    appendUtf8 codePoint output = some (output ++ encodeChar codePoint) := by
  have hne := encodeChar_ne_nil h
  exact if_neg fun hlength => hne (List.length_eq_zero_iff.mp hlength)

/-- The UTF-16 units of a code point. -/
def wideUnits (codePoint : ℕ) : WString :=
  if codePoint ≤ 0xFFFF then [UInt16.ofNat codePoint]
  else
    [UInt16.ofNat (0xD800 + (codePoint - 0x10000) / 1024),
      UInt16.ofNat (0xDC00 + (codePoint - 0x10000) % 1024)]

/-- `Utf8ToWide`. -/
def utf8ToWide (input : Bytes) : Except Unit WString :=
  foldCodePoints () (fun output codePoint => .ok (output ++ wideUnits codePoint)) [] input

/-- The loop of `WideToUtf8`. -/
def wideToUtf8Loop (output : Bytes) : WString → Option Bytes
  | [] => some output
  | unit :: rest =>
    if 0xD800 ≤ unit.toNat ∧ unit.toNat ≤ 0xDBFF then
      match rest with
      | [] => none
      | low :: rest =>
        if low.toNat < 0xDC00 ∨ 0xDFFF < low.toNat then none
        else
          (appendUtf8 (0x10000 + (unit.toNat - 0xD800) * 1024 + (low.toNat - 0xDC00)) output).bind
            fun output => wideToUtf8Loop output rest
    else if 0xDC00 ≤ unit.toNat ∧ unit.toNat ≤ 0xDFFF then none
    else (appendUtf8 unit.toNat output).bind fun output => wideToUtf8Loop output rest

/-- `WideToUtf8`. -/
def wideToUtf8 (input : WString) : Option Bytes := wideToUtf8Loop [] input

theorem toNat_ofNat16_of_lt {value : ℕ} (h : value < 65536) :
    (UInt16.ofNat value).toNat = value := by
  rw [UInt16.toNat_ofNat']
  exact Nat.mod_eq_of_lt h

/-- One scalar value is carried back from UTF-16. -/
theorem wideToUtf8Loop_wideUnits {codePoint : ℕ} (h : codepointValid codePoint) (output : Bytes)
    (rest : WString) :
    wideToUtf8Loop output (wideUnits codePoint ++ rest) =
      wideToUtf8Loop (output ++ encodeChar codePoint) rest := by
  obtain ⟨hlt, hsurrogate⟩ := h
  unfold wideUnits
  by_cases hbmp : codePoint ≤ 0xFFFF
  · rw [if_pos hbmp, List.singleton_append, wideToUtf8Loop.eq_def]
    simp only
    rw [toNat_ofNat16_of_lt (by omega), if_neg (by omega), if_neg (by omega), appendUtf8_eq hlt,
      Option.bind_some]
  · rw [if_neg hbmp, List.cons_append, List.singleton_append, wideToUtf8Loop.eq_def]
    simp only
    rw [toNat_ofNat16_of_lt (by omega), if_pos (by omega), toNat_ofNat16_of_lt (by omega), if_neg (by omega),
      show 0x10000 + (0xD800 + (codePoint - 0x10000) / 1024 - 0xD800) * 1024 +
        (0xDC00 + (codePoint - 0x10000) % 1024 - 0xDC00) = codePoint by omega,
      appendUtf8_eq hlt, Option.bind_some]

/-- **Scalar values are carried back from UTF-16.** -/
theorem wideToUtf8_wideUnits {codePoints : List ℕ}
    (h : ∀ codePoint ∈ codePoints, codepointValid codePoint) :
    wideToUtf8 (codePoints.flatMap wideUnits) = some (encodeAll codePoints) := by
  have hgo : ∀ output, wideToUtf8Loop output (codePoints.flatMap wideUnits) =
      some (output ++ encodeAll codePoints) := by
    induction codePoints with
    | nil => intro output; rw [encodeAll_nil, List.append_nil]; rfl
    | cons codePoint codePoints ih =>
      obtain ⟨hfirst, hrest⟩ := List.forall_mem_cons.mp h
      intro output
      rw [List.flatMap_cons, wideToUtf8Loop_wideUnits hfirst, ih hrest, encodeAll_cons,
        List.append_assoc]
  exact hgo []

theorem utf8ToWide_encodeAll {codePoints : List ℕ}
    (h : ∀ codePoint ∈ codePoints, codepointValid codePoint) :
    utf8ToWide (encodeAll codePoints) = .ok (codePoints.flatMap wideUnits) := by
  have hgo : ∀ output : WString, codePoints.foldlM (m := Except Unit)
      (fun output codePoint => .ok (output ++ wideUnits codePoint)) output =
        .ok (output ++ codePoints.flatMap wideUnits) := by
    clear h
    induction codePoints with
    | nil => intro output; rw [List.flatMap_nil, List.append_nil]; rfl
    | cons codePoint codePoints ih =>
      intro output
      rw [List.foldlM_cons]
      show List.foldlM _ (output ++ wideUnits codePoint) codePoints = _
      rw [ih, List.flatMap_cons, List.append_assoc]
  rw [utf8ToWide, foldCodePoints_encodeAll h, hgo, List.nil_append]

/-- A conversion that went through is undone. -/
theorem wideToUtf8_of_utf8ToWide {input : Bytes} {output : WString}
    (h : utf8ToWide input = .ok output) : wideToUtf8 output = some input := by
  obtain ⟨codePoints, hscalars, rfl⟩ := encodeAll_of_foldCodePoints h
  rw [utf8ToWide_encodeAll hscalars] at h
  rw [← Except.ok.inj h, wideToUtf8_wideUnits hscalars]

/-! ## The projection -/

/-- One byte of the packing loop: shifted in, and whole digits drained. -/
def packByte (window : Window) (item : UInt8) : Window :=
  let pushed := window.push 8 item.toNat
  pushed.drain escapeDigitBits pushed.bitCount

/-- The digits of a projection: the drained ones, and the rest of the bits padded with zeros. -/
def packedDigits (input : Bytes) : List ℕ :=
  let window := input.foldl packByte ⟨0, 0, []⟩
  if window.bitCount ≠ 0 then
    window.digits ++ [window.bits * 2 ^ (escapeDigitBits - window.bitCount) % 2 ^ escapeDigitBits]
  else window.digits

/-- A digit of the private alphabet. -/
def escapeDigit (digit : ℕ) : UInt16 := UInt16.ofNat (escapeDigitBase + digit)

/-- `ProjectBytes`. -/
def projectBytes (input : Bytes) : WString :=
  escapePrefix ++ escapeDigit input.length :: (packedDigits input).map escapeDigit

/-- One digit of the unpacking loop. -/
def unpackDigit (outputLength : ℕ) (window : Window) (digit : ℕ) : Window :=
  (window.push escapeDigitBits digit).drain 8 (outputLength - window.digits.length)

/-- The loop of `UnprojectBytes` over its digits. -/
def unpackDigits (outputLength : ℕ) (digits : List ℕ) : Window :=
  digits.foldl (unpackDigit outputLength) ⟨0, 0, []⟩

/-- `UnprojectBytes`. -/
def unprojectBytes (input : WString) : Option Bytes :=
  if input.take escapePrefix.length ≠ escapePrefix ∨ input.length ≤ escapePrefix.length then none
  else
    let lengthDigit := (input.getD escapePrefix.length 0).toNat
    if lengthDigit ≤ escapeDigitBase ∨ escapeDigitBase + maxApfsNameBytes < lengthDigit then none
    else
      let outputLength := lengthDigit - escapeDigitBase
      let expectedDigits := (outputLength * 8 + escapeDigitBits - 1) / escapeDigitBits
      if input.length ≠ escapePrefix.length + 1 + expectedDigits then none
      else
        let units := input.drop (escapePrefix.length + 1)
        if ∃ ch ∈ units, ch.toNat < escapeDigitBase ∨ escapeDigitBase + escapeDigitMask < ch.toNat
        then none
        else
          let window := unpackDigits outputLength (units.map fun ch => ch.toNat - escapeDigitBase)
          if window.digits.length = outputLength ∧ window.bits = 0 then
            some (window.digits.map UInt8.ofNat)
          else none

/-! ### The packing is undone -/

/-- The bytes of a buffer as digits. -/
theorem packByte_regroups {window : Window} {consumed : List ℕ}
    (h : Regroups 8 escapeDigitBits window consumed) (item : UInt8) :
    Regroups 8 escapeDigitBits (packByte window item) (consumed ++ [item.toNat]) ∧
      (packByte window item).bitCount < escapeDigitBits := by
  have hpushed : Regroups 8 escapeDigitBits (window.push 8 item.toNat)
      (consumed ++ [item.toNat]) := h.push item.toNat_lt
  have hdrained := hpushed.drain (window.push 8 item.toNat).bitCount
  refine ⟨hdrained, ?_⟩
  rcases bitCount_drain_lt escapeDigitBits (window.push 8 item.toNat).bitCount
    (window.push 8 item.toNat) with hlt | hroom
  · exact hlt
  -- draining once for every bit would have drained more bits than there are
  · have hwidth := hdrained.width
    have hbefore := hpushed.width
    have hdigits : (window.push 8 item.toNat).digits.length = window.digits.length := rfl
    rw [hroom, ← hbefore] at hwidth
    simp only [escapeDigitBits] at hwidth ⊢
    show (Window.drain 14 _ _).bitCount < 14
    omega

theorem foldl_packByte_regroups (input : Bytes) :
    Regroups 8 escapeDigitBits (input.foldl packByte ⟨0, 0, []⟩) (input.map UInt8.toNat) ∧
      (input.foldl packByte ⟨0, 0, []⟩).bitCount < escapeDigitBits := by
  induction input using List.reverseRecOn with
  | nil => exact ⟨Regroups.start 8 escapeDigitBits, by decide⟩
  | append_singleton input item ih =>
    rw [List.foldl_append, List.map_append]
    exact packByte_regroups ih.1 item

/-- **What the digits of a projection are**: the number of the bytes shifted up to a whole
number of digits. -/
theorem packedDigits_spec (input : Bytes) :
    ∃ pad, pad < escapeDigitBits ∧ (∀ digit ∈ packedDigits input, digit < 2 ^ escapeDigitBits) ∧
      beValue (2 ^ escapeDigitBits) (packedDigits input) =
        beValue (2 ^ 8) (input.map UInt8.toNat) * 2 ^ pad ∧
      escapeDigitBits * (packedDigits input).length = 8 * input.length + pad := by
  obtain ⟨h, hcount⟩ := foldl_packByte_regroups input
  have hwidth := h.width
  rw [List.length_map] at hwidth
  unfold packedDigits
  simp only
  split
  · rename_i hne
    have hlt : (input.foldl packByte ⟨0, 0, []⟩).bits *
        2 ^ (escapeDigitBits - (input.foldl packByte ⟨0, 0, []⟩).bitCount) <
          2 ^ escapeDigitBits := by
      calc (input.foldl packByte ⟨0, 0, []⟩).bits *
            2 ^ (escapeDigitBits - (input.foldl packByte ⟨0, 0, []⟩).bitCount)
          < 2 ^ (input.foldl packByte ⟨0, 0, []⟩).bitCount *
            2 ^ (escapeDigitBits - (input.foldl packByte ⟨0, 0, []⟩).bitCount) :=
            Nat.mul_lt_mul_of_pos_right h.bits_lt (by positivity)
        _ = 2 ^ escapeDigitBits := by
            rw [← pow_add]
            congr 1
            omega
    refine ⟨escapeDigitBits - (input.foldl packByte ⟨0, 0, []⟩).bitCount, by omega, ?_, ?_, ?_⟩
    · intro digit hmem
      rcases List.mem_append.mp hmem with hold | hnew
      · exact h.digits_lt digit hold
      · rw [List.mem_singleton.mp hnew]
        exact Nat.mod_lt _ (by decide)
    · rw [beValue_concat, Nat.mod_eq_of_lt hlt, ← h.value, Nat.add_mul, Nat.mul_assoc, ← pow_add,
        show (input.foldl packByte ⟨0, 0, []⟩).bitCount +
          (escapeDigitBits - (input.foldl packByte ⟨0, 0, []⟩).bitCount) = escapeDigitBits by omega]
    · rw [List.length_append, List.length_singleton]
      simp only [escapeDigitBits] at *
      omega
  · rename_i hzero
    simp only [not_not] at hzero
    have hbits := h.bits_lt
    have hvalue := h.value
    rw [hzero, pow_zero] at hbits hvalue
    refine ⟨0, by decide, h.digits_lt, by rw [← hvalue]; omega, by omega⟩

theorem unpackDigits_regroups (outputLength : ℕ) {digits : List ℕ}
    (hdigits : ∀ digit ∈ digits, digit < 2 ^ escapeDigitBits) :
    Regroups escapeDigitBits 8 (unpackDigits outputLength digits) digits ∧
      (unpackDigits outputLength digits).digits.length ≤ outputLength ∧
      ((unpackDigits outputLength digits).bitCount < 8 ∨
        (unpackDigits outputLength digits).digits.length = outputLength) := by
  induction digits using List.reverseRecOn with
  | nil => exact ⟨Regroups.start escapeDigitBits 8, Nat.zero_le _, .inl (Nat.zero_lt_succ _)⟩
  | append_singleton digits digit ih =>
    obtain ⟨hregroups, hle, -⟩ := ih fun d hd => hdigits d (by simp [hd])
    have hstep : unpackDigits outputLength (digits ++ [digit]) =
        unpackDigit outputLength (unpackDigits outputLength digits) digit := by
      rw [unpackDigits, List.foldl_append]
      rfl
    rw [hstep]
    refine ⟨(hregroups.push (hdigits digit (by simp))).drain _, ?_, ?_⟩
    · refine (length_digits_drain_le 8 _ _).trans ?_
      show (unpackDigits outputLength digits).digits.length + _ ≤ _
      omega
    · refine (bitCount_drain_lt 8 _ _).imp_right fun hlength => hlength.trans ?_
      show (unpackDigits outputLength digits).digits.length + _ = _
      omega

/-- **The digits of a projection are unpacked to the bytes again.** -/
theorem unpackDigits_packedDigits (input : Bytes) :
    (unpackDigits input.length (packedDigits input)).digits = input.map UInt8.toNat ∧
      (unpackDigits input.length (packedDigits input)).bits = 0 := by
  obtain ⟨pad, -, hdigits, hvalue, hwidth⟩ := packedDigits_spec input
  obtain ⟨hregroups, hle, hstop⟩ :=
    unpackDigits_regroups input.length hdigits
  refine hregroups.unpad (by rwa [List.length_map]) (by rwa [List.length_map]) ?_
    hvalue (by rwa [List.length_map])
  intro digit hmem
  obtain ⟨byte, -, rfl⟩ := List.mem_map.mp hmem
  exact byte.toNat_lt

theorem length_packedDigits (input : Bytes) :
    (packedDigits input).length =
      (input.length * 8 + escapeDigitBits - 1) / escapeDigitBits := by
  obtain ⟨pad, hpad, -, -, hwidth⟩ := packedDigits_spec input
  simp only [escapeDigitBits] at *
  omega

theorem toNat_escapeDigit {digit : ℕ} (h : digit < 2 ^ escapeDigitBits) :
    (escapeDigit digit).toNat = escapeDigitBase + digit := by
  refine toNat_ofNat16_of_lt ?_
  simp only [escapeDigitBits, escapeDigitBase] at *
  omega

/-- A projected name starts with the escape prefix. -/
theorem take_projectBytes (input : Bytes) :
    (projectBytes input).take escapePrefix.length = escapePrefix := List.take_left

/-- **A projected name gives its bytes back.** -/
theorem unprojectBytes_projectBytes {input : Bytes} (hpos : input ≠ [])
    (hlength : input.length ≤ maxApfsNameBytes) :
    unprojectBytes (projectBytes input) = some input := by
  have hone : 1 ≤ input.length := List.length_pos_of_ne_nil hpos
  have hfirst : (escapeDigit input.length).toNat = escapeDigitBase + input.length :=
    toNat_escapeDigit (by simp only [maxApfsNameBytes, escapeDigitBits] at *; omega)
  obtain ⟨-, -, hdigits, -, -⟩ := packedDigits_spec input
  have hunits : ((packedDigits input).map escapeDigit).map (fun ch => ch.toNat - escapeDigitBase) =
      packedDigits input := by
    rw [List.map_map]
    conv_rhs => rw [← List.map_id (packedDigits input)]
    refine List.map_congr_left fun digit hmem => ?_
    rw [Function.comp_apply, toNat_escapeDigit (hdigits digit hmem), Nat.add_sub_cancel_left]
    rfl
  have hrange : ¬∃ ch ∈ (packedDigits input).map escapeDigit,
      ch.toNat < escapeDigitBase ∨ escapeDigitBase + escapeDigitMask < ch.toNat := by
    rintro ⟨ch, hmem, hbad⟩
    obtain ⟨digit, hdigit, rfl⟩ := List.mem_map.mp hmem
    have hlt := hdigits digit hdigit
    rw [toNat_escapeDigit hlt] at hbad
    simp only [escapeDigitMask, escapeDigitBits] at *
    omega
  obtain ⟨hbytes, hbits⟩ := unpackDigits_packedDigits input
  have hget : (projectBytes input).getD escapePrefix.length 0 = escapeDigit input.length := by
    rw [projectBytes, List.getD_append_right _ _ _ _ (le_refl _), Nat.sub_self]
    rfl
  have hdrop : (projectBytes input).drop (escapePrefix.length + 1) =
      (packedDigits input).map escapeDigit := by
    rw [projectBytes, ← List.drop_drop, List.drop_left]
    rfl
  have hsize : (projectBytes input).length =
      escapePrefix.length + 1 + (packedDigits input).length := by
    rw [projectBytes, List.length_append, List.length_cons, List.length_map]
    omega
  unfold unprojectBytes
  rw [if_neg (by rw [take_projectBytes, hsize]; simp only [ne_eq, not_true_eq_false, false_or]; omega)]
  simp only [hget, hfirst, hdrop, hunits, Nat.add_sub_cancel_left]
  rw [if_neg (by simp only [maxApfsNameBytes] at *; omega),
    if_neg (by rw [hsize, length_packedDigits]; simp), if_neg hrange,
    if_pos ⟨by rw [hbytes, List.length_map], hbits⟩, hbytes, List.map_map]
  refine congrArg some ((List.map_congr_left fun byte _ => ?_).trans (List.map_id input))
  exact UInt8.ofNat_toNat

theorem startsWithEscapePrefix_projectBytes (input : Bytes) :
    startsWithEscapePrefixInsensitive (projectBytes input) = true := by
  have hupper : escapePrefix.map upperUnit = escapePrefix := by decide
  rw [startsWithEscapePrefixInsensitive, take_projectBytes, hupper]
  simp [projectBytes]

end Names
end ApfsAccess
