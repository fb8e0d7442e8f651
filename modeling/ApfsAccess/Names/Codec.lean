import ApfsAccess.Names.Normalization

/-!
# The name codec

`Decode` turns the UTF-8 name of a directory record into what Windows is shown, the key
it is looked up by and the hash of that key; `EncodeWindowsName` turns a Windows name back
into the UTF-8 name.  Which names decode does not depend on the policy of the volume
(`Decodable`, `decode_spec`, `decode_of_decodable`), and neither does what Windows is
shown, so the two functions are inverse to each other on every volume
(`name_projection_bijective`).
-/

namespace ApfsAccess
namespace Names

open Format

/-- `ApfsCaseMode`. -/
inductive ApfsCaseMode where
  | sensitive
  | insensitive
  deriving DecidableEq, Repr

/-- `ApfsNormalizationMode`. -/
inductive ApfsNormalizationMode where
  | sensitive
  | insensitive
  deriving DecidableEq, Repr

/-- `ApfsNamePolicy`. -/
structure ApfsNamePolicy where
  caseMode : ApfsCaseMode := .sensitive
  normalizationMode : ApfsNormalizationMode := .sensitive
  deriving DecidableEq, Repr

/-- `ApfsNamePolicy::FromIncompatibleFeatures`. -/
def ApfsNamePolicy.fromIncompatibleFeatures (incompatibleFeatures : ℕ) : ApfsNamePolicy :=
  if incompatibleFeatures &&& 0x1 ≠ 0 then ⟨.insensitive, .insensitive⟩
  else if incompatibleFeatures &&& 0x8 ≠ 0 then ⟨.sensitive, .insensitive⟩
  else {}

/-- `ApfsNamePolicy::UsesHashedDirectoryKeys`. -/
def ApfsNamePolicy.usesHashedDirectoryKeys (policy : ApfsNamePolicy) : Bool :=
  policy.normalizationMode == .insensitive

/-- `ApfsNameError`. -/
inductive ApfsNameError where
  | invalidUtf8
  | unassignedCodePoint
  | invalidApfsName
  | nameTooLong
  | invalidWindowsName
  | ambiguousWindowsName
  | normalizationFailure
  deriving DecidableEq, Repr

/-- `ApfsNameResult`: a value, or an error with its detail. -/
abbrev ApfsNameResult (α : Type) := Except (ApfsNameError × String) α

/-- `ApfsName`. -/
structure ApfsName where
  originalUtf8 : Bytes
  windowsDisplay : WString
  lookupKey : Bytes
  directoryHash : Option UInt32
  deriving DecidableEq, Repr

/-- `MapUtf8ProcError`. -/
def mapUtf8ProcError : MapError → ApfsNameError
  | .notAssigned => .unassignedCodePoint
  | .invalidUtf8 => .invalidUtf8
  | .overflow => .normalizationFailure

/-- The eight shifts of one byte of the directory checksum. -/
def crc32cByte (crc : UInt32) : UInt32 :=
  (List.range 8).foldl
    (fun crc _ => (crc >>> 1) ^^^ (if crc &&& 1 ≠ 0 then 0x82f63b78 else 0)) crc

/-- `Crc32cScalar`. -/
def crc32cScalar (crc scalar : UInt32) : UInt32 :=
  ([0, 8, 16, 24] : List UInt32).foldl
    (fun crc shift => crc32cByte (crc ^^^ ((scalar >>> shift) &&& 0xff))) crc

/-- `DirectoryHash`. -/
def directoryHash (normalizedUtf8 : Bytes) : Except Unit UInt32 :=
  match foldCodePoints () (fun crc codePoint => .ok (crc32cScalar crc (UInt32.ofNat codePoint)))
      (0xffffffff : UInt32) normalizedUtf8 with
  | .error error => .error error
  | .ok crc => .ok (crc &&& 0x3fffff)

/-- The buffer that is mapped: the name, with its full folds expanded when case is ignored. -/
def mapInput (policy : ApfsNamePolicy) (utf8 : Bytes) : Except Unit Bytes :=
  match policy.caseMode with
  | .insensitive => expandUnicode9FullFolds utf8
  | .sensitive => .ok utf8

/-- The options of the mapping. -/
def ApfsNamePolicy.mapOptions (policy : ApfsNamePolicy) : MapOptions where
  decompose := policy.normalizationMode == .insensitive
  casefold := policy.caseMode == .insensitive

/-- What `Decode` returns once the name has been mapped and converted. -/
def decodedName (policy : ApfsNamePolicy) (utf8 mapped : Bytes) (wideName : WString) :
    ApfsNameResult ApfsName :=
  let lookupKey := if policy.normalizationMode = .sensitive then utf8 else mapped
  let windowsDisplay := if isLiteralWindowsName wideName then wideName else projectBytes utf8
  if policy.usesHashedDirectoryKeys then
    match directoryHash lookupKey with
    | .error _ => .error (.normalizationFailure, "normalized APFS name could not be hashed")
    | .ok hash => .ok ⟨utf8, windowsDisplay, lookupKey, some hash⟩
  else .ok ⟨utf8, windowsDisplay, lookupKey, none⟩

/-- `ApfsNameCodec::Decode`. -/
def decode (data : UnicodeData) (utf8 : Bytes) (policy : ApfsNamePolicy) :
    ApfsNameResult ApfsName :=
  if utf8 = [] then .error (.invalidApfsName, "APFS names cannot be empty")
  else if maxApfsNameBytes < utf8.length then
    .error (.nameTooLong, "APFS names are limited to 255 bytes")
  else if 0 ∈ utf8 ∨ 0x2F ∈ utf8 then
    .error (.invalidApfsName, "APFS names cannot contain NUL or slash")
  else if utf8 = [0x2E] ∨ utf8 = [0x2E, 0x2E] then
    .error (.invalidApfsName, "dot components are not file names")
  else
    match mapInput policy utf8 with
    | .error _ => .error (.invalidUtf8, "invalid UTF-8 file name")
    | .ok input =>
      match utf8procMap data policy.mapOptions input with
      | .error error => .error (mapUtf8ProcError error, error.message)
      | .ok mapped =>
        match utf8ToWide utf8 with
        | .error _ => .error (.invalidUtf8, "invalid UTF-8 file name")
        | .ok wideName => decodedName policy utf8 mapped wideName

/-- The branch of `EncodeWindowsName` for a name that starts with the escape prefix. -/
def encodeEscapedName (data : UnicodeData) (name : WString) : ApfsNameResult Bytes :=
  if name.take escapePrefix.length ≠ escapePrefix then
    .error (.ambiguousWindowsName, "escape prefix must use its canonical spelling")
  else
    match unprojectBytes name with
    | none => .error (.ambiguousWindowsName, "malformed APFS Windows-name escape")
    | some raw =>
      match decode data raw (ApfsNamePolicy.fromIncompatibleFeatures 0) with
      | .error _ => .error (.ambiguousWindowsName, "non-canonical APFS Windows-name escape")
      | .ok decoded =>
        if decoded.windowsDisplay ≠ name then
          .error (.ambiguousWindowsName, "non-canonical APFS Windows-name escape")
        else .ok decoded.originalUtf8

/-- `ApfsNameCodec::EncodeWindowsName`. -/
def encodeWindowsName (data : UnicodeData) (name : WString) : ApfsNameResult Bytes :=
  if startsWithEscapePrefixInsensitive name then encodeEscapedName data name
  else
    match wideToUtf8 name with
    | none => .error (.invalidWindowsName, "invalid UTF-16 file name")
    | some utf8 =>
      match decode data utf8 (ApfsNamePolicy.fromIncompatibleFeatures 0) with
      | .error error => .error error
      | .ok decoded =>
        if decoded.windowsDisplay ≠ name then
          .error (.ambiguousWindowsName,
            "Windows-only spelling is not the canonical APFS projection")
        else .ok utf8

/-! ## Which names decode -/

/-- A name that decodes on every volume: not empty, not too long, no forbidden byte, no dot
component, and the spelling of assigned scalar values. -/
structure Decodable (data : UnicodeData) (utf8 : Bytes) : Prop where
  ne_nil : utf8 ≠ []
  length_le : utf8.length ≤ maxApfsNameBytes
  allowed : ¬(0 ∈ utf8 ∨ 0x2F ∈ utf8)
  no_dots : ¬(utf8 = [0x2E] ∨ utf8 = [0x2E, 0x2E])
  spells : ∃ codePoints : List ℕ, (∀ codePoint ∈ codePoints, codepointValid codePoint) ∧
    utf8 = encodeAll codePoints ∧ ∀ codePoint ∈ codePoints, data.category codePoint ≠ 0

/-- What Windows is shown for a name. -/
def windowsDisplayOf (utf8 : Bytes) : WString :=
  match utf8ToWide utf8 with
  | .error _ => []
  | .ok wideName => if isLiteralWindowsName wideName then wideName else projectBytes utf8

section Decode

variable {data : UnicodeData}

/-- The code points of a name are assigned when those of the mapped buffer are. -/
theorem assigned_of_mapInput {policy : ApfsNamePolicy} {utf8 input mapped : Bytes}
    (hinput : mapInput policy utf8 = .ok input)
    (hmap : utf8procMap data policy.mapOptions input = .ok mapped) :
    ∃ codePoints : List ℕ, (∀ codePoint ∈ codePoints, codepointValid codePoint) ∧
      utf8 = encodeAll codePoints ∧ ∀ codePoint ∈ codePoints, data.category codePoint ≠ 0 := by
  obtain ⟨read, hread, rfl, hassigned⟩ := assigned_of_utf8procMap hmap
  unfold mapInput at hinput
  split at hinput
  · obtain ⟨codePoints, hscalars, rfl⟩ := encodeAll_of_foldCodePoints hinput
    rw [expandUnicode9FullFolds_encodeAll hscalars] at hinput
    have hsame : codePoints.flatMap fullFold = read := by
      refine encodeAll_injective (fun mapped hmem => ?_) hread (Except.ok.inj hinput)
      obtain ⟨codePoint, hcodePoint, hmapped⟩ := List.mem_flatMap.mp hmem
      exact codepointValid_of_mem_fullFold (hscalars codePoint hcodePoint) hmapped
    refine ⟨codePoints, hscalars, rfl, fun codePoint hmem => ?_⟩
    -- a code point with an override is assigned by the tables, any other stands in the buffer
    cases hoverride : fullFoldOverride codePoint with
    | some entry =>
      obtain ⟨hentry, hsource⟩ := mem_of_fullFoldOverride hoverride
      rw [← hsource]
      exact (data.override_assigned hentry).1
    | none =>
      refine hassigned codePoint ?_
      rw [← hsame]
      refine List.mem_flatMap.mpr ⟨codePoint, hmem, ?_⟩
      rw [fullFold, hoverride]
      exact List.mem_singleton_self codePoint
  · exact ⟨read, hread, Except.ok.inj hinput, hassigned⟩

/-- The mapped buffer of assigned code points is the spelling of assigned code points. -/
theorem mapInput_of_assigned (policy : ApfsNamePolicy) {codePoints : List ℕ}
    (hscalars : ∀ codePoint ∈ codePoints, codepointValid codePoint)
    (hassigned : ∀ codePoint ∈ codePoints, data.category codePoint ≠ 0) :
    ∃ read : List ℕ, mapInput policy (encodeAll codePoints) = .ok (encodeAll read) ∧
      (∀ codePoint ∈ read, codepointValid codePoint) ∧
      ∀ codePoint ∈ read, data.category codePoint ≠ 0 := by
  unfold mapInput
  split
  · refine ⟨codePoints.flatMap fullFold, expandUnicode9FullFolds_encodeAll hscalars,
      fun mapped hmem => ?_, fun mapped hmem => ?_⟩
    · obtain ⟨codePoint, hcodePoint, hmapped⟩ := List.mem_flatMap.mp hmem
      exact codepointValid_of_mem_fullFold (hscalars codePoint hcodePoint) hmapped
    · obtain ⟨codePoint, hcodePoint, hmapped⟩ := List.mem_flatMap.mp hmem
      unfold fullFold at hmapped
      split at hmapped
      · rw [List.mem_singleton.mp hmapped]
        exact hassigned codePoint hcodePoint
      · rename_i entry hentry
        obtain ⟨-, hfirst, hsecond⟩ :=
          data.override_assigned (mem_of_fullFoldOverride hentry).1
        simp only [List.mem_cons, List.not_mem_nil, or_false] at hmapped
        rcases hmapped with rfl | rfl
        · exact hfirst
        · exact hsecond
  · exact ⟨codePoints, rfl, hscalars, hassigned⟩

/-- What a decoded name holds, whatever the policy. -/
theorem decodedName_spec {policy : ApfsNamePolicy} {utf8 mapped : Bytes} {wideName : WString}
    {name : ApfsName} (h : decodedName policy utf8 mapped wideName = .ok name) :
    name.originalUtf8 = utf8 ∧ name.windowsDisplay =
      if isLiteralWindowsName wideName then wideName else projectBytes utf8 := by
  unfold decodedName at h
  simp only at h
  split at h
  · split at h
    · cases h
    · obtain rfl := Except.ok.inj h
      exact ⟨rfl, rfl⟩
  · obtain rfl := Except.ok.inj h
    exact ⟨rfl, rfl⟩

/-- **A name that decodes is decodable**, and what it shows depends on its bytes alone. -/
theorem decode_spec {policy : ApfsNamePolicy} {utf8 : Bytes} {name : ApfsName}
    (h : decode data utf8 policy = .ok name) :
    Decodable data utf8 ∧ name.originalUtf8 = utf8 ∧
      name.windowsDisplay = windowsDisplayOf utf8 := by
  unfold decode at h
  split at h
  · cases h
  rename_i hne
  split at h
  · cases h
  rename_i hlength
  split at h
  · cases h
  rename_i hallowed
  split at h
  · cases h
  rename_i hdots
  split at h
  · cases h
  rename_i input hinput
  split at h
  · cases h
  rename_i mapped hmap
  split at h
  · cases h
  rename_i wideName hwide
  obtain ⟨horiginal, hdisplay⟩ := decodedName_spec h
  refine ⟨⟨hne, not_lt.mp hlength, hallowed, hdots, assigned_of_mapInput hinput hmap⟩,
    horiginal, ?_⟩
  rw [hdisplay, windowsDisplayOf, hwide]

/-- A key that spells scalar values is hashed. -/
theorem directoryHash_encodeAll {codePoints : List ℕ}
    (h : ∀ codePoint ∈ codePoints, codepointValid codePoint) :
    ∃ hash, directoryHash (encodeAll codePoints) = .ok hash := by
  have hgo : ∀ crc : UInt32, ∃ result, codePoints.foldlM (m := Except Unit)
      (fun crc codePoint => .ok (crc32cScalar crc (UInt32.ofNat codePoint))) crc = .ok result := by
    clear h
    induction codePoints with
    | nil => exact fun crc => ⟨crc, rfl⟩
    | cons codePoint codePoints ih =>
      exact fun crc => ih (crc32cScalar crc (UInt32.ofNat codePoint))
  obtain ⟨result, hresult⟩ := hgo 0xffffffff
  exact ⟨result &&& 0x3fffff, by rw [directoryHash, foldCodePoints_encodeAll h, hresult]⟩

/-- **A decodable name decodes on every volume.** -/
theorem decode_of_decodable {utf8 : Bytes} (h : Decodable data utf8) (policy : ApfsNamePolicy) :
    ∃ name, decode data utf8 policy = .ok name := by
  obtain ⟨codePoints, hscalars, rfl, hassigned⟩ := h.spells
  obtain ⟨read, hread, hreadScalars, hreadAssigned⟩ :=
    mapInput_of_assigned policy hscalars hassigned
  obtain ⟨written, hwritten, hmap⟩ :=
    utf8procMap_of_assigned policy.mapOptions hreadScalars hreadAssigned
  have hdecode : decode data (encodeAll codePoints) policy =
      decodedName policy (encodeAll codePoints) (encodeAll written)
        (codePoints.flatMap wideUnits) := by
    rw [decode, if_neg h.ne_nil, if_neg (not_lt.mpr h.length_le), if_neg h.allowed,
      if_neg h.no_dots, hread]
    simp only
    rw [hmap]
    simp only
    rw [utf8ToWide_encodeAll hscalars]
  rw [hdecode, decodedName]
  split
  · by_cases hmode : policy.normalizationMode = .sensitive
    · rw [if_pos hmode]
      obtain ⟨hash, hhash⟩ := directoryHash_encodeAll hscalars
      exact ⟨_, by rw [hhash]⟩
    · rw [if_neg hmode]
      obtain ⟨hash, hhash⟩ := directoryHash_encodeAll hwritten
      exact ⟨_, by rw [hhash]⟩
  · exact ⟨_, rfl⟩

end Decode

/-! ## The two directions -/

section RoundTrip

variable {data : UnicodeData}

/-- **What Windows is shown for a name is encoded to the name.** -/
theorem encodeWindowsName_windowsDisplayOf {utf8 : Bytes} (h : Decodable data utf8) :
    encodeWindowsName data (windowsDisplayOf utf8) = .ok utf8 := by
  obtain ⟨name, hdecode⟩ := decode_of_decodable h (ApfsNamePolicy.fromIncompatibleFeatures 0)
  obtain ⟨-, horiginal, hdisplay⟩ := decode_spec hdecode
  obtain ⟨codePoints, hscalars, hspells, -⟩ := h.spells
  have hwide : utf8ToWide utf8 = .ok (codePoints.flatMap wideUnits) := by
    rw [hspells]
    exact utf8ToWide_encodeAll hscalars
  by_cases hliteral : isLiteralWindowsName (codePoints.flatMap wideUnits) = true
  · have hshown : windowsDisplayOf utf8 = codePoints.flatMap wideUnits := by
      rw [windowsDisplayOf, hwide]
      exact if_pos hliteral
    rw [encodeWindowsName, hshown, not_startsWithEscapePrefix_of_literal hliteral,
      wideToUtf8_of_utf8ToWide hwide]
    simp only [Bool.false_eq_true, if_false, hdecode]
    rw [if_neg (not_not.mpr (hdisplay.trans hshown))]
  · have hshown : windowsDisplayOf utf8 = projectBytes utf8 := by
      rw [windowsDisplayOf, hwide]
      exact if_neg hliteral
    rw [encodeWindowsName, hshown, startsWithEscapePrefix_projectBytes, if_pos rfl,
      encodeEscapedName, if_neg (not_not.mpr (take_projectBytes utf8)),
      unprojectBytes_projectBytes h.ne_nil h.length_le]
    simp only [hdecode]
    rw [if_neg (not_not.mpr (hdisplay.trans hshown)), horiginal]

/-- **A Windows name that is encoded is what Windows is shown for its bytes.** -/
theorem decode_of_encodeWindowsName {name : WString} {utf8 : Bytes}
    (h : encodeWindowsName data name = .ok utf8) :
    Decodable data utf8 ∧ windowsDisplayOf utf8 = name := by
  unfold encodeWindowsName at h
  split at h
  · unfold encodeEscapedName at h
    split at h
    · cases h
    split at h
    · cases h
    split at h
    · cases h
    rename_i decoded hdecode
    obtain ⟨hdecodable, horiginal, hdisplay⟩ := decode_spec hdecode
    split at h
    · cases h
    rename_i hshown
    rw [← Except.ok.inj h, horiginal]
    exact ⟨hdecodable, hdisplay.symm.trans (not_not.mp hshown)⟩
  · split at h
    · cases h
    split at h
    · cases h
    rename_i decoded hdecode
    obtain ⟨hdecodable, -, hdisplay⟩ := decode_spec hdecode
    split at h
    · cases h
    rename_i hshown
    rw [← Except.ok.inj h]
    exact ⟨hdecodable, hdisplay.symm.trans (not_not.mp hshown)⟩

end RoundTrip

/-- **The projection of names is a bijection onto its image.**  Whatever the policies, the
Windows name of a decoded name is encoded to the original bytes, so that different names
never share one; and a Windows name that is encoded is shown again for the bytes it gave. -/
theorem name_projection_bijective (data : UnicodeData) :
    (∀ (utf8 : Bytes) (policy : ApfsNamePolicy) (name : ApfsName),
      decode data utf8 policy = .ok name →
        encodeWindowsName data name.windowsDisplay = .ok utf8) ∧
    (∀ (first second : Bytes) (policy policy' : ApfsNamePolicy) (name name' : ApfsName),
      decode data first policy = .ok name → decode data second policy' = .ok name' →
        name.windowsDisplay = name'.windowsDisplay → first = second) ∧
    ∀ (windowsName : WString) (utf8 : Bytes), encodeWindowsName data windowsName = .ok utf8 →
      ∀ policy : ApfsNamePolicy, ∃ name, decode data utf8 policy = .ok name ∧
        name.windowsDisplay = windowsName := by
  have hback : ∀ (utf8 : Bytes) (policy : ApfsNamePolicy) (name : ApfsName),
      decode data utf8 policy = .ok name →
        encodeWindowsName data name.windowsDisplay = .ok utf8 := by
    intro utf8 policy name h
    obtain ⟨hdecodable, -, hdisplay⟩ := decode_spec h
    rw [hdisplay]
    exact encodeWindowsName_windowsDisplayOf hdecodable
  refine ⟨hback, ?_, ?_⟩
  · intro first second policy policy' name name' h h' hsame
    have hfirst := hback first policy name h
    rw [hsame, hback second policy' name' h'] at hfirst
    exact (Except.ok.inj hfirst).symm
  · intro windowsName utf8 h policy
    obtain ⟨hdecodable, hshown⟩ := decode_of_encodeWindowsName h
    obtain ⟨name, hdecode⟩ := decode_of_decodable hdecodable policy
    obtain ⟨-, -, hdisplay⟩ := decode_spec hdecode
    exact ⟨name, hdecode, hdisplay.trans hshown⟩

/-- Character data that agrees with the library's on small Latin letters and the colon. -/
def latinData : UnicodeData where
  category codePoint :=
    if 0x61 ≤ codePoint ∧ codePoint ≤ 0x7A then 2 else if codePoint = 0x3A then 18 else 5
  combiningClass _ := 0
  casefold _ := none
  decomposition _ := none
  depth _ := 0
  casefold_depth := by
    intro codePoint entries entry h
    cases h
  decomposition_depth := by
    intro codePoint entries entry h
    cases h
  casefold_entry := by
    intro codePoint entries entry h
    cases h
  decomposition_entry := by
    intro codePoint entries entry h
    cases h
  hangul_assigned := by
    intro codePoint _
    split
    · decide
    · split <;> decide
  override_assigned := by
    intro entry hmem
    revert entry
    decide

/-- The name `a:b`, which is not a legal Windows name, on a volume that ignores case. -/
theorem name_projection_bijective_colon :
    ∃ name, decode latinData [0x61, 0x3A, 0x62] ⟨.insensitive, .insensitive⟩ = .ok name ∧
      encodeWindowsName latinData name.windowsDisplay = .ok [0x61, 0x3A, 0x62] ∧
      ∃ shown, decode latinData [0x61, 0x3A, 0x62] ⟨.sensitive, .sensitive⟩ = .ok shown ∧
        shown.windowsDisplay = name.windowsDisplay := by
  have hdecodable : Decodable latinData [0x61, 0x3A, 0x62] :=
    ⟨by decide, by decide, by decide, by decide, [0x61, 0x3A, 0x62], by decide, by decide,
      by decide⟩
  obtain ⟨name, hdecode⟩ := decode_of_decodable hdecodable ⟨.insensitive, .insensitive⟩
  obtain ⟨hback, -, hforth⟩ := name_projection_bijective latinData
  have hencode := hback _ _ _ hdecode
  exact ⟨name, hdecode, hencode, hforth _ _ hencode ⟨.sensitive, .sensitive⟩⟩

end Names
end ApfsAccess
