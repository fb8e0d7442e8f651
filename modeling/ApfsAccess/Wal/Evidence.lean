import ApfsAccess.Wal.AnyOperation

/-!
# The bounded reader of evidence

`ReadAllEvidenceFromHeldHandle` counts the frames first, in windows of 64 KiB that skip the payloads,
and budgets the records before it decodes them.

* `countEvidenceFrames_eq` : the windows count what a walk over the bytes counts.
* `evidence_refines` : the reader succeeds exactly where the limits admit the log and the plain decoder
  takes all of it, and then returns the same records.
-/

namespace ApfsAccess
namespace Wal

open ByteBuffer Format

/-! ## The limits -/

/-- `EvidenceInputSizeFits`. -/
def evidenceInputSizeFits (size : UInt64) (limits : WalReadLimits) (allocation : UInt64) : Bool :=
  limits.bytes != 2 ^ 64 - 1 && limits.records != 2 ^ 64 - 1 && allocation != 0xffffffffffffffff &&
    decide (size.toNat ≤ limits.bytes) && decide (size.toNat ≤ maxRecordBytes) &&
    decide (size ≤ allocation / 4)

/-- `EvidenceSizeFits`; `recordBytes` is the size of a `Record`. -/
def evidenceSizeFits (recordBytes size : UInt64) (records : ℕ) (limits : WalReadLimits)
    (allocation : UInt64) : Bool :=
  evidenceInputSizeFits size limits allocation && decide (records ≤ limits.records) &&
    decide (records ≤ ((allocation - size * 4) / (recordBytes + 4)).toNat)

section Limits

variable {recordBytes size allocation : UInt64} {limits : WalReadLimits}

theorem input_of_sizeFits {records : ℕ}
    (h : evidenceSizeFits recordBytes size records limits allocation = true) :
    evidenceInputSizeFits size limits allocation = true := by
  simp only [evidenceSizeFits, Bool.and_eq_true] at h
  exact h.1.1

theorem records_le_of_sizeFits {records : ℕ}
    (h : evidenceSizeFits recordBytes size records limits allocation = true) :
    records ≤ limits.records := by
  simp only [evidenceSizeFits, Bool.and_eq_true, decide_eq_true_eq] at h
  exact h.1.2

/-- Fewer records fit as well. -/
theorem evidenceSizeFits_of_le {less records : ℕ} (hle : less ≤ records)
    (h : evidenceSizeFits recordBytes size records limits allocation = true) :
    evidenceSizeFits recordBytes size less limits allocation = true := by
  simp only [evidenceSizeFits, Bool.and_eq_true, decide_eq_true_eq] at h ⊢
  exact ⟨⟨h.1.1, hle.trans h.1.2⟩, hle.trans h.2⟩

/-- **The budget is never reduced below zero**: neither the product nor the difference wraps. -/
theorem budget_exact (h : evidenceInputSizeFits size limits allocation = true) :
    (size * 4).toNat = size.toNat * 4 ∧ size.toNat * 4 ≤ allocation.toNat ∧
      (allocation - size * 4).toNat = allocation.toNat - size.toNat * 4 := by
  simp only [evidenceInputSizeFits, Bool.and_eq_true, decide_eq_true_eq] at h
  have hquarter := UInt64.le_iff_toNat_le.mp h.2
  rw [UInt64.toNat_div] at hquarter
  change size.toNat ≤ allocation.toNat / 4 at hquarter
  have hbound : size.toNat * 4 ≤ allocation.toNat := by omega
  have hproduct : (size * 4).toNat = size.toNat * 4 := by
    rw [UInt64.toNat_mul]
    have hlt := allocation.toNat_lt
    exact Nat.mod_eq_of_lt (lt_of_le_of_lt hbound hlt)
  refine ⟨hproduct, hbound, ?_⟩
  rw [UInt64.toNat_sub_of_le, hproduct]
  rw [UInt64.le_iff_toNat_le, hproduct]
  exact hbound

end Limits

/-! ## The file and its windows -/

/-- The points where the reader compares the file with what it was. -/
inductive EvidencePhase where
  | counted
  | pinned
  | decoded
deriving DecidableEq, Repr

/-- A held handle: the bytes of the file, and which of the calls on it go through. -/
structure HeldFile where
  bytes : Bytes
  length_lt : bytes.length < 2 ^ 63
  /-- The checks before the size is taken. -/
  opened : Bool
  /-- The file pointer is read. -/
  positioned : Bool
  /-- The read of a window, by its position, fills it. -/
  reads : ℕ → Bool
  /-- The file pointer is put back. -/
  restored : Bool
  /-- `ReadPinnedIntentBytes`. -/
  pinned : Bool
  /-- `unchanged`. -/
  unchanged : EvidencePhase → Bool

/-- Every call goes through. -/
structure HeldFile.Calm (file : HeldFile) : Prop where
  opened : file.opened = true
  positioned : file.positioned = true
  reads : ∀ position, file.reads position = true
  restored : file.restored = true
  pinned : file.pinned = true
  unchanged : ∀ phase, file.unchanged phase = true

/-- The size of the file. -/
def HeldFile.size (file : HeldFile) : UInt64 := UInt64.ofNat file.bytes.length

theorem HeldFile.toNat_size (file : HeldFile) : file.size.toNat = file.bytes.length := by
  have hlt := file.length_lt
  rw [HeldFile.size, UInt64.toNat_ofNat']
  exact Nat.mod_eq_of_lt (by omega)

/-- `window`, `window_start` and `window_bytes`. -/
structure Window where
  start : ℕ
  bytes : Bytes

/-- The size of a window. -/
def windowSize : ℕ := 64 * 1024

/-- The window that holds the next header: the one that is there, or a new one from the cursor on. -/
def windowAt (file : HeldFile) (cursor : ℕ) (window : Window) : Except ReadStatus Window :=
  let remaining := file.bytes.length - cursor
  let needed := min remaining 12
  let offset := cursor - window.start
  if window.bytes.length < offset ∨ window.bytes.length - offset < needed then
    if file.reads cursor then .ok ⟨cursor, slice file.bytes cursor (min remaining windowSize)⟩
    else .error .ioError
  else .ok window

section Count

variable (fits : ℕ → Bool) (limits : WalReadLimits)

/-- The checks on one header, and the size of its frame. -/
def countFrame (header : Bytes) (remaining count : ℕ) : Except ReadStatus ℕ :=
  if startsProtectedWal header then .error .versionMismatch
  else if limits.records ≤ count then .error .resourceLimit
  else if remaining < legacyHeaderSize then .error .corrupt
  else
    match decodeWalFrameHeader header with
    | .error status => .error status
    | .ok frame =>
      if remaining < frame.bytes then .error .corrupt
      else if fits (count + 1) = false then .error .resourceLimit
      else .ok frame.bytes

/-- The loop of `CountEvidenceFrames`. -/
def countWindows (file : HeldFile) : ℕ → Window → ℕ → ℕ → Except ReadStatus ℕ
  | 0, _, _, count => .ok count
  | fuel + 1, window, cursor, count =>
    if cursor < file.bytes.length then
      match windowAt file cursor window with
      | .error status => .error status
      | .ok window =>
        let remaining := file.bytes.length - cursor
        match countFrame fits limits (slice window.bytes (cursor - window.start) (min remaining 12))
            remaining count with
        | .error status => .error status
        | .ok size => countWindows file fuel window (cursor + size) (count + 1)
    else .ok count

/-- The walk over the bytes themselves. -/
def countDirect : ℕ → Bytes → ℕ → Except ReadStatus ℕ
  | 0, _, count => .ok count
  | fuel + 1, rest, count =>
    if rest = [] then .ok count
    else
      match countFrame fits limits (rest.take 12) rest.length count with
      | .error status => .error status
      | .ok size => countDirect fuel (rest.drop size) (count + 1)

end Count

/-- `CountEvidenceFrames`. -/
def countEvidenceFrames (recordBytes : UInt64) (file : HeldFile) (limits : WalReadLimits)
    (allocation : UInt64) : Except ReadStatus ℕ :=
  if evidenceInputSizeFits file.size limits allocation = false then .error .resourceLimit
  else if file.positioned = false then .error .ioError
  else
    let counted := countWindows
      (fun records => evidenceSizeFits recordBytes file.size records limits allocation) limits file
      file.bytes.length ⟨0, []⟩ 0 0
    if file.restored then counted else .error .ioError

/-- `ReadAllEvidenceFromHeldHandle`. -/
def readAllEvidenceFromHeldHandle (decoders : ProofDecoders) (recordBytes : UInt64)
    (file : HeldFile) (expectedVolumeIdentity : Bytes) (limits : WalReadLimits)
    (allocation : UInt64) : ReadResult :=
  if file.opened = false then { status := .ioError }
  else if evidenceInputSizeFits file.size limits allocation = false then
    { status := .resourceLimit }
  else if file.unchanged .counted = false then { status := .ioError }
  else
    match countEvidenceFrames recordBytes file limits allocation with
    | .error status => { status }
    | .ok count =>
      if file.pinned = false ∨ file.unchanged .pinned = false then { status := .ioError }
      else
        let decoded :=
          decodeWalBytes decoders expectedVolumeIdentity limits (some count) file.bytes
        if file.unchanged .decoded = false then { status := .ioError }
        else
          let status := if decoded.recoveredTornTail ∧ decoded.status = .ok then .corrupt
            else decoded.status
          { decoded with
            status
            records := if status ≠ .ok then [] else decoded.records
            completePrefixBytes := 0 }

/-! ## The windows -/

section Windows

variable {fits : ℕ → Bool} {limits : WalReadLimits}

/-- What a frame that is counted went through. -/
theorem countFrame_eq_ok_iff {header : Bytes} {remaining count size : ℕ} :
    countFrame fits limits header remaining count = .ok size ↔
      startsProtectedWal header = false ∧ count < limits.records ∧
        legacyHeaderSize ≤ remaining ∧ ∃ version,
          decodeWalFrameHeader header = .ok ⟨version, size⟩ ∧ size ≤ remaining ∧
            fits (count + 1) = true := by
  unfold countFrame
  by_cases hprotected : startsProtectedWal header = true
  · rw [if_pos hprotected]
    exact iff_of_false nofun fun h => by simp [h.1] at hprotected
  rw [if_neg hprotected, and_iff_right (Bool.eq_false_of_not_eq_true hprotected)]
  by_cases hrecords : limits.records ≤ count
  · rw [if_pos hrecords]
    exact iff_of_false nofun fun h => absurd h.1 (not_lt.mpr hrecords)
  rw [if_neg hrecords, and_iff_right (not_le.mp hrecords)]
  by_cases hshort : remaining < legacyHeaderSize
  · rw [if_pos hshort]
    exact iff_of_false nofun fun h => absurd h.1 (not_le.mpr hshort)
  rw [if_neg hshort, and_iff_right (not_lt.mp hshort)]
  match hheader : decodeWalFrameHeader header with
  | .error status => exact iff_of_false nofun fun ⟨_, h, _⟩ => by cases h
  | .ok ⟨version, bytes⟩ =>
    simp only [Except.ok.injEq, WalFrameHeader.mk.injEq]
    split_ifs with hlong hfits
    · refine iff_of_false nofun ?_
      rintro ⟨version', ⟨-, rfl⟩, hle, -⟩
      exact absurd hle (not_le.mpr hlong)
    · refine iff_of_false nofun ?_
      rintro ⟨version', -, -, htrue⟩
      rw [hfits] at htrue
      cases htrue
    · rw [Except.ok.injEq]
      constructor
      · rintro rfl
        exact ⟨version, ⟨rfl, rfl⟩, not_lt.mp hlong, Bool.eq_true_of_not_eq_false hfits⟩
      · rintro ⟨version', ⟨-, rfl⟩, -⟩
        rfl

/-- A window holds the bytes of the file from its start on. -/
structure Window.Of (file : HeldFile) (cursor : ℕ) (window : Window) : Prop where
  start_le : window.start ≤ cursor
  fits : window.start + window.bytes.length ≤ file.bytes.length
  bytes : window.bytes = slice file.bytes window.start window.bytes.length

/-- **The window holds the header**, wherever it stands. -/
theorem windowAt_cases {file : HeldFile} {cursor : ℕ} {window : Window}
    (h : window.Of file cursor) (hcursor : cursor < file.bytes.length) :
    (windowAt file cursor window = .error .ioError ∧ file.reads cursor = false) ∨
      ∃ next, windowAt file cursor window = .ok next ∧ next.Of file cursor ∧
        slice next.bytes (cursor - next.start) (min (file.bytes.length - cursor) 12) =
          (file.bytes.drop cursor).take 12 := by
  have htake : ∀ start, start ≤ cursor →
      slice file.bytes (start + (cursor - start)) (min (file.bytes.length - cursor) 12) =
        (file.bytes.drop cursor).take 12 := by
    intro start hstart
    rw [Nat.add_sub_cancel' hstart, slice, List.take_eq_take_iff, List.length_drop]
    omega
  unfold windowAt
  dsimp only
  split_ifs with hoff hreads
  · refine Or.inr ⟨_, rfl, ⟨le_rfl, ?_, ?_⟩, ?_⟩
    · show cursor + (slice file.bytes cursor _).length ≤ file.bytes.length
      have hle := length_slice_le file.bytes cursor (min (file.bytes.length - cursor) windowSize)
      omega
    · show slice file.bytes cursor _ = slice file.bytes cursor (slice file.bytes cursor _).length
      rw [length_slice_of_le]
      omega
    · show slice (slice file.bytes cursor _) (cursor - cursor) _ = _
      rw [slice_slice (by unfold windowSize; omega)]
      exact htake cursor le_rfl
  · exact Or.inl ⟨rfl, Bool.eq_false_of_not_eq_true hreads⟩
  · simp only [not_or, not_lt] at hoff
    refine Or.inr ⟨window, rfl, h, ?_⟩
    rw [h.bytes, slice_slice (by omega)]
    exact htake window.start h.start_le

/-- **The windows count what a walk over the bytes counts**, or a read of the file has failed. -/
theorem countWindows_cases {file : HeldFile} {fuel cursor count : ℕ} {window : Window}
    (h : window.Of file cursor) :
    countWindows fits limits file fuel window cursor count =
        countDirect fits limits fuel (file.bytes.drop cursor) count ∨
      countWindows fits limits file fuel window cursor count = .error .ioError ∧
        ∃ position, file.reads position = false := by
  induction fuel generalizing window cursor count with
  | zero => exact Or.inl rfl
  | succ fuel ih =>
    rw [countWindows, countDirect]
    by_cases hcursor : cursor < file.bytes.length
    · have hrest : file.bytes.drop cursor ≠ [] := by
        rw [ne_eq, List.drop_eq_nil_iff]
        omega
      rw [if_pos hcursor, if_neg hrest]
      rcases windowAt_cases h hcursor with ⟨hwindow, hfailed⟩ | ⟨next, hwindow, hnext, hheader⟩
      · rw [hwindow]
        exact Or.inr ⟨rfl, cursor, hfailed⟩
      · rw [hwindow]
        dsimp only
        rw [hheader, List.length_drop]
        match hframe : countFrame fits limits ((file.bytes.drop cursor).take 12)
            (file.bytes.length - cursor) count with
        | .error status => exact Or.inl rfl
        | .ok size =>
          dsimp only
          rw [List.drop_drop]
          exact ih ⟨hnext.start_le.trans (Nat.le_add_right _ _), hnext.fits, hnext.bytes⟩
    · have hrest : file.bytes.drop cursor = [] := List.drop_eq_nil_iff.mpr (not_lt.mp hcursor)
      rw [if_neg hcursor, if_pos hrest]
      exact Or.inl rfl

/-- **The windowed count is the direct count.** -/
theorem countEvidenceFrames_eq {recordBytes : UInt64} {file : HeldFile} {allocation : UInt64}
    (hpositioned : file.positioned = true) (hrestored : file.restored = true)
    (hreads : ∀ position, file.reads position = true)
    (hfits : evidenceInputSizeFits file.size limits allocation = true) :
    countEvidenceFrames recordBytes file limits allocation =
      countDirect (fun records => evidenceSizeFits recordBytes file.size records limits allocation)
        limits file.bytes.length file.bytes 0 := by
  unfold countEvidenceFrames
  rw [if_neg (by simp [hfits]), if_neg (by simp [hpositioned])]
  dsimp only
  rw [if_pos hrestored]
  have hempty : (⟨0, []⟩ : Window).Of file 0 := ⟨le_rfl, Nat.zero_le _, rfl⟩
  rcases countWindows_cases hempty with hcount | ⟨-, position, hfailed⟩
  · exact hcount
  · rw [hreads position] at hfailed
    cases hfailed

/-- A count that is returned is the direct count. -/
theorem countDirect_of_countEvidenceFrames {recordBytes : UInt64} {file : HeldFile}
    {allocation : UInt64} {count : ℕ}
    (h : countEvidenceFrames recordBytes file limits allocation = .ok count) :
    countDirect (fun records => evidenceSizeFits recordBytes file.size records limits allocation)
      limits file.bytes.length file.bytes 0 = .ok count := by
  unfold countEvidenceFrames at h
  split_ifs at h with hfits hpositioned hrestored
  have hempty : (⟨0, []⟩ : Window).Of file 0 := ⟨le_rfl, Nat.zero_le _, rfl⟩
  rcases countWindows_cases hempty with hcount | ⟨herror, -⟩
  · exact hcount.symm.trans h
  · rw [herror] at h
    cases h

end Windows

/-! ## Counted and plain decoding -/

section Decoding

variable {decoders : ProofDecoders} {expectedVolumeIdentity : Bytes} {fits : ℕ → Bool}
  {limits : WalReadLimits}

/-- The first twelve bytes tell whether a log is protected. -/
theorem startsProtectedWal_take (rest : Bytes) :
    startsProtectedWal (rest.take 12) = startsProtectedWal rest := by
  have hlength : protectedMagic.length = 8 := rfl
  have hmin : min protectedMagic.length (rest.take 12).length =
      min protectedMagic.length rest.length := by
    rw [hlength, List.length_take]
    omega
  have htwelve : min (min protectedMagic.length rest.length) 12 =
      min protectedMagic.length rest.length := by
    rw [hlength]
    omega
  unfold startsProtectedWal
  dsimp only
  rw [hmin, List.take_take, htwelve]

/-- A header that is taken names a size that holds it. -/
theorem headerSize_le_of_decodeWalFrameHeader {header : Bytes} {version size : ℕ}
    (h : decodeWalFrameHeader header = .ok ⟨version, size⟩) : headerSize version ≤ size := by
  unfold decodeWalFrameHeader at h
  dsimp only at h
  split_ifs at h with hmagic hversion hsize
  obtain ⟨rfl, rfl⟩ := WalFrameHeader.mk.inj (Except.ok.inj h)
  exact hsize.2.1

/-- An error that is reported for a header is one. -/
theorem decodeWalFrameHeader_ne_error_ok {header : Bytes} :
    decodeWalFrameHeader header ≠ .error .ok := by
  unfold decodeWalFrameHeader
  dsimp only
  split_ifs <;> exact nofun

/-- A walk counts no more frames than there are bytes, and no fewer than it began with. -/
theorem countDirect_bounds {fuel count total : ℕ} {rest : Bytes}
    (h : countDirect fits limits fuel rest count = .ok total) :
    count ≤ total ∧ total ≤ count + rest.length ∧ (count ≤ limits.records → total ≤ limits.records) ∧
      (count < total → fits total = true) := by
  induction fuel generalizing rest count with
  | zero =>
    obtain rfl := Except.ok.inj h
    exact ⟨le_rfl, Nat.le_add_right _ _, id, fun hlt => absurd hlt (lt_irrefl _)⟩
  | succ fuel ih =>
    rw [countDirect] at h
    split_ifs at h with hnil
    · obtain rfl := Except.ok.inj h
      exact ⟨le_rfl, Nat.le_add_right _ _, id, fun hlt => absurd hlt (lt_irrefl _)⟩
    · match hframe : countFrame fits limits (rest.take 12) rest.length count with
      | .error status =>
        rw [hframe] at h
        cases h
      | .ok size =>
        rw [hframe] at h
        obtain ⟨hlow, hhigh, hlimit, hfits⟩ := ih h
        obtain ⟨-, hrecords, -, version, hheader, hsize, hone⟩ := countFrame_eq_ok_iff.mp hframe
        have hpositive : 0 < size := by
          have hlegacy := legacyHeaderSize_le_headerSize version
          have hle := headerSize_le_of_decodeWalFrameHeader hheader
          unfold legacyHeaderSize at hlegacy
          omega
        rw [List.length_drop] at hhigh
        refine ⟨by omega, by omega, fun _ => hlimit hrecords, fun _ => ?_⟩
        rcases Nat.lt_or_ge (count + 1) total with hmore | hlast
        · exact hfits hmore
        · obtain rfl : count + 1 = total := le_antisymm hlow hlast
          exact hone

theorem countFrame_ne_error_ok {header : Bytes} {remaining count : ℕ} :
    countFrame fits limits header remaining count ≠ .error .ok := by
  unfold countFrame
  match hheader : decodeWalFrameHeader header with
  | .error status =>
    dsimp only
    split_ifs
    · exact nofun
    · exact nofun
    · exact nofun
    · rintro h
      obtain rfl : status = .ok := Except.error.inj h
      exact decodeWalFrameHeader_ne_error_ok hheader
  | .ok frame =>
    dsimp only
    split_ifs <;> exact nofun

/-- A walk that stops reports an error. -/
theorem countDirect_ne_error_ok {fuel count : ℕ} {rest : Bytes} :
    countDirect fits limits fuel rest count ≠ .error .ok := by
  induction fuel generalizing rest count with
  | zero => exact nofun
  | succ fuel ih =>
    rw [countDirect]
    split_ifs with hnil
    · exact nofun
    · match hframe : countFrame fits limits (rest.take 12) rest.length count with
      | .ok size => exact ih
      | .error status =>
        rintro h
        obtain rfl : status = .ok := Except.error.inj h
        exact countFrame_ne_error_ok hframe

/-- A count that is not returned reports an error. -/
theorem countEvidenceFrames_ne_error_ok {recordBytes : UInt64} {file : HeldFile}
    {allocation : UInt64} : countEvidenceFrames recordBytes file limits allocation ≠ .error .ok := by
  have hempty : (⟨0, []⟩ : Window).Of file 0 := ⟨le_rfl, Nat.zero_le _, rfl⟩
  unfold countEvidenceFrames
  dsimp only
  split_ifs with hfits hpositioned hrestored
  · exact nofun
  · exact nofun
  · rcases countWindows_cases hempty with hcount | ⟨herror, -⟩
    · rw [hcount]
      exact countDirect_ne_error_ok
    · rw [herror]
      exact nofun
  · exact nofun

/-- **Where the count goes through**, the decoder with the count does what the plain one does, and there
is no torn tail. -/
theorem decodeFrames_counted {fuel cursor total : ℕ} {rest : Bytes} {records : List WalRecord}
    (hcount : countDirect fits limits fuel rest records.length = .ok total)
    (htotal : total < 2 ^ 64 - 1) :
    decodeFrames decoders expectedVolumeIdentity limits (some total) fuel rest cursor records =
        decodeFrames decoders expectedVolumeIdentity {} none fuel rest cursor records ∧
      (decodeFrames decoders expectedVolumeIdentity {} none fuel rest cursor
        records).recoveredTornTail = false ∧
      ((decodeFrames decoders expectedVolumeIdentity {} none fuel rest cursor records).status = .ok →
        (decodeFrames decoders expectedVolumeIdentity {} none fuel rest cursor
          records).records.length = total) := by
  induction fuel generalizing rest cursor records with
  | zero =>
    obtain rfl := Except.ok.inj hcount
    refine ⟨?_, rfl, fun _ => rfl⟩
    simp [decodeFrames, finishDecode]
  | succ fuel ih =>
    have hbounds := countDirect_bounds hcount
    rw [countDirect] at hcount
    split_ifs at hcount with hnil
    · obtain rfl := Except.ok.inj hcount
      rw [decodeFrames, decodeFrames, if_pos hnil, if_pos hnil]
      refine ⟨?_, rfl, fun _ => rfl⟩
      simp [finishDecode]
    · cases hframe : countFrame fits limits (rest.take 12) rest.length records.length with
      | error status =>
        rw [hframe] at hcount
        cases hcount
      | ok size =>
        rw [hframe] at hcount
        have hnext := (countDirect_bounds hcount).1
        obtain ⟨hprotected, -, hlegacy, version, hheader, hsize, -⟩ := countFrame_eq_ok_iff.mp hframe
        rw [startsProtectedWal_take] at hprotected
        have hcounted : ¬(some total).getD limits.records ≤ records.length := by
          rw [Option.getD_some]
          omega
        have hplain : ¬(none : Option ℕ).getD ({} : WalReadLimits).records ≤ records.length := by
          simp only [Option.getD_none]
          omega
        simp only [decodeFrames, if_neg hnil, hprotected, Bool.false_eq_true, if_false,
          if_neg hcounted, if_neg hplain, if_neg (not_lt.mpr hlegacy), hheader,
          if_neg (not_lt.mpr hsize)]
        cases hdecode : decodeRecord decoders (rest.take size) version expectedVolumeIdentity with
        | error status =>
          refine ⟨rfl, rfl, fun hstatus => ?_⟩
          obtain rfl : status = .ok := hstatus
          exact absurd hdecode decodeRecord_ne_error_ok
        | ok record =>
          have hlength : (records ++ [record]).length = records.length + 1 := List.length_append
          exact ih (hlength ▸ hcount)

/-- **Where the plain decoder takes everything**, a count that admits its records goes through. -/
theorem countDirect_of_decodeFrames {fuel cursor : ℕ} {rest : Bytes} {records : List WalRecord}
    {decoded : ReadResult}
    (hdecoded : decodeFrames decoders expectedVolumeIdentity {} none fuel rest cursor records =
      decoded)
    (hstatus : decoded.status = .ok) (htorn : decoded.recoveredTornTail = false)
    (hlimit : decoded.records.length ≤ limits.records)
    (hfits : ∀ count ≤ decoded.records.length, fits count = true) :
    countDirect fits limits fuel rest records.length = .ok decoded.records.length := by
  induction fuel generalizing rest cursor records with
  | zero =>
    obtain rfl := hdecoded
    rfl
  | succ fuel ih =>
    rw [decodeFrames] at hdecoded
    rw [countDirect]
    split_ifs at hdecoded with hnil hprotected hrecords hshort
    · obtain rfl := hdecoded
      rw [if_pos hnil]
      rfl
    · obtain rfl := hdecoded
      cases hstatus
    · obtain rfl := hdecoded
      cases hstatus
    · obtain rfl := hdecoded
      cases htorn
    · rw [if_neg hnil]
      cases hheader : decodeWalFrameHeader (rest.take 12) with
      | error status =>
        rw [hheader] at hdecoded
        obtain rfl := hdecoded
        obtain rfl : status = .ok := hstatus
        exact absurd hheader decodeWalFrameHeader_ne_error_ok
      | ok frame =>
        obtain ⟨version, size⟩ := frame
        rw [hheader] at hdecoded
        dsimp only at hdecoded
        split_ifs at hdecoded with hlong
        · obtain rfl := hdecoded
          cases htorn
        · cases hdecode : decodeRecord decoders (rest.take size) version expectedVolumeIdentity with
          | error status =>
            rw [hdecode] at hdecoded
            obtain rfl := hdecoded
            obtain rfl : status = .ok := hstatus
            exact absurd hdecode decodeRecord_ne_error_ok
          | ok record =>
            rw [hdecode] at hdecoded
            have hlength : (records ++ [record]).length = records.length + 1 := List.length_append
            have hrest := ih hdecoded
            rw [hlength] at hrest
            have hmore := (countDirect_bounds hrest).1
            have hframe : countFrame fits limits (rest.take 12) rest.length records.length =
                .ok size := by
              refine countFrame_eq_ok_iff.mpr ⟨?_, by omega, not_lt.mp hshort, version, hheader,
                not_lt.mp hlong, hfits _ hmore⟩
              rw [startsProtectedWal_take]
              exact Bool.eq_false_of_not_eq_true hprotected
            rw [hframe]
            exact hrest

/-- The plain decoder's own limits admit every file. -/
theorem decodeWalBytes_plain (file : HeldFile) :
    decodeWalBytes decoders expectedVolumeIdentity {} none file.bytes =
      decodeFrames decoders expectedVolumeIdentity {} none file.bytes.length file.bytes 0 [] := by
  have hlt := file.length_lt
  have hlimit : ¬({} : WalReadLimits).bytes < file.bytes.length := by
    show ¬2 ^ 64 - 1 < file.bytes.length
    omega
  unfold decodeWalBytes
  rw [if_neg hlimit, if_neg (by simp)]

/-- After the count, the limits admit what is decoded. -/
theorem decodeWalBytes_counted {file : HeldFile} {allocation : UInt64} {total : ℕ}
    (hfits : evidenceInputSizeFits file.size limits allocation = true)
    (htotal : total ≤ limits.records) :
    decodeWalBytes decoders expectedVolumeIdentity limits (some total) file.bytes =
      decodeFrames decoders expectedVolumeIdentity limits (some total) file.bytes.length file.bytes 0
        [] := by
  simp only [evidenceInputSizeFits, Bool.and_eq_true, decide_eq_true_eq, HeldFile.toNat_size]
    at hfits
  unfold decodeWalBytes
  rw [if_neg (not_lt.mpr hfits.1.1.2), if_neg (by simpa using htotal)]

/-- A file that is counted: the counted decoder is the plain one, without a torn tail. -/
theorem decodeWalBytes_of_countDirect {file : HeldFile} {allocation : UInt64} {total : ℕ}
    (hfits : evidenceInputSizeFits file.size limits allocation = true)
    (hcount : countDirect fits limits file.bytes.length file.bytes 0 = .ok total) :
    let plain := decodeWalBytes decoders expectedVolumeIdentity {} none file.bytes
    decodeWalBytes decoders expectedVolumeIdentity limits (some total) file.bytes = plain ∧
      plain.recoveredTornTail = false ∧ (plain.status = .ok → plain.records.length = total) := by
  obtain ⟨-, hhigh, hlimit, -⟩ := countDirect_bounds hcount
  have hlt := file.length_lt
  dsimp only
  rw [decodeWalBytes_plain, decodeWalBytes_counted hfits (hlimit (Nat.zero_le _))]
  exact @decodeFrames_counted decoders expectedVolumeIdentity fits limits _ 0 total file.bytes []
    hcount (by omega)

end Decoding

section Reader

variable {decoders : ProofDecoders} {recordBytes allocation : UInt64}
  {expectedVolumeIdentity : Bytes} {limits : WalReadLimits} {file : HeldFile}

/-- No record at all fits as soon as the input does. -/
theorem evidenceSizeFits_zero (h : evidenceInputSizeFits file.size limits allocation = true) :
    evidenceSizeFits recordBytes file.size 0 limits allocation = true := by
  simp [evidenceSizeFits, h]

/-- A read that succeeds: the limits admit the log, and the plain decoder takes all of it. -/
theorem plain_of_readAllEvidence
    (h : (readAllEvidenceFromHeldHandle decoders recordBytes file expectedVolumeIdentity limits
      allocation).status = .ok) :
    let plain := decodeWalBytes decoders expectedVolumeIdentity {} none file.bytes
    plain.status = .ok ∧ plain.recoveredTornTail = false ∧
      evidenceSizeFits recordBytes file.size plain.records.length limits allocation = true ∧
      (readAllEvidenceFromHeldHandle decoders recordBytes file expectedVolumeIdentity limits
        allocation).records = plain.records := by
  unfold readAllEvidenceFromHeldHandle at h ⊢
  by_cases hopened : file.opened = false
  · rw [if_pos hopened] at h
    cases h
  rw [if_neg hopened] at h ⊢
  by_cases hinput : evidenceInputSizeFits file.size limits allocation = false
  · rw [if_pos hinput] at h
    cases h
  rw [if_neg hinput] at h ⊢
  have hfits := Bool.eq_true_of_not_eq_false hinput
  by_cases hphase : file.unchanged .counted = false
  · rw [if_pos hphase] at h
    cases h
  rw [if_neg hphase] at h ⊢
  match hcount : countEvidenceFrames recordBytes file limits allocation with
  | .error status =>
    rw [hcount] at h
    obtain rfl : status = .ok := h
    exact absurd hcount countEvidenceFrames_ne_error_ok
  | .ok total =>
    rw [hcount] at h
    dsimp only at h ⊢
    have hdirect := countDirect_of_countEvidenceFrames hcount
    obtain ⟨hsame, htorn, hlength⟩ := @decodeWalBytes_of_countDirect decoders
      expectedVolumeIdentity _ limits file allocation total hfits hdirect
    rw [hsame] at h ⊢
    by_cases hpinned : file.pinned = false ∨ file.unchanged .pinned = false
    · rw [if_pos hpinned] at h
      cases h
    rw [if_neg hpinned] at h ⊢
    by_cases hdecoded : file.unchanged .decoded = false
    · rw [if_pos hdecoded] at h
      cases h
    rw [if_neg hdecoded] at h ⊢
    simp only [htorn, Bool.false_eq_true, false_and, if_false] at h ⊢
    refine ⟨h, trivial, ?_, ?_⟩
    · rw [hlength h]
      obtain ⟨-, -, -, hlast⟩ := countDirect_bounds hdirect
      rcases Nat.eq_zero_or_pos total with rfl | hpositive
      · exact evidenceSizeFits_zero hfits
      · exact hlast hpositive
    · rw [if_neg (not_not.mpr h)]

/-- The read of a log that the limits admit and that the plain decoder takes whole. -/
theorem readAllEvidence_of_plain (hcalm : file.Calm)
    (hstatus : (decodeWalBytes decoders expectedVolumeIdentity {} none file.bytes).status = .ok)
    (htorn : (decodeWalBytes decoders expectedVolumeIdentity {} none
      file.bytes).recoveredTornTail = false)
    (hfits : evidenceSizeFits recordBytes file.size
      (decodeWalBytes decoders expectedVolumeIdentity {} none file.bytes).records.length limits
      allocation = true) :
    (readAllEvidenceFromHeldHandle decoders recordBytes file expectedVolumeIdentity limits
      allocation).status = .ok := by
  have hinput := input_of_sizeFits hfits
  have hrecords := records_le_of_sizeFits hfits
  have hdirect := @countDirect_of_decodeFrames decoders expectedVolumeIdentity
    (fun records => evidenceSizeFits recordBytes file.size records limits allocation) limits
    file.bytes.length 0 file.bytes [] _ (decodeWalBytes_plain file).symm hstatus htorn hrecords
    (fun count hle => evidenceSizeFits_of_le hle hfits)
  have hcount := (countEvidenceFrames_eq hcalm.positioned hcalm.restored hcalm.reads
    hinput).trans hdirect
  obtain ⟨hsame, -, -⟩ := @decodeWalBytes_of_countDirect decoders expectedVolumeIdentity _ limits
    file allocation _ hinput hdirect
  unfold readAllEvidenceFromHeldHandle
  rw [if_neg (by simp [hcalm.opened]), if_neg (by simp [hinput]),
    if_neg (by simp [hcalm.unchanged]), hcount]
  dsimp only
  rw [if_neg (by simp [hcalm.pinned, hcalm.unchanged]), if_neg (by simp [hcalm.unchanged]), hsame]
  simp only [htorn, Bool.false_eq_true, false_and, if_false]
  exact hstatus

/-- **The bounded reader of evidence refines the plain one.**  A read succeeds exactly where the limits
admit the log and the plain decoder takes the whole of it, and then returns the same records; the
windows count what a walk over the bytes counts, wherever the headers stand; and the budget is never
reduced below zero. -/
theorem evidence_refines (decoders : ProofDecoders) (recordBytes : UInt64) (file : HeldFile)
    (expectedVolumeIdentity : Bytes) (limits : WalReadLimits) (allocation : UInt64) :
    let plain := decodeWalBytes decoders expectedVolumeIdentity {} none file.bytes
    let read := readAllEvidenceFromHeldHandle decoders recordBytes file expectedVolumeIdentity limits
      allocation
    let admitted := evidenceSizeFits recordBytes file.size plain.records.length limits allocation
    (read.status = .ok → plain.status = .ok ∧ plain.recoveredTornTail = false ∧ admitted = true ∧
      read.records = plain.records) ∧
    (file.Calm → (read.status = .ok ↔
      plain.status = .ok ∧ plain.recoveredTornTail = false ∧ admitted = true)) ∧
    (file.Calm → countEvidenceFrames recordBytes file limits allocation =
      if evidenceInputSizeFits file.size limits allocation = false then .error .resourceLimit
      else countDirect
        (fun records => evidenceSizeFits recordBytes file.size records limits allocation) limits
        file.bytes.length file.bytes 0) ∧
    (evidenceInputSizeFits file.size limits allocation = true →
      (file.size * 4).toNat = file.bytes.length * 4 ∧
      (allocation - file.size * 4).toNat = allocation.toNat - file.bytes.length * 4 ∧
      file.bytes.length * 4 ≤ allocation.toNat) := by
  dsimp only
  refine ⟨plain_of_readAllEvidence, fun hcalm => ⟨fun h => ?_, fun h => ?_⟩, fun hcalm => ?_,
    fun hinput => ?_⟩
  · obtain ⟨hstatus, htorn, hfits, -⟩ := plain_of_readAllEvidence h
    exact ⟨hstatus, htorn, hfits⟩
  · exact readAllEvidence_of_plain hcalm h.1 h.2.1 h.2.2
  · by_cases hinput : evidenceInputSizeFits file.size limits allocation = false
    · rw [if_pos hinput, countEvidenceFrames, if_pos hinput]
    · rw [if_neg hinput]
      exact countEvidenceFrames_eq hcalm.positioned hcalm.restored hcalm.reads
        (Bool.eq_true_of_not_eq_false hinput)
  · obtain ⟨hproduct, hbound, hrest⟩ := budget_exact hinput
    rw [file.toNat_size] at hproduct hbound hrest
    exact ⟨hproduct, hrest, hbound⟩

end Reader

end Wal
end ApfsAccess
