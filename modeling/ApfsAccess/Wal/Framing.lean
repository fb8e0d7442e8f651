import ApfsAccess.Wal.Decoding

/-!
# Frames, and a log that was cut

A log is the concatenation of its records' encodings.  `DecodeWalBytes` walks over it
frame by frame: twelve bytes tell how long the frame is, and a frame that runs past
the end of the log is a *torn tail*, not a corruption.

* `decodeWalBytes_take` : the log cut after any number of bytes decodes to the longest
  list of whole records that fits, and says whether something was left over.
-/

namespace ApfsAccess
namespace Wal

open ByteBuffer Format

/-- `WalReadLimits`. -/
structure WalReadLimits where
  bytes : ℕ := 2 ^ 64 - 1
  records : ℕ := 2 ^ 64 - 1

/-- `WriteAheadLog::ReadResult`, with the out parameter `complete_prefix_bytes`. -/
structure ReadResult where
  status : ReadStatus := .ok
  recoveredTornTail : Bool := false
  records : List WalRecord := []
  completePrefixBytes : ℕ := 0
  deriving DecidableEq, Repr

/-- The magic of a protected log. -/
def protectedMagic : Bytes := [0xe4, 0x41, 0x50, 0x46, 0x53, 0x57, 0x41, 0x4c]

/-- `IsProtectedWalPrefix`. -/
def startsProtectedWal (bytes : Bytes) : Bool :=
  let length := min protectedMagic.length bytes.length
  length != 0 && bytes.take length == protectedMagic.take length

/-- `WalFrameHeader`. -/
structure WalFrameHeader where
  version : ℕ
  bytes : ℕ

/-- `DecodeWalFrameHeader`. -/
def decodeWalFrameHeader (bytes : Bytes) : Except ReadStatus WalFrameHeader :=
  if bytes.length < 12 ∨ leValue (slice bytes 0 4) ≠ magic then
    .error .corrupt
  else
    let version := leValue (slice bytes 4 2)
    if version ≠ legacyVersion ∧ version ≠ inlinePayloadVersion ∧
        version ≠ unlinkOutcomeVersion then
      .error .versionMismatch
    else
      let frameBytes := leValue (slice bytes 8 4)
      if leValue (slice bytes 6 2) = headerSize version ∧ headerSize version ≤ frameBytes ∧
          frameBytes ≤ maxRecordBytes then
        .ok ⟨version, frameBytes⟩
      else
        .error .corrupt

section Decode

variable (decoders : ProofDecoders) (expectedVolumeIdentity : Bytes) (limits : WalReadLimits)
  (evidenceRecordCount : Option ℕ)

/-- What `DecodeWalBytes` does when its cursor has reached the end. -/
def finishDecode (cursor : ℕ) (records : List WalRecord) : ReadResult :=
  if evidenceRecordCount.any (fun count => records.length != count) then
    { status := .corrupt }
  else
    { records, completePrefixBytes := cursor }

/-- The loop of `DecodeWalBytes`, on the bytes past the cursor.  A frame takes at least
a header, so the loop runs no more often than there are bytes. -/
def decodeFrames : ℕ → Bytes → ℕ → List WalRecord → ReadResult
  | 0, _, cursor, records => finishDecode evidenceRecordCount cursor records
  | fuel + 1, rest, cursor, records =>
    if rest = [] then
      finishDecode evidenceRecordCount cursor records
    else if startsProtectedWal rest then
      { status := .versionMismatch }
    else if evidenceRecordCount.getD limits.records ≤ records.length then
      { status := .resourceLimit }
    else if rest.length < legacyHeaderSize then
      { recoveredTornTail := true, records, completePrefixBytes := cursor }
    else
      match decodeWalFrameHeader (rest.take 12) with
      | .error status => { status, records }
      | .ok frame =>
        if rest.length < frame.bytes then
          { recoveredTornTail := true, records, completePrefixBytes := cursor }
        else
          match decodeRecord decoders (rest.take frame.bytes) frame.version
              expectedVolumeIdentity with
          | .error status => { status, records }
          | .ok record =>
            decodeFrames fuel (rest.drop frame.bytes) (cursor + frame.bytes) (records ++ [record])

/-- `DecodeWalBytes`. -/
def decodeWalBytes (bytes : Bytes) : ReadResult :=
  if limits.bytes < bytes.length then
    { status := .resourceLimit }
  else if evidenceRecordCount.any (fun count => limits.records < count) then
    { status := .resourceLimit }
  else
    decodeFrames decoders expectedVolumeIdentity limits evidenceRecordCount bytes.length bytes 0 []

end Decode

/-! ## One frame -/

/-- A record with its encoding, as a log for `expectedVolumeIdentity` may hold it: the
encoder accepted it, in the version it chose or in one of the three known ones, and the
encoding is within the decoder's record limit. -/
structure Framed (decoders : ProofDecoders) (expectedVolumeIdentity : Bytes)
    (frame : WalRecord × Bytes) : Prop where
  encoded : ∃ versionOverride ≤ unlinkOutcomeVersion,
    encodeWalRecord decoders frame.1 versionOverride = some frame.2
  length_le : frame.2.length ≤ maxRecordBytes
  identity : expectedVolumeIdentity = [] ∨ frame.1.volumeIdentity = expectedVolumeIdentity

variable {decoders : ProofDecoders} {expectedVolumeIdentity : Bytes}

theorem recordVersion_known (record : WalRecord) {versionOverride : ℕ}
    (h : versionOverride ≤ unlinkOutcomeVersion) :
    recordVersion record versionOverride = legacyVersion ∨
      recordVersion record versionOverride = inlinePayloadVersion ∨
      recordVersion record versionOverride = unlinkOutcomeVersion := by
  unfold unlinkOutcomeVersion at h
  unfold recordVersion legacyVersion inlinePayloadVersion unlinkOutcomeVersion
  split
  · split
    · simp
    · split <;> simp
  · omega

/-- The twelve bytes at the head of a frame. -/
def frameHead (version size : ℕ) : Bytes :=
  appendU32 (UInt32.ofNat magic) ++ (appendU16 version ++
    (appendU16 (headerSize version) ++ appendU32 (UInt32.ofNat size)))

theorem take_unchecked (record : WalRecord) (version : ℕ) :
    (unchecked record version).take 12 = frameHead version (recordSize record version) := by
  have hsplit : unchecked record version = frameHead version (recordSize record version) ++
      (appendU32 0 ++ (fixedBytes record ++ (versionBytes record version ++
        (record.payloadSha256.toList ++ variableBytes record)))) := by
    simp only [unchecked, frameHead, List.append_assoc]
  rw [hsplit]
  exact List.take_left' (by simp [frameHead])

/-- The four numbers at the head of a frame. -/
theorem values_frameHead {version size : ℕ}
    (hversion : version = legacyVersion ∨ version = inlinePayloadVersion ∨
      version = unlinkOutcomeVersion) (hsize : size < 2 ^ 32) :
    leValue (slice (frameHead version size) 0 4) = magic ∧
      leValue (slice (frameHead version size) 4 2) = version ∧
      leValue (slice (frameHead version size) 6 2) = headerSize version ∧
      leValue (slice (frameHead version size) 8 4) = size ∧
      (frameHead version size).length = 12 := by
  have hmagic : leValue (appendU32 (UInt32.ofNat magic)) = magic := by decide
  have hversionValue : leValue (appendU16 version) = version := by
    rcases hversion with rfl | rfl | rfl <;> decide
  have hheaderValue : leValue (appendU16 (headerSize version)) = headerSize version := by
    rcases hversion with rfl | rfl | rfl <;> decide
  have hsizeValue : leValue (appendU32 (UInt32.ofNat size)) = size := by
    rw [leValue_appendU32, toNat_ofNat_of_lt hsize]
  -- the head is twelve bytes, and its four fields are its slices
  generalize hbytes : frameHead version size = bytes
  rw [frameHead] at hbytes
  have hlength : bytes.length = 12 := by simp [← hbytes]
  have h0 : slice bytes 0 4 = appendU32 (UInt32.ofNat magic) := by
    rw [← hbytes]
    exact List.take_left' (length_appendU32 _)
  have h4 : slice bytes 4 2 = appendU16 version := by
    rw [← hbytes, slice, List.drop_left' (length_appendU32 _)]
    exact List.take_left' (length_appendU16 _)
  have h6 : slice bytes 6 2 = appendU16 (headerSize version) := by
    rw [← hbytes, slice, ← List.append_assoc, List.drop_left' (by simp)]
    exact List.take_left' (length_appendU16 _)
  have h8 : slice bytes 8 4 = appendU32 (UInt32.ofNat size) := by
    rw [← hbytes, slice, ← List.append_assoc, ← List.append_assoc, List.drop_left' (by simp)]
    exact List.take_of_length_le (by simp)
  rw [h0, h4, h6, h8]
  exact ⟨hmagic, hversionValue, hheaderValue, hsizeValue, hlength⟩

/-- A head is taken for what it says exactly when its size is within the limits. -/
theorem decodeWalFrameHeader_frameHead {version size : ℕ}
    (hversion : version = legacyVersion ∨ version = inlinePayloadVersion ∨
      version = unlinkOutcomeVersion)
    (hheader : headerSize version ≤ size) (hsize : size < 2 ^ 32) :
    decodeWalFrameHeader (frameHead version size) =
      if size ≤ maxRecordBytes then .ok ⟨version, size⟩ else .error .corrupt := by
  obtain ⟨hmagic, hversionValue, hheaderValue, hsizeValue, hlength⟩ :=
    values_frameHead hversion hsize
  unfold decodeWalFrameHeader
  rw [hmagic, hversionValue, hheaderValue, hsizeValue, if_neg (by simp [hlength])]
  dsimp only
  rw [if_neg (by tauto)]
  by_cases hlimit : size ≤ maxRecordBytes
  · rw [if_pos ⟨rfl, hheader, hlimit⟩, if_pos hlimit]
  · rw [if_neg fun h => hlimit h.2.2, if_neg hlimit]

/-- What the loop needs to know about a frame: its first byte, its head, and that it
decodes to its record. -/
theorem Framed.spec {frame : WalRecord × Bytes}
    (h : Framed decoders expectedVolumeIdentity frame) :
    legacyHeaderSize ≤ frame.2.length ∧ frame.2.head? = some 0x41 ∧
      ∃ version, decodeWalFrameHeader (frame.2.take 12) = .ok ⟨version, frame.2.length⟩ ∧
        decodeRecord decoders frame.2 version expectedVolumeIdentity = .ok frame.1 := by
  obtain ⟨⟨versionOverride, hoverride, hencode⟩, hmax, hidentity⟩ := h
  obtain ⟨hlength, hlegacy⟩ := length_of_encodeWalRecord hencode
  obtain ⟨hadmitted, -, -, hbytes⟩ := encodeWalRecord_eq_some hencode
  have hdecode := decodeRecord_of_encodeWalRecord hencode hidentity
  have hknown := recordVersion_known frame.1 hoverride
  generalize recordVersion frame.1 versionOverride = version at *
  have hunchecked : 16 ≤ (unchecked frame.1 version).length := by
    rw [length_unchecked hadmitted, ← hlength]
    unfold legacyHeaderSize at hlegacy
    omega
  have htake : frame.2.take 12 = frameHead version frame.2.length := by
    rw [hlength, hbytes, take_storeChecksum hunchecked, take_unchecked]
  have hhead : frame.2.head? = some 0x41 := by
    have hfirst : frame.2.head? = (frame.2.take 12).head? := by
      rw [List.head?_take]
      simp
    rw [hfirst, htake]
    rfl
  have hheader : headerSize version ≤ frame.2.length := by
    rw [hlength]
    unfold recordSize
    omega
  refine ⟨hlegacy, hhead, version, ?_, hdecode⟩
  have hfit : frame.2.length < 2 ^ 32 := by
    unfold maxRecordBytes at hmax
    omega
  rw [htake, decodeWalFrameHeader_frameHead hknown hheader hfit, if_pos hmax]

/-- A frame does not look like a protected log, however it is cut. -/
theorem startsProtectedWal_of_head {bytes : Bytes} (h : bytes.head? = some 0x41) :
    startsProtectedWal bytes = false := by
  cases bytes with
  | nil => cases h
  | cons byte bytes =>
    obtain rfl : byte = 0x41 := by simpa using h
    have hlength : ∃ length, min protectedMagic.length (bytes.length + 1) = length + 1 :=
      ⟨min 7 bytes.length, by simp [protectedMagic]; omega⟩
    obtain ⟨length, hlength⟩ := hlength
    unfold startsProtectedWal
    simp only [List.length_cons, hlength]
    simp [protectedMagic]

/-! ## A log that was cut -/

/-- The bytes of a log. -/
def logBytes (frames : List (WalRecord × Bytes)) : Bytes :=
  (frames.map Prod.snd).flatten

@[simp] theorem logBytes_nil : logBytes [] = [] := rfl

@[simp] theorem logBytes_cons (frame : WalRecord × Bytes) (frames : List (WalRecord × Bytes)) :
    logBytes (frame :: frames) = frame.2 ++ logBytes frames := rfl

theorem logBytes_append (frames frames' : List (WalRecord × Bytes)) :
    logBytes (frames ++ frames') = logBytes frames ++ logBytes frames' := by
  simp [logBytes]

/-- The number of leading frames that fit into `n` bytes. -/
def fitting : ℕ → List (WalRecord × Bytes) → ℕ
  | _, [] => 0
  | n, frame :: frames =>
    if frame.2.length ≤ n then fitting (n - frame.2.length) frames + 1 else 0

theorem length_logBytes_take_fitting_le (n : ℕ) (frames : List (WalRecord × Bytes)) :
    (logBytes (frames.take (fitting n frames))).length ≤ n := by
  induction frames generalizing n with
  | nil => simp [fitting]
  | cons frame frames ih =>
    unfold fitting
    split
    · rename_i hfits
      have hrest := ih (n - frame.2.length)
      simp only [List.take_succ_cons, logBytes_cons, List.length_append]
      omega
    · simp

/-- The frame after those that fit does not fit. -/
theorem lt_length_logBytes_take_fitting (n : ℕ) {frames : List (WalRecord × Bytes)}
    (h : fitting n frames < frames.length) :
    n < (logBytes (frames.take (fitting n frames + 1))).length := by
  induction frames generalizing n with
  | nil => simp [fitting] at h
  | cons frame frames ih =>
    unfold fitting at h ⊢
    split
    · rename_i hfits
      rw [if_pos hfits] at h
      have hrest := ih (n - frame.2.length) (by simpa using h)
      rw [List.take_succ_cons, logBytes_cons, List.length_append]
      omega
    · rename_i hfits
      simpa using hfits

theorem fitting_le_length (n : ℕ) (frames : List (WalRecord × Bytes)) :
    fitting n frames ≤ frames.length := by
  induction frames generalizing n with
  | nil => simp [fitting]
  | cons frame frames ih =>
    unfold fitting
    split
    · have hrest := ih (n - frame.2.length)
      simp only [List.length_cons]
      omega
    · simp

/-- The bytes of more frames are more bytes. -/
theorem length_logBytes_take_mono (frames : List (WalRecord × Bytes)) {i j : ℕ} (h : i ≤ j) :
    (logBytes (frames.take i)).length ≤ (logBytes (frames.take j)).length := by
  obtain ⟨d, rfl⟩ := Nat.exists_eq_add_of_le h
  rw [List.take_add, logBytes_append, List.length_append]
  omega

/-- What is left over is nothing exactly at a record boundary. -/
theorem length_logBytes_take_fitting_eq_iff {n : ℕ} {frames : List (WalRecord × Bytes)} :
    (logBytes (frames.take (fitting n frames))).length = n ↔
      ∃ k ≤ frames.length, (logBytes (frames.take k)).length = n := by
  refine ⟨fun h => ⟨_, fitting_le_length n frames, h⟩, ?_⟩
  rintro ⟨k, hk, hboundary⟩
  have hle := length_logBytes_take_fitting_le n frames
  by_contra hne
  have hlt : (logBytes (frames.take (fitting n frames))).length < n := by omega
  -- the boundary lies past the frames that fit, so one more of them would have fitted
  have hpast : fitting n frames < k := by
    by_contra hnot
    have hmono := length_logBytes_take_mono frames (Nat.le_of_not_lt hnot)
    omega
  have hshort : fitting n frames < frames.length := by omega
  have hnext := lt_length_logBytes_take_fitting n hshort
  have hmono := length_logBytes_take_mono frames (Nat.succ_le_of_lt hpast)
  rw [Nat.succ_eq_add_one] at hmono
  omega

/-- The loop on a log that was cut. -/
theorem decodeFrames_take {frames : List (WalRecord × Bytes)}
    (hframes : ∀ frame ∈ frames, Framed decoders expectedVolumeIdentity frame)
    {n fuel cursor : ℕ} {records : List WalRecord} (hn : n ≤ (logBytes frames).length)
    (hfuel : n ≤ fuel) (hrecords : records.length ≤ cursor) (hcursor : cursor + n < 2 ^ 64) :
    decodeFrames decoders expectedVolumeIdentity {} none fuel ((logBytes frames).take n) cursor
        records =
      { recoveredTornTail :=
          decide ((logBytes (frames.take (fitting n frames))).length ≠ n)
        records := records ++ (frames.take (fitting n frames)).map Prod.fst
        completePrefixBytes :=
          cursor + (logBytes (frames.take (fitting n frames))).length } := by
  induction frames generalizing n fuel cursor records with
  | nil =>
    obtain rfl : n = 0 := by simpa using hn
    cases fuel <;> simp [decodeFrames, finishDecode, fitting]
  | cons frame frames ih =>
    obtain ⟨hlegacy, hhead, version, hheader, hdecode⟩ := (hframes frame List.mem_cons_self).spec
    have hpositive : 0 < frame.2.length := by
      unfold legacyHeaderSize at hlegacy
      omega
    rw [logBytes_cons]
    rcases Nat.eq_zero_or_pos n with rfl | hcut
    · have hfitting : fitting 0 (frame :: frames) = 0 := by
        rw [fitting, if_neg (by omega)]
      rw [hfitting]
      cases fuel <;> simp [decodeFrames, finishDecode]
    obtain ⟨fuel, rfl⟩ : ∃ fuel', fuel = fuel' + 1 := ⟨fuel - 1, by omega⟩
    generalize hrest : (frame.2 ++ logBytes frames).take n = rest
    have hlength : rest.length = n := by
      rw [← hrest, List.length_take, List.length_append]
      rw [logBytes_cons, List.length_append] at hn
      omega
    have hnil : rest ≠ [] := by
      rintro rfl
      simp only [List.length_nil] at hlength
      omega
    have hstart : rest.head? = some 0x41 := by
      rw [← hrest, List.head?_take, if_neg (by omega), List.head?_append, hhead]
      rfl
    have hlimit : ¬ ((none : Option ℕ).getD ({} : WalReadLimits).records ≤ records.length) := by
      simp only [Option.getD_none]
      omega
    unfold decodeFrames
    rw [if_neg hnil, startsProtectedWal_of_head hstart, if_neg Bool.false_ne_true, if_neg hlimit]
    by_cases hfits : frame.2.length ≤ n
    · -- the whole frame is there
      have hsplit : rest = frame.2 ++ (logBytes frames).take (n - frame.2.length) := by
        rw [← hrest, List.take_append, List.take_of_length_le hfits]
      have htake12 : rest.take 12 = frame.2.take 12 := by
        rw [hsplit, List.take_append_of_le_length (by unfold legacyHeaderSize at hlegacy; omega)]
      have hfitting : fitting n (frame :: frames) = fitting (n - frame.2.length) frames + 1 := by
        rw [fitting, if_pos hfits]
      have hremaining : n - frame.2.length ≤ (logBytes frames).length := by
        rw [logBytes_cons, List.length_append] at hn
        omega
      have hcounted : (records ++ [frame.1]).length ≤ cursor + frame.2.length := by
        rw [List.length_append, List.length_singleton]
        omega
      have hrecursion := ih (fun other hother => hframes other (List.mem_cons_of_mem _ hother))
        hremaining (show n - frame.2.length ≤ fuel by omega) hcounted (by omega)
      rw [if_neg (by omega), htake12, hheader]
      dsimp only
      rw [if_neg (by omega), hsplit, List.take_left, List.drop_left, hdecode]
      dsimp only
      rw [hrecursion, hfitting]
      have htorn : ((logBytes (frames.take (fitting (n - frame.2.length) frames))).length ≠
          n - frame.2.length) ↔ (logBytes ((frame :: frames).take
            (fitting (n - frame.2.length) frames + 1))).length ≠ n := by
        rw [List.take_succ_cons, logBytes_cons, List.length_append]
        omega
      simp only [htorn, List.take_succ_cons, logBytes_cons, List.length_append, List.map_cons,
        List.append_assoc, List.cons_append, List.nil_append, Nat.add_assoc]
    · -- the frame is torn: too short for a header, or shorter than its header says
      have hfitting : fitting n (frame :: frames) = 0 := by
        rw [fitting, if_neg hfits]
      have hne : (logBytes ((frame :: frames).take 0)).length ≠ n := by
        rw [List.take_zero, logBytes_nil, List.length_nil]
        omega
      rw [hfitting, decide_eq_true hne, List.take_zero, List.map_nil, List.append_nil,
        logBytes_nil, List.length_nil, Nat.add_zero]
      by_cases hshort : rest.length < legacyHeaderSize
      · rw [if_pos hshort]
      · have htake12 : rest.take 12 = frame.2.take 12 := by
          unfold legacyHeaderSize at hshort
          rw [← hrest, List.take_take, Nat.min_eq_left (by omega),
            List.take_append_of_le_length (by omega)]
        rw [if_neg hshort, htake12, hheader]
        dsimp only
        rw [if_pos (by omega)]

/-- The decoder on a log that was cut, as one result. -/
theorem decodeWalBytes_take_eq {frames : List (WalRecord × Bytes)}
    (hframes : ∀ frame ∈ frames, Framed decoders expectedVolumeIdentity frame)
    (hsize : (logBytes frames).length < 2 ^ 64) {n : ℕ} (hn : n ≤ (logBytes frames).length) :
    decodeWalBytes decoders expectedVolumeIdentity {} none ((logBytes frames).take n) =
      { recoveredTornTail :=
          decide ((logBytes (frames.take (fitting n frames))).length ≠ n)
        records := (frames.take (fitting n frames)).map Prod.fst
        completePrefixBytes := (logBytes (frames.take (fitting n frames))).length } := by
  have hlength : ((logBytes frames).take n).length = n := by
    rw [List.length_take]
    omega
  have hloop := decodeFrames_take hframes hn (Nat.le_refl n)
    (show ([] : List WalRecord).length ≤ 0 from Nat.le_refl 0) (by omega)
  unfold decodeWalBytes
  rw [if_neg (by rw [hlength]; dsimp only; omega), if_neg (by simp), hlength, hloop,
    List.nil_append, Nat.zero_add]

/-- **A log cut after any number of bytes.**  Whatever the cut, the decoder reports
success, returns exactly the longest list of leading records whose encodings fit, counts
their bytes as complete, and reports a torn tail exactly when the cut is not at a record
boundary. -/
theorem decodeWalBytes_take (decoders : ProofDecoders) (expectedVolumeIdentity : Bytes)
    (frames : List (WalRecord × Bytes))
    (hframes : ∀ frame ∈ frames, Framed decoders expectedVolumeIdentity frame)
    (hsize : (logBytes frames).length < 2 ^ 64) (n : ℕ) (hn : n ≤ (logBytes frames).length) :
    ∃ k ≤ frames.length,
      (logBytes (frames.take k)).length ≤ n ∧
      (k < frames.length → n < (logBytes (frames.take (k + 1))).length) ∧
      (decodeWalBytes decoders expectedVolumeIdentity {} none ((logBytes frames).take n)).status =
        .ok ∧
      (decodeWalBytes decoders expectedVolumeIdentity {} none ((logBytes frames).take n)).records =
        (frames.take k).map Prod.fst ∧
      (decodeWalBytes decoders expectedVolumeIdentity {} none
        ((logBytes frames).take n)).completePrefixBytes = (logBytes (frames.take k)).length ∧
      ((decodeWalBytes decoders expectedVolumeIdentity {} none
        ((logBytes frames).take n)).recoveredTornTail = true ↔
        ¬ ∃ j ≤ frames.length, (logBytes (frames.take j)).length = n) := by
  refine ⟨fitting n frames, fitting_le_length n frames, length_logBytes_take_fitting_le n frames,
    lt_length_logBytes_take_fitting n, ?_⟩
  rw [decodeWalBytes_take_eq hframes hsize hn]
  refine ⟨rfl, rfl, rfl, ?_⟩
  dsimp only
  rw [decide_eq_true_eq, ne_eq, length_logBytes_take_fitting_eq_iff]

/-- Decoders that refuse everything, with a digest and a UTF-8 test that always
succeed. -/
def refusingDecoders : ProofDecoders where
  computeSha256 := fun _ => some (Vector.replicate 32 0)
  isStrictUtf8 := fun path => path != []
  decodeNativeCloneRange := fun _ => none
  decodeNativeSparse := fun _ => none
  decodeNativeSparseV2 := fun _ => none
  decodeNativeHardLink := fun _ => none
  decodeNativeSnapshotIntent := fun _ => none
  decodeNativeCountRepair := fun _ => none
  decodeNativeVolumeQuotaReserve := fun _ => none
  decodeNativeVolumeRename := fun _ => none
  decodeNativeClone := fun _ => none
  decodeCompressionRewrite := fun _ => none
  decodeInodeMetadataPatch := fun _ => none
  cloneRange_bounded := fun _ h => absurd rfl h
  sparse_bounded := fun _ h => absurd rfl h
  sparseV2_bounded := fun _ h => absurd rfl h
  hardLink_bounded := fun _ h => absurd rfl h
  snapshotIntent_bounded := fun _ h => absurd rfl h
  countRepair_bounded := fun _ h => absurd rfl h
  quotaReserve_bounded := fun _ h => absurd rfl h
  volumeRename_bounded := fun _ h => absurd rfl h
  clone_bounded := fun _ h => absurd rfl h
  compressionRewrite_bounded := fun _ h => absurd rfl h
  inodeMetadataPatch_bounded := fun _ h => absurd rfl h

/-- An inline write and the marker that accepts it. -/
def sampleRecords : List WalRecord :=
  [{ volumeIdentity := [0x76], transactionId := 1, sequence := 1, operation := .write,
     objectId := 7, payloadLength := 3, logicalLength := 3, inlinePayload := [1, 2, 3],
     pathUtf8 := [0x5c, 0x61] },
    { volumeIdentity := [0x76], transactionId := 1, sequence := 2, operation := .transactionMarker,
      state := stateCode .accepted, logicalLength := 1, flags := 8 }]

/-- The two records with their encodings. -/
def sampleFrames : List (WalRecord × Bytes) :=
  sampleRecords.map fun record => (record, (encodeWalRecord refusingDecoders record 0).getD [])

theorem decodeWalBytes_take_sample :
    (decodeWalBytes refusingDecoders [0x76] {} none ((logBytes sampleFrames).take 200)).status =
        .ok ∧
      (logBytes sampleFrames).length = 307 ∧
      ∃ k, (decodeWalBytes refusingDecoders [0x76] {} none
        ((logBytes sampleFrames).take 200)).records = (sampleFrames.take k).map Prod.fst := by
  have hframes : ∀ frame ∈ sampleFrames, Framed refusingDecoders [0x76] frame := by
    intro frame hframe
    simp only [sampleFrames, sampleRecords, List.map_cons, List.map_nil, List.mem_cons,
      List.not_mem_nil, or_false] at hframe
    rcases hframe with rfl | rfl
    · exact ⟨⟨0, by decide, by decide +kernel⟩, by decide +kernel, .inr rfl⟩
    · exact ⟨⟨0, by decide, by decide +kernel⟩, by decide +kernel, .inr rfl⟩
  have hlength : (logBytes sampleFrames).length = 307 := by decide +kernel
  obtain ⟨k, -, -, -, hstatus, hrecords, -⟩ := decodeWalBytes_take refusingDecoders [0x76]
    sampleFrames hframes (by rw [hlength]; norm_num) 200 (by rw [hlength]; norm_num)
  exact ⟨hstatus, hlength, k, hrecords⟩

end Wal
end ApfsAccess
