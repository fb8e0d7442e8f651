import ApfsAccess.Delta.RoundTrip

/-!
# The wire format of a chain of deltas

`EncodeChain` checks that the deltas follow one another, writes a header of forty-four bytes with
their number, and then every delta with its length in front.  `DecodeChain` reads as many deltas
as the header says and wants nothing to be left.

The number of deltas is cast to thirty-two bits, and nothing else bounds it: the estimate checks
the length of every delta and the length of the whole, not the count.  A chain of `2 ^ 32` deltas
or more is encoded with a count that says less.
-/

namespace ApfsAccess
namespace Delta

open ByteBuffer Format Cursor

/-- `kChainMagic`. -/
def chainMagic : UInt32 := 0x43465041

/-- `kChainHeaderBytes`. -/
def chainHeaderBytes : UInt32 := 44

/-! ## Encoding -/

/-- The first loop of `EncodeChain`: the last checkpoint of a chain that is in order. -/
def chainTarget (volumeIdentity : Bytes) : UInt64 → List CheckpointDelta → Option UInt64
  | targetXid, [] => some targetXid
  | targetXid, delta :: rest =>
    if delta.volumeIdentity ≠ volumeIdentity ∨ delta.baseXid ≠ targetXid ∨
        isValidXidRange delta.baseXid delta.targetXid = false then none
    else chainTarget volumeIdentity delta.targetXid rest

/-- The bytes of one delta of a chain are reserved. -/
def reserveDelta (reserveBytes : ℕ) (delta : CheckpointDelta) : Option ℕ := do
  let deltaBytes ← estimateEncodedDeltaBytes delta
  addLengthPrefixedBytes reserveBytes deltaBytes

/-- The last loop of `EncodeChain`. -/
def writeDeltas : List CheckpointDelta → Option Bytes
  | [] => some []
  | delta :: rest =>
    if encode delta = [] then none
    else (writeDeltas rest).map (appendBytes (encode delta) ++ ·)

/-- The bytes of a chain with a checksum in its place. -/
def chainBytes (volumeIdentity : Bytes) (baseXid targetXid : UInt64) (count : ℕ)
    (records : Bytes) (checksum : UInt32) : Bytes :=
  appendU32 chainMagic ++ (appendU16 version ++ (appendU16 0 ++ (appendU32 chainHeaderBytes ++
    (appendU32 checksum ++ (appendU64 (hashVolumeIdentity volumeIdentity) ++
    (appendU64 baseXid ++ (appendU64 targetXid ++ (appendU32 (UInt32.ofNat count) ++
    records))))))))

/-- `CheckpointDeltaCodec::EncodeChain`. -/
def encodeChain (deltas : List CheckpointDelta) (volumeIdentity : Bytes) (baseXid : UInt64) :
    Bytes :=
  match chainTarget volumeIdentity baseXid deltas with
  | none => []
  | some targetXid =>
    match deltas.foldlM reserveDelta chainHeaderBytes.toNat, writeDeltas deltas with
    | some reserveBytes, some records =>
      let out := chainBytes volumeIdentity baseXid targetXid deltas.length records 0
      if out.length ≠ reserveBytes then [] else patchU32 out 12 (computeChecksum out)
    | _, _ => []

/-! ## Decoding -/

/-- `CheckpointDeltaChainParseResult`. -/
structure ChainParseResult where
  status : ParseStatus := .invalidHeader
  baseXid : UInt64 := 0
  targetXid : UInt64 := 0
  deltas : List CheckpointDelta := []
  deriving DecidableEq, Repr

/-- The loop of `DecodeChain`: the checkpoint it has come to, the bytes that are left, and the
deltas. -/
def decodeDeltas (expectedVolumeIdentity : Bytes) :
    ℕ → Bytes → UInt64 → List CheckpointDelta →
      Except ParseStatus (UInt64 × Bytes × List CheckpointDelta)
  | 0, rest, expectedBase, deltas => .ok (expectedBase, rest, deltas)
  | count + 1, rest, expectedBase, deltas =>
    match readBytes.run rest with
    | none => .error .truncated
    | some (encoded, rest) =>
      match decode encoded expectedVolumeIdentity with
      | .error status => .error status
      | .ok delta =>
        if delta.baseXid ≠ expectedBase then .error .invalidXid
        else decodeDeltas expectedVolumeIdentity count rest delta.targetXid (deltas ++ [delta])

/-- The fields of the header of a chain: those of a delta, and the number of records. -/
def readChainHeader : Reader UInt8 (Header × UInt32) := do
  let header ← readHeader
  let recordCount ← readU32
  pure (header, recordCount)

/-- `CheckpointDeltaCodec::DecodeChain`. -/
def decodeChain (bytes expectedVolumeIdentity : Bytes) (expectedBaseXid : UInt64) :
    ChainParseResult :=
  if bytes = [] then { status := .empty }
  else if bytes.length < chainHeaderBytes.toNat then { status := .truncated }
  else
    match readChainHeader.run bytes with
    | none => { status := .truncated }
    | some ((header, recordCount), records) =>
      if header.magic ≠ chainMagic ∨ header.headerBytes ≠ chainHeaderBytes ∨
          header.flags ≠ 0 then { status := .invalidHeader }
      else if header.version ≠ version then { status := .unsupportedVersion }
      else if header.checksum ≠ computeChecksum bytes then { status := .invalidChecksum }
      else if header.baseXid = 0 ∨ header.baseXid ≠ expectedBaseXid then
        { status := .invalidXid }
      else if expectedVolumeIdentity = [] ∨
          header.volumeHash ≠ hashVolumeIdentity expectedVolumeIdentity then
        { status := .wrongVolume }
      else
        match decodeDeltas expectedVolumeIdentity recordCount.toNat records header.baseXid [] with
        | .error status =>
          { status := status, baseXid := header.baseXid, targetXid := header.targetXid }
        | .ok (expectedBase, rest, deltas) =>
          if rest ≠ [] ∨ expectedBase ≠ header.targetXid ∨
              recordCount = 0 ∧ header.targetXid ≠ header.baseXid then
            { status := .invalidXid, baseXid := header.baseXid, targetXid := header.targetXid }
          else
            { status := .ok, baseXid := header.baseXid, targetXid := header.targetXid,
              deltas := deltas }

/-! ## Chains -/

/-- **The deltas follow one another**, from a checkpoint on, in one volume. -/
def FormsChain (volumeIdentity : Bytes) : UInt64 → List CheckpointDelta → Prop
  | _, [] => True
  | baseXid, delta :: rest =>
    delta.volumeIdentity = volumeIdentity ∧ delta.baseXid = baseXid ∧
      FormsChain volumeIdentity delta.targetXid rest

/-- The checkpoint that a chain ends with. -/
def chainEnd : UInt64 → List CheckpointDelta → UInt64
  | baseXid, [] => baseXid
  | _, delta :: rest => chainEnd delta.targetXid rest

variable {volumeIdentity : Bytes} {baseXid : UInt64} {deltas : List CheckpointDelta}

theorem chainTarget_of_formsChain (hchain : FormsChain volumeIdentity baseXid deltas)
    (hrange : ∀ delta ∈ deltas, isValidXidRange delta.baseXid delta.targetXid = true) :
    chainTarget volumeIdentity baseXid deltas = some (chainEnd baseXid deltas) := by
  induction deltas generalizing baseXid with
  | nil => rfl
  | cons delta rest ih =>
    obtain ⟨hidentity, rfl, hrest⟩ := hchain
    have hvalid := hrange delta List.mem_cons_self
    rw [chainTarget, if_neg (by simp [hidentity, hvalid]),
      ih hrest fun other hother => hrange other (List.mem_cons_of_mem _ hother)]
    rfl

/-- A delta that the encoder of chains may be given. -/
structure Sendable (delta : CheckpointDelta) : Prop where
  valid : delta.isValidForApply = true
  fits : delta.SectionsFit

theorem Sendable.range {delta : CheckpointDelta} (h : Sendable delta) :
    isValidXidRange delta.baseXid delta.targetXid = true :=
  (CheckpointDelta.isValidForApply_iff.mp h.valid).1

theorem Sendable.decode_encode {delta : CheckpointDelta} (h : Sendable delta) :
    decode (encode delta) delta.volumeIdentity = .ok delta :=
  Delta.decode_encode h.fits h.range (CheckpointDelta.isValidForApply_iff.mp h.valid).2.2

theorem Sendable.encode_ne_nil {delta : CheckpointDelta} (h : Sendable delta) :
    encode delta ≠ [] := by
  intro hnil
  have hlength := congrArg List.length hnil
  rw [encode_of_fit h.fits, length_deltaBytes, List.length_nil] at hlength
  omega

theorem writeDeltas_eq (h : ∀ delta ∈ deltas, Sendable delta) :
    writeDeltas deltas = some (deltas.flatMap fun delta => appendBytes (encode delta)) := by
  induction deltas with
  | nil => rfl
  | cons delta rest ih =>
    rw [writeDeltas, if_neg (h delta List.mem_cons_self).encode_ne_nil,
      ih fun other hother => h other (List.mem_cons_of_mem _ hother)]
    rfl

/-! ### What the encoder admits -/

/-- A delta whose bytes are reserved is no longer than its length field can say. -/
theorem length_encode_of_reserved {reserveBytes total : ℕ} (h : ∀ delta ∈ deltas, Sendable delta)
    (hreserve : deltas.foldlM reserveDelta reserveBytes = some total) :
    ∀ delta ∈ deltas, (encode delta).length ≤ uint32Max := by
  induction deltas generalizing reserveBytes with
  | nil => simp
  | cons delta rest ih =>
    obtain ⟨hdelta, hrest⟩ := List.forall_mem_cons.mp h
    rw [List.foldlM_cons, Option.bind_eq_bind, Option.bind_eq_some_iff] at hreserve
    obtain ⟨reserved, hfirst, hreserve⟩ := hreserve
    refine List.forall_mem_cons.mpr ⟨?_, ih hrest hreserve⟩
    have hlength : (encode delta).length = (deltaBytes delta 0).length := by
      rw [encode_of_fit hdelta.fits, length_deltaBytes, length_deltaBytes]
    unfold reserveDelta at hfirst
    rw [estimateEncodedDeltaBytes_of_fit hdelta.fits, Option.bind_eq_bind, Option.bind_some,
      addLengthPrefixedBytes] at hfirst
    split at hfirst
    · cases hfirst
    · omega

/-- The checksum that `EncodeChain` stores. -/
def storedChainChecksum (volumeIdentity : Bytes) (baseXid : UInt64)
    (deltas : List CheckpointDelta) : UInt32 :=
  computeChecksum (chainBytes volumeIdentity baseXid (chainEnd baseXid deltas) deltas.length
    (deltas.flatMap fun delta => appendBytes (encode delta)) 0)

/-- The bytes of a chain before and after its checksum. -/
theorem chainBytes_stamped (volumeIdentity : Bytes) (baseXid targetXid : UInt64) (count : ℕ)
    (records : Bytes) : ∃ front back : Bytes, front.length = 12 ∧ ∀ checksum,
      chainBytes volumeIdentity baseXid targetXid count records checksum =
        front ++ (appendU32 checksum ++ back) := by
  refine ⟨appendU32 chainMagic ++ (appendU16 version ++ (appendU16 0 ++
    appendU32 chainHeaderBytes)), appendU64 (hashVolumeIdentity volumeIdentity) ++
    (appendU64 baseXid ++ (appendU64 targetXid ++ (appendU32 (UInt32.ofNat count) ++ records))),
    by simp, fun checksum => ?_⟩
  simp only [chainBytes, List.append_assoc]

theorem length_chainBytes (targetXid : UInt64) (count : ℕ) (records : Bytes)
    (checksum : UInt32) :
    (chainBytes volumeIdentity baseXid targetXid count records checksum).length =
      44 + records.length := by
  simp only [chainBytes, List.length_append, length_appendU16, length_appendU32, length_appendU64]
  omega

/-- **What `EncodeChain` writes**, when it writes anything. -/
theorem encodeChain_of_ne_nil (hchain : FormsChain volumeIdentity baseXid deltas)
    (hsend : ∀ delta ∈ deltas, Sendable delta)
    (hencoded : encodeChain deltas volumeIdentity baseXid ≠ []) :
    (∀ delta ∈ deltas, (encode delta).length ≤ uint32Max) ∧
      encodeChain deltas volumeIdentity baseXid =
        chainBytes volumeIdentity baseXid (chainEnd baseXid deltas) deltas.length
          (deltas.flatMap fun delta => appendBytes (encode delta))
          (storedChainChecksum volumeIdentity baseXid deltas) := by
  obtain ⟨front, back, hfront, hbytes⟩ := chainBytes_stamped volumeIdentity baseXid
    (chainEnd baseXid deltas) deltas.length
    (deltas.flatMap fun delta => appendBytes (encode delta))
  unfold encodeChain at hencoded ⊢
  rw [chainTarget_of_formsChain hchain fun delta hdelta => (hsend delta hdelta).range,
    writeDeltas_eq hsend] at hencoded ⊢
  cases hreserve : deltas.foldlM reserveDelta chainHeaderBytes.toNat with
  | none =>
    rw [hreserve] at hencoded
    exact absurd rfl hencoded
  | some total =>
    rw [hreserve] at hencoded
    refine ⟨length_encode_of_reserved hsend hreserve, ?_⟩
    dsimp only at hencoded ⊢
    unfold storedChainChecksum
    split at hencoded
    · exact absurd rfl hencoded
    · rename_i hlength
      rw [if_neg hlength, hbytes, patchU32_stamped hfront, hbytes]

/-! ### Decoding the records -/

/-- **The deltas of a chain are decoded one after the other.** -/
theorem decodeDeltas_flatMap (hchain : FormsChain volumeIdentity baseXid deltas)
    (hsend : ∀ delta ∈ deltas, Sendable delta)
    (hlength : ∀ delta ∈ deltas, (encode delta).length ≤ uint32Max)
    (rest : Bytes) (before : List CheckpointDelta) :
    decodeDeltas volumeIdentity deltas.length
        ((deltas.flatMap fun delta => appendBytes (encode delta)) ++ rest) baseXid before =
      .ok (chainEnd baseXid deltas, rest, before ++ deltas) := by
  induction deltas generalizing baseXid before with
  | nil =>
    rw [List.append_nil]
    rfl
  | cons delta others ih =>
    obtain ⟨rfl, rfl, hothers⟩ := hchain
    obtain ⟨hdelta, hsend⟩ := List.forall_mem_cons.mp hsend
    obtain ⟨hfirst, hlength⟩ := List.forall_mem_cons.mp hlength
    rw [List.length_cons, decodeDeltas, List.flatMap_cons, List.append_assoc,
      reads_readBytes hfirst]
    dsimp only
    rw [hdelta.decode_encode]
    dsimp only
    rw [if_neg (not_not.mpr rfl), ih hothers hsend hlength, List.append_assoc,
      List.singleton_append]
    rfl

theorem FormsChain.take (hchain : FormsChain volumeIdentity baseXid deltas) (count : ℕ) :
    FormsChain volumeIdentity baseXid (deltas.take count) := by
  induction deltas generalizing baseXid count with
  | nil =>
    rw [List.take_nil]
    trivial
  | cons delta rest ih =>
    cases count with
    | zero => trivial
    | succ count => exact ⟨hchain.1, hchain.2.1, ih hchain.2.2 count⟩

/-- The first deltas of a chain are decoded, and the others are left. -/
theorem decodeDeltas_take (hchain : FormsChain volumeIdentity baseXid deltas)
    (hsend : ∀ delta ∈ deltas, Sendable delta)
    (hlength : ∀ delta ∈ deltas, (encode delta).length ≤ uint32Max) {count : ℕ}
    (hcount : count ≤ deltas.length) :
    decodeDeltas volumeIdentity count
        (deltas.flatMap fun delta => appendBytes (encode delta)) baseXid [] =
      .ok (chainEnd baseXid (deltas.take count),
        (deltas.drop count).flatMap fun delta => appendBytes (encode delta),
        deltas.take count) := by
  have htake : (deltas.take count).length = count := List.length_take_of_le hcount
  have hdecode := decodeDeltas_flatMap (hchain.take count)
    (fun delta hdelta => hsend delta (List.mem_of_mem_take hdelta))
    (fun delta hdelta => hlength delta (List.mem_of_mem_take hdelta))
    ((deltas.drop count).flatMap fun delta => appendBytes (encode delta)) []
  rwa [htake, ← List.flatMap_append, List.take_append_drop, List.nil_append] at hdecode

theorem reads_readChainHeader (header : Header) (recordCount : UInt32) :
    Reads readChainHeader ((appendU32 header.magic ++ (appendU16 header.version ++
      (appendU16 header.flags ++ (appendU32 header.headerBytes ++ (appendU32 header.checksum ++
      (appendU64 header.volumeHash ++ (appendU64 header.baseXid ++
      appendU64 header.targetXid))))))) ++ appendU32 recordCount) (header, recordCount) :=
  (reads_readHeader header).bind ((reads_readU32 _).finish (Reads.pure _))

/-- **What `EncodeChain` wrote passes the checks on the header.** -/
theorem decodeChain_chainBytes (hbase : baseXid ≠ 0) (hidentity : volumeIdentity ≠ []) :
    decodeChain (chainBytes volumeIdentity baseXid (chainEnd baseXid deltas) deltas.length
        (deltas.flatMap fun delta => appendBytes (encode delta))
        (storedChainChecksum volumeIdentity baseXid deltas)) volumeIdentity baseXid =
      match decodeDeltas volumeIdentity (UInt32.ofNat deltas.length).toNat
        (deltas.flatMap fun delta => appendBytes (encode delta)) baseXid [] with
      | .error status =>
        { status := status, baseXid := baseXid, targetXid := chainEnd baseXid deltas }
      | .ok (expectedBase, rest, decoded) =>
        if rest ≠ [] ∨ expectedBase ≠ chainEnd baseXid deltas ∨
            UInt32.ofNat deltas.length = 0 ∧ chainEnd baseXid deltas ≠ baseXid then
          { status := .invalidXid, baseXid := baseXid, targetXid := chainEnd baseXid deltas }
        else
          { status := .ok, baseXid := baseXid, targetXid := chainEnd baseXid deltas,
            deltas := decoded } := by
  generalize hrecords : (deltas.flatMap fun delta => appendBytes (encode delta)) = records
  generalize hchecksum : storedChainChecksum volumeIdentity baseXid deltas = checksum
  have hstored : computeChecksum (chainBytes volumeIdentity baseXid (chainEnd baseXid deltas)
      deltas.length records checksum) = checksum := by
    obtain ⟨front, back, hfront, hbytes⟩ := chainBytes_stamped volumeIdentity baseXid
      (chainEnd baseXid deltas) deltas.length records
    rw [← hchecksum, storedChainChecksum, hrecords, hbytes, hbytes]
    exact computeChecksum_stamped hfront _ _
  have hlength : (chainBytes volumeIdentity baseXid (chainEnd baseXid deltas) deltas.length records
      checksum).length = 44 + records.length := length_chainBytes _ _ _ _
  have hne : ¬ chainBytes volumeIdentity baseXid (chainEnd baseXid deltas) deltas.length records
      checksum = [] := by
    intro hnil
    rw [hnil, List.length_nil] at hlength
    omega
  have hsplit := reads_readChainHeader ⟨chainMagic, version, 0, chainHeaderBytes, checksum,
    hashVolumeIdentity volumeIdentity, baseXid, chainEnd baseXid deltas⟩
    (UInt32.ofNat deltas.length) records
  simp only [List.append_assoc] at hsplit
  have hheader : readChainHeader.run (chainBytes volumeIdentity baseXid (chainEnd baseXid deltas)
    deltas.length records checksum) = _ := hsplit
  have hbytes : chainHeaderBytes.toNat = 44 := rfl
  unfold decodeChain
  rw [if_neg hne, if_neg (by omega), hheader]
  dsimp only
  rw [if_neg (by simp), if_neg (by simp), if_neg (not_not.mpr hstored.symm),
    if_neg (by simp [hbase]), if_neg (by simp [hidentity])]

/-! ## The round trip -/

/-- A chain with too many deltas leaves some of them unread. -/
theorem decodeChain_of_le (hchain : FormsChain volumeIdentity baseXid deltas)
    (hsend : ∀ delta ∈ deltas, Sendable delta)
    (hlength : ∀ delta ∈ deltas, (encode delta).length ≤ uint32Max)
    (hbase : baseXid ≠ 0) (hidentity : volumeIdentity ≠ []) (hcount : 2 ^ 32 ≤ deltas.length) :
    (decodeChain (chainBytes volumeIdentity baseXid (chainEnd baseXid deltas) deltas.length
        (deltas.flatMap fun delta => appendBytes (encode delta))
        (storedChainChecksum volumeIdentity baseXid deltas)) volumeIdentity baseXid).status =
      .invalidXid := by
  have hread : (UInt32.ofNat deltas.length).toNat = deltas.length % 2 ^ 32 :=
    UInt32.toNat_ofNat'
  have hmod : deltas.length % 2 ^ 32 < 2 ^ 32 := Nat.mod_lt _ (by norm_num)
  have hrest : ((deltas.drop (deltas.length % 2 ^ 32)).flatMap fun delta =>
      appendBytes (encode delta)) ≠ [] := by
    intro hnil
    have hzero := congrArg List.length hnil
    have hle : (deltas.drop (deltas.length % 2 ^ 32)).length ≤ payloadLength
        (fun delta => appendBytes (encode delta)) (deltas.drop (deltas.length % 2 ^ 32)) :=
      length_le_payloadLength fun delta => by rw [length_appendBytes]; omega
    unfold payloadLength at hle
    rw [hzero, List.length_nil, List.length_drop] at hle
    omega
  rw [decodeChain_chainBytes hbase hidentity, hread,
    decodeDeltas_take hchain hsend hlength (by omega)]
  dsimp only
  rw [if_pos (.inl hrest)]

/-- A chain whose number of deltas fits the header is decoded to itself. -/
theorem decodeChain_of_lt (hchain : FormsChain volumeIdentity baseXid deltas)
    (hsend : ∀ delta ∈ deltas, Sendable delta)
    (hlength : ∀ delta ∈ deltas, (encode delta).length ≤ uint32Max)
    (hbase : baseXid ≠ 0) (hidentity : volumeIdentity ≠ []) (hnonempty : deltas ≠ [])
    (hcount : deltas.length < 2 ^ 32) :
    decodeChain (chainBytes volumeIdentity baseXid (chainEnd baseXid deltas) deltas.length
        (deltas.flatMap fun delta => appendBytes (encode delta))
        (storedChainChecksum volumeIdentity baseXid deltas)) volumeIdentity baseXid =
      { status := .ok, baseXid := baseXid, targetXid := chainEnd baseXid deltas,
        deltas := deltas } := by
  have hread : (UInt32.ofNat deltas.length).toNat = deltas.length :=
    toNat_ofNat_of_le (by unfold uint32Max; omega)
  have hzero : UInt32.ofNat deltas.length ≠ 0 := by
    intro hzero
    rw [hzero] at hread
    exact hnonempty (List.length_eq_zero_iff.mp hread.symm)
  rw [decodeChain_chainBytes hbase hidentity, hread,
    decodeDeltas_take hchain hsend hlength (Nat.le_refl _), List.take_length, List.drop_length]
  dsimp only
  rw [if_neg (by simp [hzero])]

/-- **The wire format loses nothing but a count.**  A valid delta whose sections fit is decoded to
itself, and so is a chain of such deltas that the encoder admits, exactly as long as there are
fewer than `2 ^ 32` of them. -/
theorem checkpointDelta_roundTrip (volumeIdentity : Bytes) (baseXid : UInt64)
    (deltas : List CheckpointDelta) :
    (∀ delta : CheckpointDelta, delta.isValidForApply = true → delta.SectionsFit →
      decode (encode delta) delta.volumeIdentity = .ok delta) ∧
    (deltas ≠ [] → FormsChain volumeIdentity baseXid deltas →
      (∀ delta ∈ deltas, delta.isValidForApply = true ∧ delta.SectionsFit) →
      encodeChain deltas volumeIdentity baseXid ≠ [] →
      ((decodeChain (encodeChain deltas volumeIdentity baseXid) volumeIdentity baseXid).status =
            .ok ∧
          (decodeChain (encodeChain deltas volumeIdentity baseXid) volumeIdentity
            baseXid).deltas = deltas ↔
        deltas.length < 2 ^ 32)) := by
  refine ⟨fun delta hvalid hfit => (Sendable.mk hvalid hfit).decode_encode, ?_⟩
  intro hnonempty hchain hvalid hencoded
  have hsend : ∀ delta ∈ deltas, Sendable delta := fun delta hdelta =>
    ⟨(hvalid delta hdelta).1, (hvalid delta hdelta).2⟩
  obtain ⟨hlength, hbytes⟩ := encodeChain_of_ne_nil hchain hsend hencoded
  -- the first delta says that the volume has a name and the chain a checkpoint to start from
  obtain ⟨hbase, hidentity⟩ : baseXid ≠ 0 ∧ volumeIdentity ≠ [] := by
    cases deltas with
    | nil => exact absurd rfl hnonempty
    | cons delta rest =>
      obtain ⟨rfl, rfl, -⟩ := hchain
      obtain ⟨hrange, hname, -⟩ := CheckpointDelta.isValidForApply_iff.mp
        (hvalid delta List.mem_cons_self).1
      refine ⟨?_, hname⟩
      intro hzero
      simp [isValidXidRange, hzero] at hrange
  rw [hbytes]
  constructor
  · rintro ⟨hok, -⟩
    by_contra hcount
    rw [decodeChain_of_le hchain hsend hlength hbase hidentity (by omega)] at hok
    cases hok
  · intro hcount
    rw [decodeChain_of_lt hchain hsend hlength hbase hidentity hnonempty hcount]
    exact ⟨rfl, rfl⟩

/-! ### A chain that is too long -/

/-- The delta without records from a checkpoint to the next one. -/
def emptyDelta (index : ℕ) : CheckpointDelta where
  volumeIdentity := [1]
  baseXid := UInt64.ofNat (index + 1)
  targetXid := UInt64.ofNat (index + 2)

/-- A chain of deltas without records. -/
def emptyChain (start count : ℕ) : List CheckpointDelta :=
  (List.range' start count).map emptyDelta

theorem sendable_emptyDelta {index : ℕ} (h : index + 2 < 2 ^ 64) : Sendable (emptyDelta index) := by
  have hbase : (UInt64.ofNat (index + 1)).toNat = index + 1 := by
    rw [UInt64.toNat_ofNat']
    exact Nat.mod_eq_of_lt (by omega)
  have htarget : (UInt64.ofNat (index + 2)).toNat = index + 2 := by
    rw [UInt64.toNat_ofNat']
    exact Nat.mod_eq_of_lt h
  have hnext : UInt64.ofNat (index + 2) = UInt64.ofNat (index + 1) + 1 := by
    apply UInt64.toNat_inj.mp
    rw [htarget, UInt64.toNat_add, hbase]
    exact (Nat.mod_eq_of_lt h).symm
  have hbaseNe : UInt64.ofNat (index + 1) ≠ 0 := by
    intro hzero
    rw [hzero] at hbase
    exact absurd hbase (by simp)
  have htargetNe : UInt64.ofNat (index + 2) ≠ 0 := by
    intro hzero
    rw [hzero] at htarget
    exact absurd htarget (by simp)
  have hlt : UInt64.ofNat (index + 1) < UInt64.ofNat (index + 2) := by
    rw [UInt64.lt_iff_toNat_lt, hbase, htarget]
    omega
  refine ⟨CheckpointDelta.isValidForApply_iff.mpr ⟨?_, by simp [emptyDelta], ?_⟩, ?_⟩
  · unfold isValidXidRange emptyDelta
    dsimp only
    simp only [Bool.and_eq_true, bne_iff_ne, decide_eq_true_eq, beq_iff_eq]
    exact ⟨⟨⟨hbaseNe, htargetNe⟩, hlt⟩, hnext⟩
  · constructor <;> simp [emptyDelta]
  · constructor <;> simp [emptyDelta, payloadLength]

theorem sendable_of_mem_emptyChain {start count : ℕ} (h : start + count + 1 < 2 ^ 64) :
    ∀ delta ∈ emptyChain start count, Sendable delta := by
  intro delta hdelta
  obtain ⟨index, hindex, rfl⟩ := List.mem_map.mp hdelta
  rw [List.mem_range'_1] at hindex
  exact sendable_emptyDelta (by omega)

theorem formsChain_emptyChain (start count : ℕ) :
    FormsChain [1] (UInt64.ofNat (start + 1)) (emptyChain start count) := by
  induction count generalizing start with
  | zero => trivial
  | succ count ih =>
    rw [emptyChain, List.range'_succ, List.map_cons]
    exact ⟨rfl, rfl, ih (start + 1)⟩

theorem length_emptyDelta (index : ℕ) : (deltaBytes (emptyDelta index) 0).length = 94 := by
  rw [length_deltaBytes]
  simp only [writeSections, List.length_append, length_writeSection]
  simp [emptyDelta, payloadLength]

/-- Ninety-eight bytes for every delta without records. -/
theorem foldlM_reserveDelta_emptyChain {start count reserveBytes : ℕ}
    (h : start + count + 1 < 2 ^ 64) (hreserve : reserveBytes + count * 98 ≤ sizeMax) :
    (emptyChain start count).foldlM reserveDelta reserveBytes =
      some (reserveBytes + count * 98) := by
  induction count generalizing start reserveBytes with
  | zero => rfl
  | succ count ih =>
    have hfirst : reserveDelta reserveBytes (emptyDelta start) = some (reserveBytes + 98) := by
      unfold reserveDelta
      rw [estimateEncodedDeltaBytes_of_fit (sendable_emptyDelta (by omega)).fits,
        length_emptyDelta, Option.bind_eq_bind, Option.bind_some,
        addLengthPrefixedBytes_of_le (by unfold uint32Max; omega) (by omega)]
    have hrest : (emptyChain (start + 1) count).foldlM reserveDelta (reserveBytes + 98) =
        some (reserveBytes + 98 + count * 98) := ih (by omega) (by omega)
    rw [emptyChain, List.range'_succ, List.map_cons, List.foldlM_cons, hfirst,
      Option.bind_eq_bind, Option.bind_some]
    refine hrest.trans ?_
    congr 1
    omega

theorem length_flatMap_emptyChain {start count : ℕ} (h : start + count + 1 < 2 ^ 64) :
    ((emptyChain start count).flatMap fun delta => appendBytes (encode delta)).length =
      count * 98 := by
  induction count generalizing start with
  | zero => rfl
  | succ count ih =>
    have hrest : ((emptyChain (start + 1) count).flatMap fun delta =>
        appendBytes (encode delta)).length = count * 98 := ih (by omega)
    have hfirst : (encode (emptyDelta start)).length = 94 := by
      rw [encode_of_fit (sendable_emptyDelta (by omega)).fits, ← length_emptyDelta start,
        length_deltaBytes, length_deltaBytes]
    rw [emptyChain, List.range'_succ, List.map_cons, List.flatMap_cons, List.length_append,
      length_appendBytes, hfirst]
    unfold emptyChain at hrest
    rw [hrest]
    omega

/-- **The encoder admits chains of any number of deltas without records** that fit an address
space. -/
theorem encodeChain_emptyChain_ne_nil {start count : ℕ} (h : start + count + 1 < 2 ^ 64)
    (hsize : 44 + count * 98 ≤ sizeMax) :
    encodeChain (emptyChain start count) [1] (UInt64.ofNat (start + 1)) ≠ [] := by
  have hsend := sendable_of_mem_emptyChain h
  have hheader : chainHeaderBytes.toNat = 44 := rfl
  obtain ⟨front, back, hfront, hbytes⟩ := chainBytes_stamped [1] (UInt64.ofNat (start + 1))
    (chainEnd (UInt64.ofNat (start + 1)) (emptyChain start count)) (emptyChain start count).length
    ((emptyChain start count).flatMap fun delta => appendBytes (encode delta))
  unfold encodeChain
  rw [chainTarget_of_formsChain (formsChain_emptyChain start count) fun delta hdelta =>
    (hsend delta hdelta).range, writeDeltas_eq hsend, hheader,
    foldlM_reserveDelta_emptyChain h hsize]
  dsimp only
  rw [if_neg (by rw [length_chainBytes, length_flatMap_emptyChain h]; simp), hbytes,
    patchU32_stamped hfront]
  intro hnil
  have hzero := congrArg List.length hnil
  rw [List.length_append, hfront, List.length_nil] at hzero
  omega

theorem length_emptyChain (start count : ℕ) : (emptyChain start count).length = count := by
  rw [emptyChain, List.length_map, List.length_range']

/-- **A chain of `2 ^ 32` deltas that the encoder admits is not decoded to itself.** -/
theorem decodeChain_emptyChain_ne :
    emptyChain 0 (2 ^ 32) ≠ [] ∧ FormsChain [1] 1 (emptyChain 0 (2 ^ 32)) ∧
      (∀ delta ∈ emptyChain 0 (2 ^ 32), delta.isValidForApply = true ∧ delta.SectionsFit) ∧
      encodeChain (emptyChain 0 (2 ^ 32)) [1] 1 ≠ [] ∧
      ¬ ((decodeChain (encodeChain (emptyChain 0 (2 ^ 32)) [1] 1) [1] 1).status = .ok ∧
        (decodeChain (encodeChain (emptyChain 0 (2 ^ 32)) [1] 1) [1] 1).deltas =
          emptyChain 0 (2 ^ 32)) := by
  have hcount := length_emptyChain 0 (2 ^ 32)
  have hsend : ∀ delta ∈ emptyChain 0 (2 ^ 32), Sendable delta :=
    sendable_of_mem_emptyChain (by norm_num)
  have hchain : FormsChain [1] 1 (emptyChain 0 (2 ^ 32)) := formsChain_emptyChain 0 (2 ^ 32)
  have hencoded : encodeChain (emptyChain 0 (2 ^ 32)) [1] 1 ≠ [] :=
    encodeChain_emptyChain_ne_nil (by norm_num) (by unfold sizeMax; norm_num)
  generalize emptyChain 0 (2 ^ 32) = deltas at *
  obtain ⟨hlength, hbytes⟩ := encodeChain_of_ne_nil hchain hsend hencoded
  refine ⟨?_, hchain, fun delta hdelta => ⟨(hsend delta hdelta).valid, (hsend delta hdelta).fits⟩,
    hencoded, ?_⟩
  · rintro rfl
    rw [List.length_nil] at hcount
    omega
  · rintro ⟨hok, -⟩
    rw [hbytes, decodeChain_of_le hchain hsend hlength (by decide) (by decide)
      (by omega)] at hok
    cases hok

/-- A delta with one entry of the object map. -/
def sampleDelta : CheckpointDelta where
  volumeIdentity := [1]
  baseXid := 1
  targetXid := 2
  objectMapUpdates := [⟨42, 65536, 4096, 2, false⟩]

/-- The round trip of a chain of two deltas. -/
theorem checkpointDelta_roundTrip_sample :
    decode (encode sampleDelta) [1] = .ok sampleDelta ∧
      (decodeChain (encodeChain [sampleDelta, emptyDelta 1] [1] 1) [1] 1).deltas =
        [sampleDelta, emptyDelta 1] := by
  have hfit : sampleDelta.SectionsFit := by
    constructor <;> simp [sampleDelta, payloadLength, uint32Max]
  have hvalid : sampleDelta.isValidForApply = true := by decide
  have hempty := @sendable_emptyDelta 1 (by norm_num)
  obtain ⟨hone, hchain⟩ := checkpointDelta_roundTrip [1] 1 [sampleDelta, emptyDelta 1]
  refine ⟨hone sampleDelta hvalid hfit, ((hchain (by simp) ?_ ?_ ?_).mpr (by decide)).2⟩
  · exact ⟨rfl, rfl, rfl, rfl, trivial⟩
  · simp [hfit, hvalid, hempty.valid, hempty.fits]
  · decide +kernel

end Delta
end ApfsAccess
