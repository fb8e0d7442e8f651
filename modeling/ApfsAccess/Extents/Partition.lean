import ApfsAccess.Extents.ChangeAccounting

/-!
# The changes of the file extents partition the old mappings

`CollectFileExtentChanges` takes an old file extent apart: what the requested extents keep of it,
and the fragments that are reported as removed.  This module follows that by logical address, for
the encrypted admission as well as the plain one.

* `collectFileExtentChangesWith_false` : without encryption this is the plain comparison.
* `removedFragments_partition` : the walk over the kept parts of one old extent reports exactly
  what lies between them.
* `collectFileExtentChanges_partition` : **every address of an old extent is kept or removed, and
  not both.**

Two kinds of requested extent keep nothing although they map what the old extent mapped: the
references that a clone adds (`addsReference`), and a hole that reaches over the end of an old
hole, which is written anew.
-/

namespace ApfsAccess
namespace Extents

open Format ByteBuffer Sorting

/-! ## The encrypted admission -/

/-- `AppleEncryptedFileExtentRecord`. -/
structure AppleEncryptedFileExtentRecord where
  extent : AppleFileExtentRecord
  flags : ℕ
  deriving DecidableEq, Repr

/-- `DecodeFileExtentFields`. -/
def decodeFileExtentFields (record : BtreeRecord) (blockSize allowedFlags : ℕ) :
    Except String AppleEncryptedFileExtentRecord :=
  if record.key.length ≠ 16 ∨ record.value.length ≠ 24 then
    .error "AppleFileExtentRecordInvalid"
  else
    let lengthAndFlags := (readU64LE record.value 0).getD 0
    let header := keyHeader record
    let decoded : AppleFileExtentRecord :=
      { objectId := recordObjectId header
        logicalAddress := (readU64LE record.key 8).getD 0
        lengthBytes := lengthAndFlags % 2 ^ 56
        physicalBlock := (readU64LE record.value 8).getD 0
        cryptoId := (readU64LE record.value 16).getD 0
        blockSize := blockSize }
    if lengthAndFlags / 2 ^ 56 ||| allowedFlags ≠ allowedFlags then
      .error (if allowedFlags ≠ 0 then "AppleEncryptedFileExtentFlagsUnsupported"
        else "AppleFileExtentRecordInvalid")
    else if recordType header ≠ 8 ∨ decoded.objectId = 0 ∨ blockSize = 0 ∨
        !isPowerOfTwo blockSize ∨ decoded.lengthBytes = 0 ∨
        (decoded.physicalBlock = 0 ∧ decoded.cryptoId ≠ 0) ∨
        decoded.logicalAddress % blockSize ≠ 0 ∨ decoded.lengthBytes % blockSize ≠ 0 ∨
        2 ^ 64 - 1 - decoded.logicalAddress < decoded.lengthBytes ∨
        2 ^ 64 - 1 - decoded.physicalBlock < decoded.lengthBytes / blockSize then
      .error "AppleFileExtentRecordInvalid"
    else
      .ok ⟨decoded, lengthAndFlags / 2 ^ 56⟩

/-- `ValidateEncryptedExtent`, with the profile `OneKeyGenerationZero`. -/
def validateEncryptedExtent (value : AppleEncryptedFileExtentRecord) : Except String Unit :=
  let extent := value.extent
  if value.flags ||| 1 ≠ 1 then .error "AppleEncryptedFileExtentFlagsUnsupported"
  else if extent.blockSize < 4096 ∨ 65536 < extent.blockSize ∨ !isPowerOfTwo extent.blockSize then
    .error "AppleEncryptedFileExtentBlockSizeInvalid"
  else if extent.lengthBytes = 0 ∨ extent.lengthBytes % extent.blockSize ≠ 0 ∨
      2 ^ 64 - 1 - extent.logicalAddress < extent.lengthBytes ∨
      2 ^ 64 - 1 - extent.physicalBlock < extent.lengthBytes / extent.blockSize then
    .error "AppleFileExtentRecordInvalid"
  else if extent.physicalBlock = 0 then
    if extent.cryptoId = 0 then .ok () else .error "AppleEncryptedFileExtentCryptoIdInvalid"
  else
    let blocks := extent.lengthBytes / extent.blockSize
    let units := extent.blockSize / 512
    if extent.cryptoId = 0 ∨ 2 ^ 64 - 1 - extent.cryptoId < blocks - 1 ∨
        (2 ^ 64 - 1 - (units - 1)) / units < extent.cryptoId + blocks - 1 then
      .error "AppleEncryptedFileExtentCryptoIdInvalid"
    else .ok ()

/-- `DecodeAppleEncryptedFileExtentRecord`, with the profile `OneKeyGenerationZero`. -/
def decodeAppleEncryptedFileExtentRecord (record : BtreeRecord) (blockSize : ℕ) :
    Except String AppleEncryptedFileExtentRecord :=
  match decodeFileExtentFields record blockSize 1 with
  | .error reason => .error reason
  | .ok decoded =>
    match validateEncryptedExtent decoded with
    | .error reason => .error reason
    | .ok () => .ok decoded

/-- `DecodeFileExtentUse`, with its `encrypted` argument. -/
def decodeFileExtentUseWith (encrypted : Bool) (record : BtreeRecord) (blockSize : ℕ)
    (owners : ExternalStreamOwners) : Option FileExtentUse :=
  if encrypted then
    match decodeAppleEncryptedFileExtentRecord record blockSize with
    | .error _ => none
    | .ok decoded =>
      some ⟨decoded.extent, some record, physicalStreamOwner owners decoded.extent.objectId⟩
  else decodeFileExtentUse record blockSize owners

/-- The file extents of a record list, decoded. -/
def decodeFileExtentUsesWith (encrypted : Bool) (records : List BtreeRecord) (blockSize : ℕ)
    (owners : ExternalStreamOwners) : Option (List FileExtentUse) :=
  (records.filter isFileExtentRecord).mapM fun record =>
    decodeFileExtentUseWith encrypted record blockSize owners

/-- The loop over the old records. -/
def collectOldUsesWith (encrypted : Bool) (blockSize : ℕ) (owners : ExternalStreamOwners) :
    List BtreeRecord → List FileExtentUse → Except String (List FileExtentUse)
  | [], uses => .ok uses
  | record :: rest, uses =>
    if !isFileExtentRecord record then
      collectOldUsesWith encrypted blockSize owners rest uses
    else
      match decodeFileExtentUseWith encrypted record blockSize owners with
      | none => .error "AppleVolumeFileExtentRecordInvalid"
      | some use =>
        if (uses.map FileExtentUse.key).contains use.key then
          .error "AppleVolumeFileExtentRecordDuplicate"
        else
          collectOldUsesWith encrypted blockSize owners rest (uses ++ [use])

/-- The profile of the old records.  With encryption the inodes are checked and contribute
nothing. -/
def streamProfileWith (encrypted : Bool) (records : List BtreeRecord) (uses : List FileExtentUse)
    (owners : ExternalStreamOwners) (observational : Bool) : Except String StreamProfile :=
  if encrypted then
    match records.foldlM (profileInodeStep owners observational) {} with
    | .error reason => .error reason
    | .ok _ => .ok {}
  else streamProfile records uses owners observational

/-- One requested file extent.  With encryption no hole is written anew. -/
def requestedUseWith (encrypted : Bool) (scope : MutationScope) (record : BtreeRecord)
    (use : FileExtentUse) : Except String (Option (ℕ × ℕ × ℕ)) :=
  let next := use.extent
  if scope.rangeReference next && !scope.cloneRange.any (fun range => range.covers next) then
    .error "AppleVolumeCloneRangeStraddlesBoundary"
  else if !encrypted && scope.newHole next then
    (scope.admitHole next).map fun _ => none
  else
    match scope.prior (scope.source next) with
    | none => .error "AppleVolumeFileExtentMutationInvalid"
    | some (old, index) =>
      if scope.rangeReference next then
        (scope.admitRangeClone old.extent next).map fun _ => none
      else if (scope.cloneStreams.lookup next.objectId).isSome then
        (scope.admitStreamClone record old next).map fun _ => none
      else
        (scope.admitRetained record old next).map fun _ =>
          some (index, next.logicalAddress, next.logicalAddress + next.lengthBytes)

/-- The loop over the requested records. -/
def retainedPartsWith (encrypted : Bool) (scope : MutationScope) : List BtreeRecord →
    Except String (List (ℕ × ℕ × ℕ))
  | [] => .ok []
  | record :: rest =>
    if !isFileExtentRecord record then
      retainedPartsWith encrypted scope rest
    else
      match decodeFileExtentUseWith encrypted record scope.blockSize scope.requestedOwners with
      | none => .error "AppleVolumeFileExtentRecordInvalid"
      | some use =>
        match requestedUseWith encrypted scope record use with
        | .error reason => .error reason
        | .ok part =>
          match retainedPartsWith encrypted scope rest with
          | .error reason => .error reason
          | .ok parts => .ok (part.toList ++ parts)

/-- `CollectFileExtentChanges`, with its `encrypted` argument. -/
def collectFileExtentChangesWith (encrypted : Bool) (oldRecords requestedRecords : List BtreeRecord)
    (blockSize : ℕ) (cloneStreams : List (ℕ × ℕ)) (observational : Bool)
    (cloneRange : Option AppleCloneRangeMapping) :
    Except String (List FileExtentUse × List FileExtentUse) :=
  match collectExternalStreamOwners oldRecords, collectExternalStreamOwners requestedRecords with
  | .error reason, _ => .error reason
  | _, .error reason => .error reason
  | .ok oldOwners, .ok requestedOwners =>
    match collectOldUsesWith encrypted blockSize oldOwners oldRecords [] with
    | .error reason => .error reason
    | .ok oldUses =>
      if logicalOverlap ((oldByKey oldUses).map Prod.fst) 0 0 then
        .error "AppleVolumeFileExtentOverlap"
      else
        match streamProfileWith encrypted oldRecords oldUses oldOwners observational with
        | .error reason => .error reason
        | .ok profile =>
          match retainedPartsWith encrypted ⟨oldRecords, requestedRecords, blockSize, oldUses,
              requestedOwners, profile, cloneStreams, cloneRange⟩ requestedRecords with
          | .error reason => .error reason
          | .ok parts =>
            match removedUses blockSize parts oldUses 0 with
            | .error reason => .error reason
            | .ok removed => .ok (oldUses, removed)

/-! ## What is decoded -/

/-- What both admissions make sure of. -/
structure AppleFileExtentRecord.Admitted (extent : AppleFileExtentRecord) (blockSize : ℕ) :
    Prop extends extent.Valid blockSize where
  hole : extent.physicalBlock = 0 → extent.cryptoId = 0

theorem decodeFileExtentFields_admitted {record : BtreeRecord} {blockSize allowedFlags : ℕ}
    {decoded : AppleEncryptedFileExtentRecord}
    (h : decodeFileExtentFields record blockSize allowedFlags = .ok decoded) :
    decoded.extent.Admitted blockSize := by
  unfold decodeFileExtentFields at h
  split at h
  · cases h
  dsimp only at h
  split at h
  · cases h
  split at h
  · cases h
  rename_i hguard
  simp only [not_or, not_and, not_not] at hguard
  obtain ⟨-, hobject, hsize, -, hlength, hhole, hlogical, haligned, -⟩ := hguard
  obtain rfl := Except.ok.inj h
  exact ⟨⟨rfl, Nat.pos_of_ne_zero hsize, Nat.pos_of_ne_zero hobject, Nat.pos_of_ne_zero hlength,
    Nat.dvd_of_mod_eq_zero hlogical, Nat.dvd_of_mod_eq_zero haligned⟩, hhole⟩

/-- The plain decoder is the general one with no flag allowed. -/
theorem decodeFileExtentFields_zero {record : BtreeRecord} {blockSize : ℕ}
    {extent : AppleFileExtentRecord} (h : decodeAppleFileExtentRecord record blockSize = .ok extent) :
    decodeFileExtentFields record blockSize 0 = .ok ⟨extent, 0⟩ := by
  unfold decodeAppleFileExtentRecord at h
  unfold decodeFileExtentFields
  split at h
  · cases h
  rename_i hsize
  dsimp only at h
  split at h
  · cases h
  rename_i hflags
  split at h
  · cases h
  rename_i hguard
  obtain rfl := Except.ok.inj h
  rw [not_not] at hflags
  rw [if_neg hsize]
  dsimp only
  rw [hflags, if_neg (by simp), if_neg hguard]

theorem decodeFileExtentUseWith_admitted {encrypted : Bool} {record : BtreeRecord} {blockSize : ℕ}
    {owners : ExternalStreamOwners} {use : FileExtentUse}
    (h : decodeFileExtentUseWith encrypted record blockSize owners = some use) :
    use.extent.Admitted blockSize ∧ use.record = some record := by
  unfold decodeFileExtentUseWith at h
  split at h
  · split at h
    · cases h
    rename_i decoded hdecoded
    obtain rfl := Option.some.inj h
    refine ⟨?_, rfl⟩
    unfold decodeAppleEncryptedFileExtentRecord at hdecoded
    split at hdecoded
    · cases hdecoded
    rename_i fields hfields
    split at hdecoded
    · cases hdecoded
    · obtain rfl := Except.ok.inj hdecoded
      exact decodeFileExtentFields_admitted hfields
  · obtain ⟨hextent, hrecord, -⟩ := decodeFileExtentUse_eq_some_iff.mp h
    exact ⟨decodeFileExtentFields_admitted (decodeFileExtentFields_zero hextent), hrecord⟩

/-- Two uses decoded from one record have one extent. -/
theorem decodeFileExtentUseWith_extent {encrypted : Bool} {record : BtreeRecord} {blockSize : ℕ}
    {owners others : ExternalStreamOwners} {use other : FileExtentUse}
    (huse : decodeFileExtentUseWith encrypted record blockSize owners = some use)
    (hother : decodeFileExtentUseWith encrypted record blockSize others = some other) :
    use.extent = other.extent := by
  unfold decodeFileExtentUseWith at huse hother
  cases encrypted with
  | true =>
    simp only [if_true] at huse hother
    cases hdecode : decodeAppleEncryptedFileExtentRecord record blockSize with
    | error reason =>
      rw [hdecode] at huse
      cases huse
    | ok decoded =>
      rw [hdecode] at huse hother
      obtain rfl := Option.some.inj huse
      obtain rfl := Option.some.inj hother
      rfl
  | false =>
    simp only [Bool.false_eq_true, if_false] at huse hother
    obtain ⟨hextent, -, -⟩ := decodeFileExtentUse_eq_some_iff.mp huse
    obtain ⟨hextent', -, -⟩ := decodeFileExtentUse_eq_some_iff.mp hother
    exact Except.ok.inj (hextent.symm.trans hextent')

theorem decodeFileExtentUsesWith_cons (encrypted : Bool) (record : BtreeRecord)
    (rest : List BtreeRecord) (blockSize : ℕ) (owners : ExternalStreamOwners) :
    decodeFileExtentUsesWith encrypted (record :: rest) blockSize owners =
      if isFileExtentRecord record then
        (decodeFileExtentUseWith encrypted record blockSize owners).bind fun use =>
          (decodeFileExtentUsesWith encrypted rest blockSize owners).map (use :: ·)
      else decodeFileExtentUsesWith encrypted rest blockSize owners := by
  unfold decodeFileExtentUsesWith
  by_cases hfile : isFileExtentRecord record
  · rw [List.filter_cons_of_pos hfile, if_pos hfile, List.mapM_cons]
    cases decodeFileExtentUseWith encrypted record blockSize owners with
    | none => rfl
    | some use =>
      cases (List.filter isFileExtentRecord rest).mapM fun record =>
        decodeFileExtentUseWith encrypted record blockSize owners <;> rfl
  · rw [List.filter_cons_of_neg hfile, if_neg hfile]

/-- A use with the record it was decoded from. -/
def Admits (encrypted : Bool) (blockSize : ℕ) (owners : ExternalStreamOwners)
    (use : FileExtentUse) : Prop :=
  ∃ record, use.record = some record ∧
    decodeFileExtentUseWith encrypted record blockSize owners = some use

theorem Admits.admitted {encrypted : Bool} {blockSize : ℕ} {owners : ExternalStreamOwners}
    {use : FileExtentUse} (h : Admits encrypted blockSize owners use) :
    use.extent.Admitted blockSize := by
  obtain ⟨record, -, hdecode⟩ := h
  exact (decodeFileExtentUseWith_admitted hdecode).1

/-- The loop over the old records decodes its file extents in turn. -/
theorem collectOldUsesWith_ok {encrypted : Bool} {blockSize : ℕ} {owners : ExternalStreamOwners}
    {records : List BtreeRecord} {uses out : List FileExtentUse}
    (huses : ∀ use ∈ uses, Admits encrypted blockSize owners use)
    (h : collectOldUsesWith encrypted blockSize owners records uses = .ok out) :
    (∀ use ∈ out, Admits encrypted blockSize owners use) ∧
      ∃ more, decodeFileExtentUsesWith encrypted records blockSize owners = some more ∧
        out = uses ++ more := by
  induction records generalizing uses with
  | nil =>
    obtain rfl := Except.ok.inj h
    exact ⟨huses, [], rfl, (List.append_nil _).symm⟩
  | cons record rest ih =>
    rw [collectOldUsesWith] at h
    rw [decodeFileExtentUsesWith_cons]
    split at h
    · rename_i hfile
      rw [if_neg (by simpa using hfile)]
      exact ih huses h
    · rename_i hfile
      rw [if_pos (by simpa using hfile)]
      split at h
      · cases h
      rename_i use hdecode
      split at h
      · cases h
      have hrecord := (decodeFileExtentUseWith_admitted hdecode).2
      have hall : ∀ other ∈ uses ++ [use], Admits encrypted blockSize owners other := by
        intro other hother
        rcases List.mem_append.mp hother with hother | hother
        · exact huses other hother
        · rw [List.mem_singleton.mp hother]
          exact ⟨record, hrecord, hdecode⟩
      obtain ⟨hout, more, hmore, rfl⟩ := ih hall h
      refine ⟨hout, use :: more, by rw [hdecode, hmore]; rfl, by simp⟩

/-- The uses that pass the overlap loop have disjoint logical ranges. -/
theorem pairwise_logicallyDisjoint {uses : List FileExtentUse}
    (hpos : ∀ use ∈ uses, 0 < use.extent.lengthBytes)
    (h : logicalOverlap ((oldByKey uses).map Prod.fst) 0 0 = false) :
    uses.Pairwise LogicallyDisjoint := by
  have hperm := oldByKey_map_perm uses
  have hsorted : KeySorted ((oldByKey uses).map Prod.fst) :=
    List.pairwise_map.mpr (keySorted_oldByKey uses)
  have hpos' : ∀ use ∈ (oldByKey uses).map Prod.fst, 0 < use.extent.lengthBytes :=
    fun use huse => hpos use (hperm.mem_iff.mp huse)
  have hbefore := ((logicalOverlap_eq_false_iff hsorted 0 0).mp h).1
  exact (hperm.pairwise_iff fun hdisjoint => hdisjoint.symm).mp
    ((pairwise_before_iff hsorted hpos').mp hbefore)

/-! ## The walk over the kept parts -/

/-- The use covers a logical address. -/
def FileExtentUse.CoversLogical (use : FileExtentUse) (address : ℕ) : Prop :=
  use.extent.logicalAddress ≤ address ∧ address < use.logicalEnd

instance (use : FileExtentUse) (address : ℕ) : Decidable (use.CoversLogical address) :=
  inferInstanceAs (Decidable (_ ∧ _))

/-- **A fragment of an old use**: a part of its logical range, at the physical block that the old
use has there. -/
structure FragmentOf (blockSize : ℕ) (old fragment : FileExtentUse) : Prop where
  objectId : fragment.extent.objectId = old.extent.objectId
  length_pos : 0 < fragment.extent.lengthBytes
  start_le : old.extent.logicalAddress ≤ fragment.extent.logicalAddress
  le_end : fragment.logicalEnd ≤ old.logicalEnd
  physicalBlock : fragment.extent.physicalBlock =
    physicalAt old.extent fragment.extent.logicalAddress blockSize

theorem removedFragment_spec {blockSize : ℕ} (old : FileExtentUse) (whole : Bool)
    {start finish : ℕ} (hstart : old.extent.logicalAddress ≤ start) (hle : start ≤ finish)
    (hend : finish ≤ old.logicalEnd) :
    (∀ fragment ∈ removedFragment blockSize old whole start finish,
      FragmentOf blockSize old fragment ∧ start ≤ fragment.extent.logicalAddress ∧
        fragment.logicalEnd ≤ finish) ∧
      (∀ address, (∃ fragment ∈ removedFragment blockSize old whole start finish,
        fragment.CoversLogical address) ↔ start ≤ address ∧ address < finish) ∧
      (removedFragment blockSize old whole start finish).Pairwise LogicallyDisjoint := by
  unfold removedFragment
  split
  · rename_i heq
    refine ⟨by simp, fun address => ?_, List.Pairwise.nil⟩
    simp only [List.not_mem_nil, false_and, exists_false, false_iff]
    omega
  · rename_i hne
    have hfinish : (fragmentOf blockSize old whole start finish).logicalEnd = finish := by
      unfold FileExtentUse.logicalEnd fragmentOf
      dsimp only
      omega
    refine ⟨fun fragment hfragment => ?_, fun address => ?_, List.pairwise_singleton _ _⟩
    · rw [List.mem_singleton.mp hfragment]
      refine ⟨⟨rfl, ?_, hstart, by omega, rfl⟩, le_refl _, hfinish.le⟩
      unfold fragmentOf
      dsimp only
      omega
    · simp only [List.mem_singleton, exists_eq_left, FileExtentUse.CoversLogical, hfinish]
      rfl

/-- **The walk over the kept parts reports what lies between them**, from the cursor on. -/
theorem removedFragments_partition {blockSize : ℕ} {old : FileExtentUse} {whole : Bool}
    {parts : List (ℕ × ℕ)} {cursor : ℕ} {fragments : List FileExtentUse}
    (hparts : ∀ part ∈ parts, KeptPart blockSize old part)
    (hstart : old.extent.logicalAddress ≤ cursor) (hcursor : cursor ≤ old.logicalEnd)
    (h : removedFragments blockSize old whole parts cursor = .ok fragments) :
    (∀ fragment ∈ fragments,
      FragmentOf blockSize old fragment ∧ cursor ≤ fragment.extent.logicalAddress) ∧
      (∀ part ∈ parts, cursor ≤ part.1) ∧
      (∀ address, cursor ≤ address → address < old.logicalEnd →
        ((∃ fragment ∈ fragments, fragment.CoversLogical address) ↔
          ¬ ∃ part ∈ parts, part.1 ≤ address ∧ address < part.2)) ∧
      fragments.Pairwise LogicallyDisjoint := by
  induction parts generalizing cursor fragments with
  | nil =>
    obtain rfl := Except.ok.inj h
    obtain ⟨hfragments, hcovers, hpairwise⟩ :=
      @removedFragment_spec blockSize old whole cursor old.logicalEnd hstart hcursor (le_refl _)
    refine ⟨fun fragment hfragment => ?_, by simp, fun address hle hlt => ?_, hpairwise⟩
    · obtain ⟨hof, hfrom, -⟩ := hfragments fragment hfragment
      exact ⟨hof, hfrom⟩
    · simp only [List.not_mem_nil, false_and, exists_false, not_false_eq_true, iff_true]
      exact (hcovers address).mpr ⟨hle, hlt⟩
  | cons part rest ih =>
    have hpart := hparts part List.mem_cons_self
    have hlt := hpart.lt
    have hend := hpart.le_end
    rw [removedFragments] at h
    split at h
    · cases h
    rename_i hafter
    split at h
    · cases h
    rename_i others hothers
    obtain rfl := Except.ok.inj h
    obtain ⟨hfragments, hcovers, hpairwise⟩ :=
      @removedFragment_spec blockSize old whole cursor part.1 hstart (by omega) (by omega)
    obtain ⟨hrest, hlater, hrestCovers, hrestPairwise⟩ :=
      ih (fun other hother => hparts other (List.mem_cons_of_mem part hother))
        (hpart.start_le.trans hlt.le) hend hothers
    refine ⟨fun fragment hfragment => ?_, fun other hother => ?_, fun address hle haddress => ?_, ?_⟩
    · rcases List.mem_append.mp hfragment with hfragment | hfragment
      · obtain ⟨hof, hfrom, -⟩ := hfragments fragment hfragment
        exact ⟨hof, hfrom⟩
      · obtain ⟨hof, hfrom⟩ := hrest fragment hfragment
        exact ⟨hof, by omega⟩
    · rcases List.mem_cons.mp hother with rfl | hother
      · omega
      · have := hlater other hother
        omega
    · have hbefore := hcovers address
      -- the fragments and the parts that come later start at the end of this part
      have hlaterFragments : (∃ fragment ∈ others, fragment.CoversLogical address) →
          part.2 ≤ address := by
        rintro ⟨fragment, hfragment, hcover⟩
        exact (hrest fragment hfragment).2.trans hcover.1
      have hlaterParts : (∃ other ∈ rest, other.1 ≤ address ∧ address < other.2) →
          part.2 ≤ address := by
        rintro ⟨other, hother, hcover⟩
        exact (hlater other hother).trans hcover.1
      simp only [List.mem_append, or_and_right, exists_or, List.exists_mem_cons_iff]
      by_cases hpast : part.2 ≤ address
      · have hnext := hrestCovers address hpast haddress
        rw [hbefore, hnext]
        constructor
        · rintro (hgap | hnone) (hinside | hother)
          · omega
          · omega
          · omega
          · exact hnone hother
        · intro hnone
          exact .inr fun hother => hnone (.inr hother)
      · constructor
        · rintro (hgap | hfragment) (hinside | hother)
          · have := hbefore.mp hgap
            omega
          · exact hpast (hlaterParts hother)
          · exact hpast (hlaterFragments hfragment)
          · exact hpast (hlaterParts hother)
        · intro hnone
          exact .inl (hbefore.mpr ⟨hle, by
            by_contra hge
            exact hnone (.inl ⟨by omega, by omega⟩)⟩)
    · refine List.pairwise_append.mpr ⟨hpairwise, hrestPairwise, ?_⟩
      intro fragment hfragment other hother _
      have hfin := (hfragments fragment hfragment).2.2
      have hfrom := (hrest other hother).2
      exact .inl (by omega)

/-- A fragment of one use covers no address of a use that is disjoint from it. -/
theorem FragmentOf.not_covers {blockSize : ℕ} {old other fragment : FileExtentUse} {address : ℕ}
    (hfragment : FragmentOf blockSize old fragment) (hdisjoint : LogicallyDisjoint old other)
    (hobject : fragment.extent.objectId = other.extent.objectId)
    (haddress : other.CoversLogical address) : ¬ fragment.CoversLogical address := by
  rintro ⟨hfrom, hto⟩
  have hstart := hfragment.start_le
  have hend := hfragment.le_end
  obtain ⟨hlow, hhigh⟩ := haddress
  rcases hdisjoint (hfragment.objectId.symm.trans hobject) with hbefore | hafter
  · omega
  · omega

/-- **The removed fragments of a list of old uses**, whose positions count from `first`. -/
theorem removedUses_partition {blockSize : ℕ} {parts : List (ℕ × ℕ × ℕ)}
    {olds : List FileExtentUse} {first : ℕ} {removed : List FileExtentUse}
    (hdisjoint : olds.Pairwise LogicallyDisjoint)
    (hparts : ∀ part ∈ parts, ∀ index old, olds[index]? = some old → part.1 = first + index →
      KeptPart blockSize old part.2)
    (h : removedUses blockSize parts olds first = .ok removed) :
    (∀ fragment ∈ removed, ∃ old ∈ olds, FragmentOf blockSize old fragment) ∧
      (∀ index old, olds[index]? = some old → ∀ address, old.CoversLogical address →
        ((∃ fragment ∈ removed, fragment.extent.objectId = old.extent.objectId ∧
            fragment.CoversLogical address) ↔
          ¬ ∃ part ∈ parts, part.1 = first + index ∧ part.2.1 ≤ address ∧ address < part.2.2)) ∧
      removed.Pairwise LogicallyDisjoint := by
  induction olds generalizing first removed with
  | nil =>
    obtain rfl := Except.ok.inj h
    exact ⟨by simp, by simp, List.Pairwise.nil⟩
  | cons old rest ih =>
    obtain ⟨hothers, hrest⟩ := List.pairwise_cons.mp hdisjoint
    rw [removedUses] at h
    split at h
    · cases h
    rename_i fragments hfragments
    split at h
    · cases h
    rename_i others hrestRemoved
    obtain rfl := Except.ok.inj h
    have hmemParts : ∀ part, part ∈ partsOf parts first ↔ (first, part) ∈ parts := by
      intro part
      unfold partsOf
      rw [(sortBy_perm _ _).mem_iff, List.mem_map]
      constructor
      · rintro ⟨⟨index, range⟩, hentry, rfl⟩
        obtain ⟨hmem, hindex⟩ := List.mem_filter.mp hentry
        rwa [show index = first by simpa using hindex] at hmem
      · intro hmem
        exact ⟨(first, part), List.mem_filter.mpr ⟨hmem, by simp⟩, rfl⟩
    have hkept : ∀ part ∈ partsOf parts first, KeptPart blockSize old part := fun part hpart =>
      hparts (first, part) ((hmemParts part).mp hpart) 0 old rfl rfl
    obtain ⟨hof, -, hcovers, hpairwise⟩ := removedFragments_partition hkept (le_refl _)
      (Nat.le_add_right _ _) hfragments
    obtain ⟨hofRest, hcoversRest, hpairwiseRest⟩ := ih hrest
      (fun part hpart index other hother hposition =>
        hparts part hpart (index + 1) other hother (by omega)) hrestRemoved
    refine ⟨fun fragment hfragment => ?_, fun index other hother address haddress => ?_, ?_⟩
    · rcases List.mem_append.mp hfragment with hfragment | hfragment
      · exact ⟨old, List.mem_cons_self, (hof fragment hfragment).1⟩
      · obtain ⟨from', hmem, hfragmentOf⟩ := hofRest fragment hfragment
        exact ⟨from', List.mem_cons_of_mem old hmem, hfragmentOf⟩
    · simp only [List.mem_append, or_and_right, exists_or]
      cases index with
      | zero =>
        obtain rfl : old = other := Option.some.inj hother
        have hnone : ¬ ∃ fragment ∈ others, fragment.extent.objectId = old.extent.objectId ∧
            fragment.CoversLogical address := by
          rintro ⟨fragment, hfragment, hobject, hcover⟩
          obtain ⟨from', hmem, hfragmentOf⟩ := hofRest fragment hfragment
          exact hfragmentOf.not_covers (hothers from' hmem).symm hobject haddress hcover
        have hwalk := hcovers address haddress.1 haddress.2
        rw [or_iff_left hnone, Nat.add_zero]
        constructor
        · rintro ⟨fragment, hfragment, -, hcover⟩ ⟨part, hpart, hindex, hinside⟩
          have hmem : part.2 ∈ partsOf parts first := by
            rw [hmemParts, ← hindex]
            exact hpart
          exact hwalk.mp ⟨fragment, hfragment, hcover⟩ ⟨part.2, hmem, hinside⟩
        · intro hnot
          obtain ⟨fragment, hfragment, hcover⟩ := hwalk.mpr fun hkeptPart => by
            obtain ⟨part, hpart, hinside⟩ := hkeptPart
            exact hnot ⟨(first, part), (hmemParts part).mp hpart, rfl, hinside⟩
          exact ⟨fragment, hfragment, (hof fragment hfragment).1.objectId, hcover⟩
      | succ index =>
        have hmem : other ∈ rest := List.mem_of_getElem? hother
        have hnone : ¬ ∃ fragment ∈ fragments, fragment.extent.objectId = other.extent.objectId ∧
            fragment.CoversLogical address := by
          rintro ⟨fragment, hfragment, hobject, hcover⟩
          exact (hof fragment hfragment).1.not_covers (hothers other hmem) hobject haddress hcover
        rw [or_iff_right hnone, hcoversRest index other hother address haddress,
          show first + (index + 1) = first + 1 + index by omega]
    · refine List.pairwise_append.mpr ⟨hpairwise, hpairwiseRest, ?_⟩
      intro fragment hfragment other hother hobject
      obtain ⟨from', hmem, hfragmentOf⟩ := hofRest other hother
      have hthis := (hof fragment hfragment).1
      have hranges := hothers from' hmem
        (hthis.objectId.symm.trans (hobject.trans hfragmentOf.objectId))
      have hstart := hthis.start_le
      have hend := hthis.le_end
      have hstart' := hfragmentOf.start_le
      have hend' := hfragmentOf.le_end
      omega

/-! ## What the requested extents keep -/

/-- The requested extent is a reference that a clone adds. -/
def addsReference (cloneStreams : List (ℕ × ℕ)) (cloneRange : Option AppleCloneRangeMapping)
    (extent : AppleFileExtentRecord) : Bool :=
  (cloneStreams.lookup extent.objectId).isSome || cloneRange.any fun range => range.intersects extent

/-- The requested extent maps the address to the physical block that the old one maps it to. -/
structure MapsAlike (blockSize : ℕ) (next old : FileExtentUse) (address : ℕ) : Prop where
  objectId : next.extent.objectId = old.extent.objectId
  covers : next.CoversLogical address
  physicalBlock : physicalAt next.extent address blockSize = physicalAt old.extent address blockSize

/-- **The requested extent keeps the old mapping at the address**: it maps it alike, a clone does
not add it, and in an old hole it stays inside that hole. -/
structure Keeps (blockSize : ℕ) (cloneStreams : List (ℕ × ℕ))
    (cloneRange : Option AppleCloneRangeMapping) (next old : FileExtentUse) (address : ℕ) : Prop
    extends MapsAlike blockSize next old address where
  own : addsReference cloneStreams cloneRange next.extent = false
  hole : old.extent.physicalBlock = 0 → old.extent.logicalAddress ≤ next.extent.logicalAddress ∧
    next.logicalEnd ≤ old.logicalEnd

theorem physicalAt_eq_zero_iff {extent : AppleFileExtentRecord} {logical blockSize : ℕ} :
    physicalAt extent logical blockSize = 0 ↔ extent.physicalBlock = 0 := by
  unfold physicalAt
  split
  · rename_i hphysical
    exact iff_of_false (fun hsum => hphysical (Nat.add_eq_zero_iff.mp hsum).1) hphysical
  · rename_i hhole
    exact iff_of_true rfl (not_not.mp hhole)

/-- Along an exact subrange the physical blocks agree. -/
theorem physicalAt_subrange {old next : AppleFileExtentRecord} {blockSize address : ℕ}
    (hpos : 0 < blockSize) (hold : blockSize ∣ old.logicalAddress)
    (hnext : blockSize ∣ next.logicalAddress) (hstart : old.logicalAddress ≤ next.logicalAddress)
    (haddress : next.logicalAddress ≤ address)
    (hphysical : next.physicalBlock = physicalAt old next.logicalAddress blockSize) :
    physicalAt next address blockSize = physicalAt old address blockSize := by
  by_cases hzero : old.physicalBlock = 0
  · have hnextZero : next.physicalBlock = 0 := hphysical.trans (physicalAt_eq_zero_iff.mpr hzero)
    rw [physicalAt_eq_zero_iff.mpr hzero, physicalAt_eq_zero_iff.mpr hnextZero]
  · have hnextPos : next.physicalBlock ≠ 0 := by
      rw [hphysical, Ne, physicalAt_eq_zero_iff]
      exact hzero
    obtain ⟨offset, hoffset⟩ := Nat.dvd_sub hnext hold
    have hrest : address - old.logicalAddress =
        (address - next.logicalAddress) + blockSize * offset := by omega
    unfold physicalAt at hphysical ⊢
    rw [if_pos hzero] at hphysical ⊢
    rw [if_pos hnextPos, hphysical, hoffset, Nat.mul_div_cancel_left _ hpos, hrest,
      Nat.add_mul_div_left _ _ hpos]
    omega

/-- One use of disjoint ones covers an address of an object. -/
theorem index_eq_of_covers {uses : List FileExtentUse} (hdisjoint : uses.Pairwise LogicallyDisjoint)
    {i j : ℕ} {left right : FileExtentUse} {address : ℕ} (hleft : uses[i]? = some left)
    (hright : uses[j]? = some right) (hobject : left.extent.objectId = right.extent.objectId)
    (hcovers : left.CoversLogical address) (hcovers' : right.CoversLogical address) : i = j := by
  obtain ⟨hi, rfl⟩ := List.getElem?_eq_some_iff.mp hleft
  obtain ⟨hj, rfl⟩ := List.getElem?_eq_some_iff.mp hright
  have hpairs := List.pairwise_iff_getElem.mp hdisjoint
  obtain ⟨hlow, hhigh⟩ := hcovers
  obtain ⟨hlow', hhigh'⟩ := hcovers'
  rcases Nat.lt_trichotomy i j with hlt | heq | hgt
  · have := hpairs i j hi hj hlt hobject
    omega
  · exact heq
  · have := hpairs j i hj hi hgt hobject.symm
    omega

/-- The prior entry of an address inside an old use is that use. -/
theorem prior_of_covers {scope : MutationScope} (hdisjoint : scope.oldUses.Pairwise LogicallyDisjoint)
    (hpos : ∀ use ∈ scope.oldUses, 0 < use.extent.lengthBytes) {index logical : ℕ}
    {old : FileExtentUse} (hold : scope.oldUses[index]? = some old)
    (hcovers : old.CoversLogical logical) :
    scope.prior (old.extent.objectId, logical) = some (old, index) := by
  have hkey : extentKeyLE old.key (old.extent.objectId, logical) = true :=
    extentKeyLE_iff.mpr (.inr ⟨rfl, hcovers.1⟩)
  cases hprior : scope.prior (old.extent.objectId, logical) with
  | none =>
    unfold MutationScope.prior at hprior
    rw [List.getLast?_eq_none_iff, List.filter_eq_nil_iff] at hprior
    exact absurd hkey (hprior (old, index) (mem_oldByKey.mpr hold))
  | some entry =>
    obtain ⟨other, position⟩ := entry
    obtain ⟨hother, hle, hmax⟩ := prior_eq_some hprior
    have hfrom := extentKeyLE_iff.mp (hmax old (List.mem_of_getElem? hold) hkey)
    have hto := extentKeyLE_iff.mp hle
    have hlength := hpos other (List.mem_of_getElem? hother)
    simp only [FileExtentUse.key] at hfrom hto
    have hobject : other.extent.objectId = old.extent.objectId := by omega
    obtain ⟨-, hhigh⟩ := hcovers
    have hposition : position = index := by
      refine @index_eq_of_covers _ hdisjoint position index other old other.extent.logicalAddress
        hother hold hobject ⟨le_refl _, ?_⟩ ⟨by omega, by omega⟩
      unfold FileExtentUse.logicalEnd
      omega
    subst hposition
    rw [hold] at hother
    rw [Option.some.inj hother]

section Requested

variable {encrypted : Bool} {scope : MutationScope} {oldOwners : ExternalStreamOwners}

/-- The key that a requested extent is looked up with, unless a clone adds it. -/
theorem source_of_own {next : AppleFileExtentRecord}
    (h : addsReference scope.cloneStreams scope.cloneRange next = false) :
    scope.rangeReference next = false ∧ scope.cloneStreams.lookup next.objectId = none ∧
      scope.source next = (next.objectId, next.logicalAddress) := by
  obtain ⟨hstream, hrange⟩ := Bool.or_eq_false_iff.mp h
  have hreference : scope.rangeReference next = false := hrange
  have hlookup : scope.cloneStreams.lookup next.objectId = none := by simpa using hstream
  refine ⟨hreference, hlookup, ?_⟩
  unfold MutationScope.source
  rw [hreference, hlookup]
  cases scope.cloneRange <;> rfl

/-- What is known of a kept part of the old use at its position. -/
structure KeptBy (scope : MutationScope) (old next : FileExtentUse) : Prop where
  objectId : next.extent.objectId = old.extent.objectId
  part : KeptPart scope.blockSize old (next.extent.logicalAddress, next.logicalEnd)
  physicalBlock : next.extent.physicalBlock =
    physicalAt old.extent next.extent.logicalAddress scope.blockSize
  own : addsReference scope.cloneStreams scope.cloneRange next.extent = false

/-- A requested extent that keeps a part of an old use is an exact subrange of it. -/
theorem requestedUseWith_some {record : BtreeRecord} {next : FileExtentUse}
    {part : ℕ × ℕ × ℕ} (holds : ∀ old ∈ scope.oldUses,
      Admits encrypted scope.blockSize oldOwners old)
    (hnext : decodeFileExtentUseWith encrypted record scope.blockSize scope.requestedOwners =
      some next)
    (h : requestedUseWith encrypted scope record next = .ok (some part)) :
    ∃ old, scope.oldUses[part.1]? = some old ∧
      part.2 = (next.extent.logicalAddress, next.logicalEnd) ∧ KeptBy scope old next := by
  unfold requestedUseWith at h
  dsimp only at h
  split at h
  · cases h
  split at h
  · obtain ⟨-, -, hnone⟩ := map_eq_ok_iff.mp h
    cases hnone
  split at h
  · cases h
  rename_i old index hprior
  split at h
  · obtain ⟨-, -, hnone⟩ := map_eq_ok_iff.mp h
    cases hnone
  rename_i hrange
  split at h
  · obtain ⟨-, -, hnone⟩ := map_eq_ok_iff.mp h
    cases hnone
  rename_i hstream
  obtain ⟨⟨⟩, hadmit, hsome⟩ := map_eq_ok_iff.mp h
  obtain rfl := Option.some.inj hsome
  obtain ⟨hold, -, -⟩ := prior_eq_some hprior
  have howner := holds old (List.mem_of_getElem? hold)
  have hvalid := (decodeFileExtentUseWith_admitted hnext).1
  have hlength := hvalid.length_pos
  unfold MutationScope.admitRetained at hadmit
  dsimp only at hadmit
  split at hadmit
  · cases hadmit
  rename_i hwithin
  simp only [not_or, not_not, Bool.not_eq_true, Bool.not_eq_false'] at hwithin
  obtain ⟨hobject, hwithin⟩ := hwithin
  unfold withinExtent at hwithin
  simp only [Bool.and_eq_true, decide_eq_true_eq] at hwithin
  obtain ⟨⟨hstart, hinside⟩, hfits⟩ := hwithin
  split at hadmit
  · cases hadmit
  rename_i hexact
  refine ⟨old, hold, rfl, hobject.symm, ⟨hstart, ?_, ?_, hvalid.logical_aligned,
    Nat.dvd_add hvalid.logical_aligned hvalid.length_aligned⟩, ?_, ?_⟩
  · unfold FileExtentUse.logicalEnd
    dsimp only
    omega
  · unfold FileExtentUse.logicalEnd
    dsimp only
    omega
  · by_cases hsame : old.record = some record
    · -- the record is the old one, so the extents are the same
      obtain ⟨own, hown, hdecode⟩ := howner
      obtain rfl : own = record := Option.some.inj (hown.symm.trans hsame)
      rw [decodeFileExtentUseWith_extent hdecode hnext]
      unfold physicalAt
      rw [Nat.sub_self, Nat.zero_div, Nat.add_zero]
      split
      · rfl
      · rename_i hhole
        exact not_not.mp hhole
    · by_contra hphysical
      exact hexact ⟨hsame, .inr (.inr (.inr hphysical))⟩
  · unfold addsReference
    rw [Bool.or_eq_false_iff]
    exact ⟨(Bool.not_eq_true _).mp hstream, (Bool.not_eq_true _).mp hrange⟩

/-- **A requested extent that keeps an old mapping is counted as a part of that use.** -/
theorem requestedUseWith_of_keeps {record : BtreeRecord} {old next : FileExtentUse}
    {part : Option (ℕ × ℕ × ℕ)} {index address : ℕ}
    (hdisjoint : scope.oldUses.Pairwise LogicallyDisjoint)
    (holds : ∀ old ∈ scope.oldUses, Admits encrypted scope.blockSize oldOwners old)
    (hnext : decodeFileExtentUseWith encrypted record scope.blockSize scope.requestedOwners =
      some next)
    (hold : scope.oldUses[index]? = some old) (haddress : old.CoversLogical address)
    (hkeeps : Keeps scope.blockSize scope.cloneStreams scope.cloneRange next old address)
    (h : requestedUseWith encrypted scope record next = .ok part) :
    part = some (index, next.extent.logicalAddress, next.logicalEnd) := by
  obtain ⟨hrange, hstream, hsource⟩ := source_of_own hkeeps.own
  have hpos : ∀ use ∈ scope.oldUses, 0 < use.extent.lengthBytes := fun use huse =>
    (holds use huse).admitted.length_pos
  have hadmitted := (decodeFileExtentUseWith_admitted hnext).1
  have hlength := hadmitted.length_pos
  have hcovers := hkeeps.covers
  have hhole : ¬ scope.newHole next.extent = true := by
    intro hnew
    unfold MutationScope.newHole at hnew
    simp only [Bool.and_eq_true, beq_iff_eq, hrange, Bool.false_or, Bool.not_eq_true'] at hnew
    obtain ⟨⟨⟨hphysical, hcrypto⟩, -⟩, hretains⟩ := hnew
    -- the old mapping is a hole as well, and this one stays inside it
    have hzero : old.extent.physicalBlock = 0 := by
      have hsame := hkeeps.physicalBlock
      rw [physicalAt_eq_zero_iff.mpr hphysical] at hsame
      exact physicalAt_eq_zero_iff.mp hsame.symm
    obtain ⟨hstart, hend⟩ := hkeeps.hole hzero
    unfold FileExtentUse.logicalEnd at hend
    have hprior := @prior_of_covers scope hdisjoint hpos index next.extent.logicalAddress old hold
      ⟨hstart, by unfold FileExtentUse.logicalEnd; omega⟩
    have hwithin : withinExtent old.extent next.extent next.extent.logicalAddress = true := by
      unfold withinExtent
      simp only [Bool.and_eq_true, decide_eq_true_eq]
      omega
    have hnoCrypto := (holds old (List.mem_of_getElem? hold)).admitted.hole hzero
    unfold MutationScope.retainsZero at hretains
    rw [hsource, hkeeps.objectId, hprior] at hretains
    simp [hzero, hnoCrypto, hwithin] at hretains
  unfold requestedUseWith at h
  dsimp only at h
  rw [hrange, Bool.false_and, if_neg (by simp), if_neg (by simp [hhole]), hsource] at h
  split at h
  · cases h
  rename_i other position hprior
  rw [if_neg (by simp), hstream, if_neg (by simp)] at h
  obtain ⟨⟨⟩, hadmit, rfl⟩ := map_eq_ok_iff.mp h
  obtain ⟨hother, -, -⟩ := prior_eq_some hprior
  unfold MutationScope.admitRetained at hadmit
  dsimp only at hadmit
  split at hadmit
  · cases hadmit
  rename_i hwithin
  simp only [not_or, not_not, Bool.not_eq_true, Bool.not_eq_false'] at hwithin
  obtain ⟨hobject, hwithin⟩ := hwithin
  unfold withinExtent at hwithin
  simp only [Bool.and_eq_true, decide_eq_true_eq] at hwithin
  obtain ⟨⟨hstart, hinside⟩, hfits⟩ := hwithin
  obtain ⟨hlow, hhigh⟩ := hcovers
  unfold FileExtentUse.logicalEnd at hhigh
  have hposition : position = index := by
    refine @index_eq_of_covers _ hdisjoint position index other old address hother hold
      (hobject.trans hkeeps.objectId) ⟨by omega, ?_⟩ haddress
    unfold FileExtentUse.logicalEnd
    omega
  rw [hposition]
  rfl

/-- The loop over the requested records: the parts are kept by requested extents, and every
requested extent that keeps an old mapping is among them. -/
theorem retainedPartsWith_ok {requested : List BtreeRecord} {parts : List (ℕ × ℕ × ℕ)}
    (hdisjoint : scope.oldUses.Pairwise LogicallyDisjoint)
    (holds : ∀ old ∈ scope.oldUses, Admits encrypted scope.blockSize oldOwners old)
    (h : retainedPartsWith encrypted scope requested = .ok parts) :
    ∃ uses, decodeFileExtentUsesWith encrypted requested scope.blockSize scope.requestedOwners =
        some uses ∧
      (∀ part ∈ parts, ∃ old next, scope.oldUses[part.1]? = some old ∧ next ∈ uses ∧
        next.extent.Admitted scope.blockSize ∧
        part.2 = (next.extent.logicalAddress, next.logicalEnd) ∧ KeptBy scope old next) ∧
      ∀ next ∈ uses, ∀ index old, scope.oldUses[index]? = some old → ∀ address,
        old.CoversLogical address →
        Keeps scope.blockSize scope.cloneStreams scope.cloneRange next old address →
        (index, next.extent.logicalAddress, next.logicalEnd) ∈ parts := by
  induction requested generalizing parts with
  | nil =>
    obtain rfl := Except.ok.inj h
    exact ⟨[], rfl, by simp, by simp⟩
  | cons record rest ih =>
    rw [retainedPartsWith] at h
    rw [decodeFileExtentUsesWith_cons]
    split at h
    · rename_i hfile
      rw [if_neg (by simpa using hfile)]
      exact ih h
    rename_i hfile
    rw [if_pos (by simpa using hfile)]
    split at h
    · cases h
    rename_i next hdecode
    split at h
    · cases h
    rename_i part hpart
    split at h
    · cases h
    rename_i others hothers
    obtain rfl := Except.ok.inj h
    obtain ⟨uses, huses, hkept, hall⟩ := ih hothers
    refine ⟨next :: uses, by rw [hdecode, huses]; rfl, fun entry hentry => ?_, ?_⟩
    · rcases List.mem_append.mp hentry with hentry | hentry
      · obtain rfl := Option.mem_toList.mp hentry
        obtain ⟨old, hold, hrange, hkeptBy⟩ := requestedUseWith_some holds hdecode hpart
        exact ⟨old, next, hold, List.mem_cons_self, (decodeFileExtentUseWith_admitted hdecode).1,
          hrange, hkeptBy⟩
      · obtain ⟨old, other, hold, hother, hrest⟩ := hkept entry hentry
        exact ⟨old, other, hold, List.mem_cons_of_mem next hother, hrest⟩
    · intro other hother index old hold address haddress hkeeps
      rcases List.mem_cons.mp hother with rfl | hother
      · have hsome := requestedUseWith_of_keeps hdisjoint holds hdecode hold haddress hkeeps hpart
        rw [hsome]
        exact List.mem_append_left others (by simp)
      · exact List.mem_append_right _ (hall other hother index old hold address haddress hkeeps)

end Requested

/-! ## The partition -/

/-- **The changes partition the old mappings**: every address of an old extent is kept by a
requested extent or lies in a removed fragment, and not both; the fragments are disjoint parts of
the old extents, at the physical blocks that these have there. -/
theorem collectFileExtentChanges_partition {encrypted : Bool}
    {oldRecords requestedRecords : List BtreeRecord} {blockSize : ℕ} {cloneStreams : List (ℕ × ℕ)}
    {observational : Bool} {cloneRange : Option AppleCloneRangeMapping}
    {oldUses removed : List FileExtentUse}
    (h : collectFileExtentChangesWith encrypted oldRecords requestedRecords blockSize cloneStreams
      observational cloneRange = .ok (oldUses, removed)) :
    ∃ oldOwners owners uses,
      collectExternalStreamOwners oldRecords = .ok oldOwners ∧
      collectExternalStreamOwners requestedRecords = .ok owners ∧
      decodeFileExtentUsesWith encrypted oldRecords blockSize oldOwners = some oldUses ∧
      decodeFileExtentUsesWith encrypted requestedRecords blockSize owners = some uses ∧
      (∀ old ∈ oldUses, ∀ address, old.CoversLogical address →
        ((∃ fragment ∈ removed, fragment.extent.objectId = old.extent.objectId ∧
            fragment.CoversLogical address) ↔
          ¬ ∃ next ∈ uses, Keeps blockSize cloneStreams cloneRange next old address)) ∧
      (∀ fragment ∈ removed, ∃ old ∈ oldUses, FragmentOf blockSize old fragment) ∧
      removed.Pairwise LogicallyDisjoint := by
  unfold collectFileExtentChangesWith at h
  split at h
  · cases h
  · cases h
  rename_i oldOwners owners hold hrequested
  split at h
  · cases h
  rename_i olds holdUses
  obtain ⟨holds, more, hmore, rfl⟩ := collectOldUsesWith_ok (fun use huse => by cases huse) holdUses
  split at h
  · cases h
  rename_i hoverlap
  have hdisjoint : olds.Pairwise LogicallyDisjoint :=
    pairwise_logicallyDisjoint (fun use huse => (holds use huse).admitted.length_pos)
      ((Bool.not_eq_true _).mp hoverlap)
  split at h
  · cases h
  split at h
  · cases h
  rename_i parts hparts
  split at h
  · cases h
  rename_i fragments hfragments
  obtain ⟨rfl, rfl⟩ := Prod.mk.inj (Except.ok.inj h)
  obtain ⟨uses, huses, hkept, hall⟩ := retainedPartsWith_ok hdisjoint holds hparts
  obtain ⟨hof, hcovers, hpairwise⟩ := removedUses_partition hdisjoint
    (fun part hpart index old hold hposition => by
      obtain ⟨old', next, hold', -, -, hrange, hkeptBy⟩ := hkept part hpart
      rw [hposition, Nat.zero_add, hold] at hold'
      rw [Option.some.inj hold', hrange]
      exact hkeptBy.part) hfragments
  refine ⟨oldOwners, owners, uses, hold, hrequested, hmore, huses, fun old hmem address haddress => ?_,
    hof, hpairwise⟩
  obtain ⟨index, hold⟩ := List.getElem?_of_mem hmem
  rw [hcovers index old hold address haddress, not_iff_not, Nat.zero_add]
  constructor
  · rintro ⟨part, hpart, hindex, hfrom, hto⟩
    obtain ⟨old', next, hold', hnext, hadmitted, hrange, hkeptBy⟩ := hkept part hpart
    rw [hindex, hold] at hold'
    obtain rfl := Option.some.inj hold'
    rw [hrange] at hfrom hto
    have hvalid := (holds old hmem).admitted
    refine ⟨next, hnext, ⟨⟨hkeptBy.objectId, ⟨hfrom, hto⟩, ?_⟩, hkeptBy.own, fun _ => ?_⟩⟩
    · exact physicalAt_subrange hvalid.blockSize_pos hvalid.logical_aligned
        hadmitted.logical_aligned hkeptBy.part.start_le hfrom hkeptBy.physicalBlock
    · exact ⟨hkeptBy.part.start_le, hkeptBy.part.le_end⟩
  · rintro ⟨next, hnext, hkeeps⟩
    exact ⟨_, hall next hnext index old hold address haddress hkeeps, rfl, hkeeps.covers⟩

/-- A file extent record of blocks of 4096 bytes. -/
def extentRecord (object logical length block : ℕ) : BtreeRecord :=
  ⟨leBytes 8 (8 * 2 ^ 60 + object) ++ leBytes 8 logical,
    leBytes 8 length ++ leBytes 8 block ++ leBytes 8 0⟩

/-- The use that the record stands for. -/
def extentUse (object logical length block : ℕ) : FileExtentUse :=
  ⟨⟨object, logical, length, block, 0, 4096⟩, some (extentRecord object logical length block),
    object⟩

/-- The inode of a sparse regular file of three blocks, none of them allocated. -/
def sparseInodeRecord : BtreeRecord :=
  ⟨leBytes 8 (3 * 2 ^ 60 + 16),
    leBytes 8 2 ++ leBytes 8 16 ++ leBytes 32 0 ++ leBytes 8 inodeSparseFlag ++ leBytes 4 1 ++
      leBytes 20 0 ++ leBytes 2 0o100644 ++ leBytes 10 0 ++
      (leBytes 2 2 ++ leBytes 2 48 ++ leBytes 2 8 ++ leBytes 2 40 ++ leBytes 2 13 ++ leBytes 2 8) ++
      (leBytes 8 12288 ++ leBytes 32 0) ++ leBytes 8 12288⟩

/-- Two requested extents that map what an old extent mapped, and keep nothing of it: a range is
cloned again over its own clone, and a hole is written over the end of an old hole. -/
theorem collectFileExtentChanges_counts_twice :
    (collectFileExtentChangesWith false [extentRecord 16 0 4096 5, extentRecord 17 0 4096 5]
        [extentRecord 16 0 4096 5, extentRecord 17 0 4096 5] 4096 [] false
        (some ⟨16, 17, 0, 0, 4096⟩) =
      .ok ([extentUse 16 0 4096 5, extentUse 17 0 4096 5], [extentUse 17 0 4096 5]) ∧
      decodeFileExtentUsesWith false [extentRecord 16 0 4096 5, extentRecord 17 0 4096 5] 4096 [] =
        some [extentUse 16 0 4096 5, extentUse 17 0 4096 5] ∧
      MapsAlike 4096 (extentUse 17 0 4096 5) (extentUse 17 0 4096 5) 0) ∧
    collectFileExtentChangesWith false [sparseInodeRecord, extentRecord 16 0 8192 0]
        [sparseInodeRecord, extentRecord 16 0 4096 0, extentRecord 16 4096 8192 0] 4096 [] false
        none =
      .ok ([extentUse 16 0 8192 0], [{ extentUse 16 4096 4096 0 with record := none }]) ∧
    decodeFileExtentUsesWith false
        [sparseInodeRecord, extentRecord 16 0 4096 0, extentRecord 16 4096 8192 0] 4096 [] =
      some [extentUse 16 0 4096 0, extentUse 16 4096 8192 0] ∧
    MapsAlike 4096 (extentUse 16 4096 8192 0) (extentUse 16 0 8192 0) 4096 := by
  refine ⟨⟨by decide +kernel, by decide +kernel, ?_⟩, by decide +kernel, by decide +kernel, ?_⟩
  · exact ⟨rfl, by decide, rfl⟩
  · exact ⟨rfl, by decide, rfl⟩

/-- The middle block of an extent is kept, and the ones around it are removed. -/
theorem collectFileExtentChanges_partition_split :
    ∃ oldOwners owners uses,
      collectExternalStreamOwners [sparseInodeRecord, extentRecord 16 0 12288 10] = .ok oldOwners ∧
      collectExternalStreamOwners [sparseInodeRecord, extentRecord 16 4096 4096 11] = .ok owners ∧
      decodeFileExtentUsesWith false [sparseInodeRecord, extentRecord 16 0 12288 10] 4096
        oldOwners = some [extentUse 16 0 12288 10] ∧
      decodeFileExtentUsesWith false [sparseInodeRecord, extentRecord 16 4096 4096 11] 4096
        owners = some uses ∧
      (∀ old ∈ [extentUse 16 0 12288 10], ∀ address, old.CoversLogical address →
        ((∃ fragment ∈ [{ extentUse 16 0 4096 10 with record := none },
              { extentUse 16 8192 4096 12 with record := none }],
            fragment.extent.objectId = old.extent.objectId ∧ fragment.CoversLogical address) ↔
          ¬ ∃ next ∈ uses, Keeps 4096 [] none next old address)) ∧
      (∀ fragment ∈ [{ extentUse 16 0 4096 10 with record := none },
          { extentUse 16 8192 4096 12 with record := none }],
        ∃ old ∈ [extentUse 16 0 12288 10], FragmentOf 4096 old fragment) ∧
      [{ extentUse 16 0 4096 10 with record := none },
        { extentUse 16 8192 4096 12 with record := none }].Pairwise LogicallyDisjoint :=
  @collectFileExtentChanges_partition false [sparseInodeRecord, extentRecord 16 0 12288 10]
    [sparseInodeRecord, extentRecord 16 4096 4096 11] 4096 [] false none _ _ (by decide +kernel)

end Extents
end ApfsAccess
