import ApfsAccess.Library.Sorting
import ApfsAccess.Btree.Reader

/-!
# Object maps

An object map says for an object and a checkpoint where the object was at that checkpoint: one
record for each version.  `LoadOmapLookup` reads the records of a map into a table sorted by
object and version, and `SelectOmapLookup` looks up the version that a checkpoint sees.

* `IsNewestVersion` : what the lookup is for, on the records as they came.
* `buildOmapLookup_spec` : the table holds the records, sorted, and no version twice.
* `selectOmapLookup_spec` : the lookup finds the newest version that is not too new.
* `published_versions` : what a later transaction changes of it.
-/

namespace ApfsAccess
namespace Btree

open Format ByteBuffer Sorting

/-- `OmapValue`. -/
structure OmapValue where
  flags : ℕ
  size : ℕ
  physicalBlock : ℕ
  xid : ℕ
  deriving DecidableEq, Repr

/-- `OmapLookupEntry`. -/
structure OmapLookupEntry where
  objectId : ℕ
  value : OmapValue
  deriving DecidableEq, Repr

/-- What an entry is sorted by, in the order of pairs. -/
def OmapLookupEntry.key (entry : OmapLookupEntry) : ℕ ×ₗ ℕ := toLex (entry.objectId, entry.value.xid)

/-- The arguments of `BuildOmapLookup` besides the records. -/
structure OmapRules where
  strictIdentity : Bool
  strictSnapshot : Bool
  strictOrder : Bool
  treeMaxXid : ℕ
  errorPrefix : String
  encryptedMetadata : Bool

/-- The entry that a record is read as. -/
def omapEntryOf (record : BtreeRecord) : OmapLookupEntry where
  objectId := (readU64LE record.key 0).getD 0
  value :=
    { flags := (readU32LE record.value 0).getD 0
      size := (readU32LE record.value 4).getD 0
      physicalBlock := (readU64LE record.value 8).getD 0
      xid := (readU64LE record.key 8).getD 0 }

/-- The checks of one record, given the entry before it. -/
def checkOmapRecord (rules : OmapRules) (previous : Option OmapLookupEntry) (record : BtreeRecord) :
    Except String Unit := do
  rejectIf (record.key.length ≠ 16 ∨ record.value.length ≠ 16)
    (rules.errorPrefix ++ "RecordSizeInvalid")
  let entry := omapEntryOf record
  rejectIf (rules.strictOrder ∧ ∃ before ∈ previous, entry.key ≤ before.key)
    (rules.errorPrefix ++ "KeyOrderInvalid")
  rejectIf (rules.strictSnapshot ∧ (entry.objectId = 0 ∨ entry.value.xid = 0 ∨
      rules.treeMaxXid < entry.value.xid ∨
      entry.value.flags &&& (2 ^ 32 - 1 - if rules.encryptedMetadata then 0x7 else 0x3) ≠ 0))
    (rules.errorPrefix ++ "UnsupportedRecordFlagsOrXid")
  rejectIf (rules.strictIdentity ∧ (entry.objectId = 0 ∨ entry.value.xid = 0))
    (rules.errorPrefix ++ "RecordIdentityInvalid")

/-- The loop over the records. -/
def readOmapRecords (rules : OmapRules) :
    Option OmapLookupEntry → List BtreeRecord → Except String (List OmapLookupEntry)
  | _, [] => .ok []
  | previous, record :: records => do
    checkOmapRecord rules previous record
    let entries ← readOmapRecords rules (some (omapEntryOf record)) records
    return omapEntryOf record :: entries

/-- `BuildOmapLookup`. -/
def buildOmapLookup (rules : OmapRules) (records : List BtreeRecord) :
    Except String (List OmapLookupEntry) := do
  let entries ← readOmapRecords rules none records
  let sorted := sortBy entries fun left right => left.key ≤ right.key
  if sorted.IsChain fun left right => left.key ≠ right.key then .ok sorted
  else .error (rules.errorPrefix ++ "KeyDuplicate")

/-- `std::upper_bound`: the entries up to the last one whose key is not greater. -/
def notAfter (entries : List OmapLookupEntry) (key : ℕ ×ₗ ℕ) : List OmapLookupEntry :=
  entries.takeWhile fun entry => !decide (key < entry.key)

/-- `SelectOmapLookup`. -/
def selectOmapLookup (entries : List OmapLookupEntry) (objectId maxXid : ℕ)
    (errorPrefix : String) : Except String OmapValue :=
  match (notAfter entries (toLex (objectId, maxXid))).getLast? with
  | none => .error (errorPrefix ++ "ValueMissing")
  | some selected =>
    if selected.objectId ≠ objectId then .error (errorPrefix ++ "ValueMissing")
    else if selected.value.flags = 0xFFFFFFFF ∨ selected.value.flags &&& 0x1 ≠ 0 ∨
        selected.value.physicalBlock = 0 then
      .error (errorPrefix ++ "ValueDeleted")
    else .ok selected.value

/-- `kObjectTypeOmap`. -/
def objectTypeOmap : ℕ := 0xB

/-- The object of an object map, once it is checked: its tree, and whether its identity is strict. -/
def readOmapObject (source : RandomAccessSource) (blockSize mapOid maxXid : ℕ) (strict : Bool) :
    Except String (ℕ × Bool) := do
  rejectIf (blockSize = 0 ∨ mapOid = 0) "CatalogOmapRequestInvalid"
  rejectIf ((2 ^ 64 - 1) / blockSize < mapOid) "CatalogOmapBlockOverflow"
  match readBlockAt source (mapOid * blockSize) blockSize with
  | none => .error "CatalogOmapUnreadable"
  | some omap =>
    rejectIf (verifyObjectChecksum omap blockSize = false) "CatalogOmapChecksumInvalid"
    let omapType := (readU32LE omap 0x18).getD 0xFFFFFFFF
    rejectIf (omapType &&& objectTypeMask ≠ objectTypeOmap) "CatalogOmapNotAnOmap"
    rejectIf (maxXid ≠ 0 ∧ maxXid < (readU64LE omap 0x10).getD (2 ^ 64 - 1)) "CatalogOmapFutureXid"
    let treeOid := (readU64LE omap 0x30).getD 0
    rejectIf (treeOid = 0) "CatalogOmapTreeMissing"
    let treeType := (readU32LE omap 0x28).getD 0
    let hasStrictIdentity : Bool :=
      omapType &&& objectStorageTypeMask = objectPhysical ∧
        treeType &&& objectStorageTypeMask = objectPhysical ∧
        treeType &&& objectTypeMask = objectTypeBtree
    rejectIf (strict ∧ (hasStrictIdentity = false ∨ omapType ≠ objectPhysical ||| objectTypeOmap ∨
        treeType ≠ objectPhysical ||| objectTypeBtree ∨ readU32LE omap 28 ≠ some 0 ∨
        (readU64LE omap 16).getD 0 = 0 ∨ readU32LE omap 32 ≠ some 0))
      "CatalogOmapUnsupportedProfile"
    rejectIf (hasStrictIdentity ∧ (readU64LE omap 0x08).getD 0 ≠ mapOid)
      "CatalogOmapObjectIdMismatch"
    return (treeOid, hasStrictIdentity)

/-- The walk that `LoadOmapLookup` asks for.  Its children are physical, so it looks nothing up. -/
def omapRead (source : RandomAccessSource) (blockSize maxXid treeOid : ℕ) (strict : Bool)
    (hasStrictIdentity : Bool) : BtreeRead where
  source := source
  blockSize := blockSize
  rootBlock := treeOid
  childAddressesArePhysical := true
  childObjectMap := .error ""
  maxXidHint := maxXid
  policy :=
    { enforceObjectIdentity := hasStrictIdentity
      rootObjectId := if hasStrictIdentity then treeOid else 0
      storageType := if hasStrictIdentity then objectPhysical else 0
      subtype := if hasStrictIdentity then objectTypeOmap else 0
      includeGhostRecords := false
      ephemeralCheckpoint := none
      requireCompleteTraversal := true
      rejectUnsupportedFlags := strict
      virtualChildResolver := none }
  compareKeys := none
  rootMappingXid := none

/-- `LoadOmapLookup`. -/
def loadOmapLookup (source : RandomAccessSource) (blockSize mapOid maxXid : ℕ) (strict : Bool) :
    Except String (List OmapLookupEntry) := do
  let (treeOid, hasStrictIdentity) ← readOmapObject source blockSize mapOid maxXid strict
  let records ← readBtreeLeafRecords (omapRead source blockSize maxXid treeOid strict
    hasStrictIdentity)
  buildOmapLookup ⟨strict, false, false, 0, "CatalogOmap", false⟩ records

/-- The object map of a walk, as `ReadBtreeLeafRecords` loads it for virtual children. -/
def childObjectMapOf (source : RandomAccessSource) (blockSize childObjectMapOid maxXidHint : ℕ) :
    Except String (ℕ → Option ℕ) := do
  let entries ← loadOmapLookup source blockSize childObjectMapOid maxXidHint false
  return fun childBlock =>
    ((selectOmapLookup entries childBlock maxXidHint "CatalogOmap").toOption).map (·.physicalBlock)

/-! ## The table -/

section Table

variable {rules : OmapRules} {records : List BtreeRecord} {entries : List OmapLookupEntry}

/-- The loop reads every record as its entry. -/
theorem readOmapRecords_eq {previous : Option OmapLookupEntry}
    (h : readOmapRecords rules previous records = .ok entries) :
    entries = records.map omapEntryOf ∧
      ∀ record ∈ records, record.key.length = 16 ∧ record.value.length = 16 := by
  induction records generalizing previous entries with
  | nil =>
    obtain rfl : [] = entries := Except.ok.inj h
    exact ⟨rfl, by simp⟩
  | cons record records ih =>
    rw [readOmapRecords, bind_eq_ok_iff] at h
    obtain ⟨_, hcheck, h⟩ := h
    obtain ⟨rest, hrest, h⟩ := bind_eq_ok_iff.mp h
    obtain rfl : omapEntryOf record :: rest = entries := Except.ok.inj h
    obtain ⟨rfl, hsizes⟩ := ih hrest
    unfold checkOmapRecord at hcheck
    rw [rejectIf_bind_eq_ok_iff] at hcheck
    have hsize := hcheck.1
    simp only [not_or, not_not] at hsize
    exact ⟨rfl, List.forall_mem_cons.mpr ⟨hsize, hsizes⟩⟩

/-- **The table holds the records**, sorted by object and version, and no version twice. -/
theorem buildOmapLookup_spec (h : buildOmapLookup rules records = .ok entries) :
    entries.Perm (records.map omapEntryOf) ∧
      entries.Pairwise fun left right => left.key < right.key := by
  rw [buildOmapLookup, bind_eq_ok_iff] at h
  obtain ⟨unsorted, hread, h⟩ := h
  obtain ⟨rfl, -⟩ := readOmapRecords_eq hread
  dsimp only at h
  split_ifs at h with hchain
  obtain rfl := Except.ok.inj h
  refine ⟨sortBy_perm _ _, pairwise_lt_of_isChain_ne ?_ hchain⟩
  exact pairwise_sortBy_of_rank OmapLookupEntry.key fun left _ right _ => decide_eq_true_iff

end Table

/-! ## The lookup -/

/-- **The newest version that a checkpoint sees**: of the records, the one of the object with the
greatest version that is not above the limit. -/
structure IsNewestVersion (records : List BtreeRecord) (objectId maxXid : ℕ)
    (entry : OmapLookupEntry) : Prop where
  mem : entry ∈ records.map omapEntryOf
  object : entry.objectId = objectId
  visible : entry.value.xid ≤ maxXid
  newest : ∀ other ∈ records.map omapEntryOf, other.objectId = objectId →
    other.value.xid ≤ maxXid → other.value.xid ≤ entry.value.xid

/-- A version that is marked deleted. -/
def OmapValue.Deleted (value : OmapValue) : Prop := value.flags &&& 0x1 ≠ 0

instance (value : OmapValue) : Decidable value.Deleted :=
  inferInstanceAs (Decidable (value.flags &&& 0x1 ≠ 0))

theorem OmapLookupEntry.key_le_iff {entry : OmapLookupEntry} {objectId maxXid : ℕ} :
    entry.key ≤ toLex (objectId, maxXid) ↔
      entry.objectId < objectId ∨ entry.objectId = objectId ∧ entry.value.xid ≤ maxXid := by
  rw [OmapLookupEntry.key, Prod.Lex.toLex_le_toLex]

section Select

variable {rules : OmapRules} {records : List BtreeRecord} {entries : List OmapLookupEntry}
  {objectId maxXid : ℕ}

/-- The last entry that is not after the limit is the newest version, if it is of the object at
all. -/
theorem isNewestVersion_of_getLast? (h : buildOmapLookup rules records = .ok entries)
    {selected : OmapLookupEntry}
    (hlast : (notAfter entries (toLex (objectId, maxXid))).getLast? = some selected) :
    (selected.objectId = objectId → IsNewestVersion records objectId maxXid selected) ∧
      (selected.objectId ≠ objectId → ∀ entry ∈ records.map omapEntryOf,
        entry.objectId = objectId → maxXid < entry.value.xid) := by
  obtain ⟨hperm, hsorted⟩ := buildOmapLookup_spec h
  obtain ⟨hmem, hle, hgreatest⟩ := getLast?_takeWhile_not_lt hsorted hlast
  have hle' := OmapLookupEntry.key_le_iff.mp hle
  -- an entry of the object that is visible is not after the selected one
  have hbefore : ∀ entry ∈ records.map omapEntryOf, entry.objectId = objectId →
      entry.value.xid ≤ maxXid → objectId < selected.objectId ∨
        objectId = selected.objectId ∧ entry.value.xid ≤ selected.value.xid := by
    intro entry hentry hobject hvisible
    have hkey := hgreatest entry (hperm.mem_iff.mpr hentry)
      (OmapLookupEntry.key_le_iff.mpr (Or.inr ⟨hobject, hvisible⟩))
    rw [← hobject]
    exact OmapLookupEntry.key_le_iff.mp hkey
  refine ⟨fun hobject => ⟨hperm.mem_iff.mp hmem, hobject, by omega, fun entry hentry hsame hvisible =>
    ?_⟩, fun hobject entry hentry hsame => ?_⟩
  · have := hbefore entry hentry hsame hvisible
    omega
  · by_contra hvisible
    have := hbefore entry hentry hsame (by omega)
    omega

/-- There is one newest version at most. -/
theorem IsNewestVersion.unique (h : buildOmapLookup rules records = .ok entries)
    {first second : OmapLookupEntry} (hfirst : IsNewestVersion records objectId maxXid first)
    (hsecond : IsNewestVersion records objectId maxXid second) : first = second := by
  obtain ⟨hperm, hsorted⟩ := buildOmapLookup_spec h
  have hxid : first.value.xid = second.value.xid := le_antisymm
    (hsecond.newest first hfirst.mem hfirst.object hfirst.visible)
    (hfirst.newest second hsecond.mem hsecond.object hsecond.visible)
  have hkey : first.key = second.key := by
    rw [OmapLookupEntry.key, OmapLookupEntry.key, hxid, hfirst.object, hsecond.object]
  by_contra hne
  have hsymm : Std.Symm fun left right : OmapLookupEntry => left.key ≠ right.key :=
    ⟨fun _ _ hne => hne.symm⟩
  exact (hsorted.imp fun hlt => ne_of_lt hlt).forall (hperm.mem_iff.mpr hfirst.mem)
    (hperm.mem_iff.mpr hsecond.mem) hne hkey

/-- The test of `SelectOmapLookup`: all ones have the flag of a deleted version too. -/
theorem refused_iff {value : OmapValue} :
    (value.flags = 0xFFFFFFFF ∨ value.flags &&& 0x1 ≠ 0 ∨ value.physicalBlock = 0) ↔
      value.Deleted ∨ value.physicalBlock = 0 := by
  refine ⟨?_, fun hrefused => Or.inr hrefused⟩
  rintro (hones | hrefused)
  · refine Or.inl ?_
    rw [OmapValue.Deleted, hones]
    decide
  · exact hrefused

/-- What `SelectOmapLookup` can answer. -/
theorem selectOmapLookup_cases (h : buildOmapLookup rules records = .ok entries)
    (objectId maxXid : ℕ) (errorPrefix : String) :
    (selectOmapLookup entries objectId maxXid errorPrefix = .error (errorPrefix ++ "ValueMissing") ∧
      ∀ entry ∈ records.map omapEntryOf, entry.objectId = objectId → maxXid < entry.value.xid) ∨
    ∃ entry, IsNewestVersion records objectId maxXid entry ∧
      (selectOmapLookup entries objectId maxXid errorPrefix =
          .error (errorPrefix ++ "ValueDeleted") ∧
          (entry.value.Deleted ∨ entry.value.physicalBlock = 0) ∨
        selectOmapLookup entries objectId maxXid errorPrefix = .ok entry.value ∧
          ¬entry.value.Deleted ∧ entry.value.physicalBlock ≠ 0) := by
  rw [selectOmapLookup]
  cases hlast : (notAfter entries (toLex (objectId, maxXid))).getLast? with
  | none =>
    refine Or.inl ⟨rfl, fun entry hentry hobject => ?_⟩
    obtain ⟨hperm, hsorted⟩ := buildOmapLookup_spec h
    by_contra hvisible
    have htaken : entry ∈ notAfter entries (toLex (objectId, maxXid)) :=
      (mem_takeWhile_not_lt hsorted).mpr ⟨hperm.mem_iff.mpr hentry,
        OmapLookupEntry.key_le_iff.mpr (Or.inr ⟨hobject, by omega⟩)⟩
    rw [List.getLast?_eq_none_iff.mp hlast] at htaken
    exact absurd htaken List.not_mem_nil
  | some selected =>
    obtain ⟨hnewest, hnone⟩ := isNewestVersion_of_getLast? h hlast
    dsimp only
    by_cases hobject : selected.objectId = objectId
    · rw [if_neg (not_not.mpr hobject)]
      refine Or.inr ⟨selected, hnewest hobject, ?_⟩
      rw [if_congr refused_iff rfl rfl]
      by_cases hrefused : selected.value.Deleted ∨ selected.value.physicalBlock = 0
      · rw [if_pos hrefused]
        exact Or.inl ⟨rfl, hrefused⟩
      · rw [if_neg hrefused]
        exact Or.inr ⟨rfl, not_or.mp hrefused⟩
    · rw [if_pos hobject]
      exact Or.inl ⟨rfl, hnone hobject⟩

/-- **The lookup meets its purpose**: it answers with the newest version that is not above the
limit, unless that one is marked deleted or has no block, and with nothing when there is none. -/
theorem selectOmapLookup_spec (h : buildOmapLookup rules records = .ok entries)
    (objectId maxXid : ℕ) (errorPrefix : String) :
    (∀ value, selectOmapLookup entries objectId maxXid errorPrefix = .ok value ↔
      ∃ entry, IsNewestVersion records objectId maxXid entry ∧ entry.value = value ∧
        ¬value.Deleted ∧ value.physicalBlock ≠ 0) ∧
    (selectOmapLookup entries objectId maxXid errorPrefix = .error (errorPrefix ++ "ValueDeleted") ↔
      ∃ entry, IsNewestVersion records objectId maxXid entry ∧
        (entry.value.Deleted ∨ entry.value.physicalBlock = 0)) ∧
    (selectOmapLookup entries objectId maxXid errorPrefix = .error (errorPrefix ++ "ValueMissing") ↔
      ∀ entry ∈ records.map omapEntryOf, entry.objectId = objectId → maxXid < entry.value.xid) := by
  have htexts : errorPrefix ++ "ValueMissing" ≠ errorPrefix ++ "ValueDeleted" := fun heq =>
    absurd ((String.append_right_inj errorPrefix).mp heq) (by decide)
  rcases selectOmapLookup_cases h objectId maxXid errorPrefix with
    ⟨hselect, hnone⟩ | ⟨entry, hnewest, ⟨hselect, hrefused⟩ | ⟨hselect, hlive⟩⟩
  · have hno : ∀ entry, ¬IsNewestVersion records objectId maxXid entry := fun entry hentry => by
      have := hnone entry hentry.mem hentry.object
      have := hentry.visible
      omega
    rw [hselect]
    refine ⟨fun value => ⟨nofun, fun ⟨entry, hentry, _⟩ => ?_⟩,
      ⟨fun heq => absurd (Except.error.inj heq) htexts, fun ⟨entry, hentry, _⟩ => ?_⟩,
      fun _ => hnone, fun _ => rfl⟩
    · exact absurd hentry (hno entry)
    · exact absurd hentry (hno entry)
  · have hvisible : ¬∀ other ∈ records.map omapEntryOf, other.objectId = objectId →
        maxXid < other.value.xid := fun hnone =>
      absurd (hnone entry hnewest.mem hnewest.object) (not_lt.mpr hnewest.visible)
    rw [hselect]
    refine ⟨fun value => ⟨nofun, ?_⟩, ⟨fun _ => ⟨entry, hnewest, hrefused⟩,
      fun _ => rfl⟩, fun heq => absurd (Except.error.inj heq).symm htexts,
      fun hnone => absurd hnone hvisible⟩
    rintro ⟨other, hother, rfl, hlive⟩
    rw [hother.unique h hnewest] at hlive
    exact absurd hrefused (not_or.mpr hlive)
  · have hvisible : ¬∀ other ∈ records.map omapEntryOf, other.objectId = objectId →
        maxXid < other.value.xid := fun hnone =>
      absurd (hnone entry hnewest.mem hnewest.object) (not_lt.mpr hnewest.visible)
    rw [hselect]
    refine ⟨fun value => ⟨fun heq => ?_, ?_⟩, ⟨nofun, ?_⟩,
      nofun, fun hnone => absurd hnone hvisible⟩
    · obtain rfl := Except.ok.inj heq
      exact ⟨entry, hnewest, rfl, hlive⟩
    · rintro ⟨other, hother, rfl, -⟩
      rw [hother.unique h hnewest]
    · rintro ⟨other, hother, hrefused⟩
      rw [hother.unique h hnewest] at hrefused
      exact absurd hrefused (not_or.mpr hlive)

/-- The rules of `LoadOmapLookup`. -/
def catalogOmapRules (strict : Bool) : OmapRules := ⟨strict, false, false, 0, "CatalogOmap", false⟩

/-- The record of a version. -/
def omapRecord (objectId xid flags physicalBlock : ℕ) : BtreeRecord :=
  ⟨leBytes 8 objectId ++ leBytes 8 xid,
    leBytes 4 flags ++ leBytes 4 4096 ++ leBytes 8 physicalBlock⟩

/-- Object 5 moves and is then without a block; object 6 is deleted. -/
def sampleOmapRecords : List BtreeRecord :=
  [omapRecord 6 4 1 300, omapRecord 5 7 0 0, omapRecord 5 3 0 200]

theorem sampleOmapRecords_build : buildOmapLookup (catalogOmapRules true) sampleOmapRecords =
    .ok [⟨5, ⟨0, 4096, 200, 3⟩⟩, ⟨5, ⟨0, 4096, 0, 7⟩⟩, ⟨6, ⟨1, 4096, 300, 4⟩⟩] := by
  decide +kernel

theorem selectOmapLookup_spec_limit :
    selectOmapLookup [⟨5, ⟨0, 4096, 200, 3⟩⟩, ⟨5, ⟨0, 4096, 0, 7⟩⟩, ⟨6, ⟨1, 4096, 300, 4⟩⟩] 5 6
        "CatalogOmap" = .ok ⟨0, 4096, 200, 3⟩ ∧
      ∃ entry, IsNewestVersion sampleOmapRecords 5 6 entry ∧ entry.value = ⟨0, 4096, 200, 3⟩ ∧
        ¬entry.value.Deleted ∧ entry.value.physicalBlock ≠ 0 := by
  have hselect : selectOmapLookup
      [⟨5, ⟨0, 4096, 200, 3⟩⟩, ⟨5, ⟨0, 4096, 0, 7⟩⟩, ⟨6, ⟨1, 4096, 300, 4⟩⟩] 5 6 "CatalogOmap" =
      .ok ⟨0, 4096, 200, 3⟩ := by decide +kernel
  obtain ⟨entry, hnewest, hvalue, hlive⟩ :=
    ((selectOmapLookup_spec sampleOmapRecords_build 5 6 "CatalogOmap").1 _).mp hselect
  exact ⟨hselect, entry, hnewest, hvalue, hvalue ▸ hlive⟩

/-- A newest version that is not marked deleted, and is not returned: it has no block. -/
theorem selectOmapLookup_blockless :
    ∃ entries entry, buildOmapLookup (catalogOmapRules true) sampleOmapRecords = .ok entries ∧
      IsNewestVersion sampleOmapRecords 5 9 entry ∧ ¬entry.value.Deleted ∧
      selectOmapLookup entries 5 9 "CatalogOmap" = .error "CatalogOmapValueDeleted" := by
  refine ⟨_, ⟨5, ⟨0, 4096, 0, 7⟩⟩, sampleOmapRecords_build, ⟨by decide +kernel, rfl, by decide,
    by decide +kernel⟩, by decide, by decide +kernel⟩

/-- What the lookup answers where there is a newest version. -/
theorem IsNewestVersion.select {entry : OmapLookupEntry}
    (h : IsNewestVersion records objectId maxXid entry)
    (hbuild : buildOmapLookup rules records = .ok entries) (errorPrefix : String) :
    selectOmapLookup entries objectId maxXid errorPrefix =
      if entry.value.Deleted ∨ entry.value.physicalBlock = 0 then
        .error (errorPrefix ++ "ValueDeleted")
      else .ok entry.value := by
  rcases selectOmapLookup_cases hbuild objectId maxXid errorPrefix with
    ⟨-, hnone⟩ | ⟨other, hother, hcases⟩
  · exact absurd (hnone entry h.mem h.object) (not_lt.mpr h.visible)
  obtain rfl := h.unique hbuild hother
  rcases hcases with ⟨hselect, hrefused⟩ | ⟨hselect, hlive⟩
  · rw [hselect, if_pos hrefused]
  · rw [hselect, if_neg (not_or.mpr hlive)]

/-- Maps that hold the same versions of an object, as far as a checkpoint sees them, answer alike. -/
theorem selectOmapLookup_congr {rules' : OmapRules} {records' : List BtreeRecord}
    {entries' : List OmapLookupEntry} (hbuild : buildOmapLookup rules records = .ok entries)
    (hbuild' : buildOmapLookup rules' records' = .ok entries')
    (hsame : ∀ entry : OmapLookupEntry, entry.objectId = objectId → entry.value.xid ≤ maxXid →
      (entry ∈ records'.map omapEntryOf ↔ entry ∈ records.map omapEntryOf)) (errorPrefix : String) :
    selectOmapLookup entries' objectId maxXid errorPrefix =
      selectOmapLookup entries objectId maxXid errorPrefix := by
  rcases selectOmapLookup_cases hbuild objectId maxXid errorPrefix with
    ⟨hselect, hnone⟩ | ⟨entry, hnewest, -⟩
  · rcases selectOmapLookup_cases hbuild' objectId maxXid errorPrefix with
      ⟨hselect', -⟩ | ⟨entry, hnewest, -⟩
    · rw [hselect, hselect']
    · have hlt := hnone entry ((hsame entry hnewest.object hnewest.visible).mp hnewest.mem)
        hnewest.object
      exact absurd hnewest.visible (not_le.mpr hlt)
  · have hnewest' : IsNewestVersion records' objectId maxXid entry :=
      ⟨(hsame entry hnewest.object hnewest.visible).mpr hnewest.mem, hnewest.object,
        hnewest.visible, fun other hother hobject hvisible =>
          hnewest.newest other ((hsame other hobject hvisible).mp hother) hobject hvisible⟩
    rw [hnewest.select hbuild, hnewest'.select hbuild']

/-- **A transaction publishes versions and takes none away.**  The checkpoints before it, and the
objects that it did not write, read what they read before; an object that it wrote reads from then on
what was written, or as deleted. -/
theorem published_versions {rules' : OmapRules} {records' published : List BtreeRecord}
    {entries' : List OmapLookupEntry} {xid : ℕ}
    (hbuild : buildOmapLookup rules records = .ok entries)
    (hbuild' : buildOmapLookup rules' records' = .ok entries')
    (hrecords : records'.Perm (published ++ records))
    (holder : ∀ entry ∈ records.map omapEntryOf, entry.value.xid < xid)
    (hpublished : ∀ entry ∈ published.map omapEntryOf, entry.value.xid = xid) :
    (∀ objectId maxXid errorPrefix, maxXid < xid ∨
        (∀ entry ∈ published.map omapEntryOf, entry.objectId ≠ objectId) →
      selectOmapLookup entries' objectId maxXid errorPrefix =
        selectOmapLookup entries objectId maxXid errorPrefix) ∧
    ∀ entry ∈ published.map omapEntryOf, ∀ maxXid errorPrefix, xid ≤ maxXid →
      selectOmapLookup entries' entry.objectId maxXid errorPrefix =
        if entry.value.Deleted ∨ entry.value.physicalBlock = 0 then
          .error (errorPrefix ++ "ValueDeleted")
        else .ok entry.value := by
  have hmem : ∀ entry : OmapLookupEntry, entry ∈ records'.map omapEntryOf ↔
      entry ∈ published.map omapEntryOf ∨ entry ∈ records.map omapEntryOf := fun entry => by
    rw [(hrecords.map omapEntryOf).mem_iff, List.map_append, List.mem_append]
  refine ⟨fun objectId maxXid errorPrefix huntouched =>
    selectOmapLookup_congr hbuild hbuild' (fun entry hobject hvisible => ?_) errorPrefix,
    fun entry hentry maxXid errorPrefix hvisible => ?_⟩
  · rw [hmem, or_iff_right]
    intro hentry
    rcases huntouched with hlt | huntouched
    · have := hpublished entry hentry
      omega
    · exact huntouched entry hentry hobject
  · have hxid := hpublished entry hentry
    refine IsNewestVersion.select ⟨(hmem entry).mpr (.inl hentry), rfl, by omega, ?_⟩ hbuild' _
    intro other hother _ _
    rcases (hmem other).mp hother with hnew | hold
    · exact ((hpublished other hnew).trans hxid.symm).le
    · exact (hxid ▸ holder other hold).le

/-- Transaction 9 moves object 5, and the checkpoint of transaction 6 does not see it. -/
theorem published_versions_move : ∃ entries',
    buildOmapLookup (catalogOmapRules true) (omapRecord 5 9 0 500 :: sampleOmapRecords) =
      .ok entries' ∧
    selectOmapLookup entries' 5 6 "CatalogOmap" = .ok ⟨0, 4096, 200, 3⟩ ∧
    selectOmapLookup entries' 5 9 "CatalogOmap" = .ok ⟨0, 4096, 500, 9⟩ := by
  have hbuild : buildOmapLookup (catalogOmapRules true)
      (omapRecord 5 9 0 500 :: sampleOmapRecords) = .ok [⟨5, ⟨0, 4096, 200, 3⟩⟩,
        ⟨5, ⟨0, 4096, 0, 7⟩⟩, ⟨5, ⟨0, 4096, 500, 9⟩⟩, ⟨6, ⟨1, 4096, 300, 4⟩⟩] := by decide +kernel
  obtain ⟨holder, hwritten⟩ := @published_versions _ _ _ _ _ [omapRecord 5 9 0 500] _ 9
    sampleOmapRecords_build hbuild (List.Perm.refl _) (by decide +kernel) (by decide +kernel)
  exact ⟨_, hbuild, (holder 5 6 "CatalogOmap" (.inl (by norm_num))).trans (by decide +kernel),
    (hwritten ⟨5, ⟨0, 4096, 500, 9⟩⟩ (by decide +kernel) 9 "CatalogOmap" le_rfl).trans
      (by decide +kernel)⟩

end Select

end Btree
end ApfsAccess
