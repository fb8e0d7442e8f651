import ApfsAccess.Btree.Writer

/-!
# What a built node holds

A node is written field by field into a zeroed block: header, then for every record a
row of the table, a key growing up from the table and a value growing down from the
end, then the free-space fields, the footer of a root and the checksum.  None of
these fields meets another, so all of them are still there at the end.

* `writeEntries_spec` : the entry loop, by induction over the records.  Its frame
  condition names the three regions the loop leaves alone: below the next row of the
  table, between the start of the key area and the key cursor, and above the value
  cursor.
* `buildNode_spec` : the whole node, as a `BuiltNode`.
-/

namespace ApfsAccess
namespace Btree

open Format ByteBuffer Extents Sorting

/-! ## The size test -/

/-- The bytes that the keys of some records take up. -/
def keySpans (aligned : Bool) (records : List BtreeRecord) : ℕ :=
  (records.map fun record => storedLength record.key.length aligned).sum

/-- The bytes that the values of some records take up. -/
def valueSpans (aligned : Bool) (records : List BtreeRecord) : ℕ :=
  (records.map fun record => storedLength record.value.length aligned).sum

@[simp] theorem keySpans_cons (aligned : Bool) (record : BtreeRecord)
    (records : List BtreeRecord) :
    keySpans aligned (record :: records) =
      storedLength record.key.length aligned + keySpans aligned records := rfl

@[simp] theorem valueSpans_cons (aligned : Bool) (record : BtreeRecord)
    (records : List BtreeRecord) :
    valueSpans aligned (record :: records) =
      storedLength record.value.length aligned + valueSpans aligned records := rfl

@[simp] theorem storedLength_zero (aligned : Bool) : storedLength 0 aligned = 0 := by
  cases aligned <;> rfl

theorem nodeFitsFrom_spec {options : AppleBtreeOptions} {leaf : Bool} {used : ℕ}
    {records : List BtreeRecord} (h : nodeFitsFrom options leaf used records = true) :
    (∀ record ∈ records, recordAdmitted options leaf record = true) ∧
      used + keySpans (nodeAligned options) records + valueSpans (nodeAligned options) records ≤
        options.blockSize := by
  induction records generalizing used with
  | nil =>
    refine ⟨by simp, ?_⟩
    exact of_decide_eq_true h
  | cons record records ih =>
    simp only [nodeFitsFrom, Bool.and_eq_true] at h
    obtain ⟨⟨⟨hadmitted, -⟩, -⟩, hrest⟩ := h
    obtain ⟨hall, hsum⟩ := ih hrest
    refine ⟨List.forall_mem_cons.mpr ⟨hadmitted, hall⟩, ?_⟩
    rw [keySpans_cons, valueSpans_cons]
    omega

/-! ## The entry loop -/

/-- Some fields are in place in a buffer. -/
def FieldsAt (bytes : Bytes) (fields : List (ℕ × Bytes)) : Prop :=
  ∀ field ∈ fields, slice bytes field.1 field.2.length = field.2

/-- The value cursor after a record. -/
def nextValueCursor (shape : NodeShape) (valueCursor : ℕ) (record : BtreeRecord) : ℕ :=
  valueCursor - storedLength record.value.length shape.aligned

/-- The rows, keys and values of some records are in place from given cursors on. -/
def EntriesAt (shape : NodeShape) (bytes : Bytes) : List BtreeRecord → ℕ → ℕ → ℕ → Prop
  | [], _, _, _ => True
  | record :: records, toc, keyCursor, valueCursor =>
    FieldsAt bytes
        (entryFields shape toc keyCursor (nextValueCursor shape valueCursor record) record) ∧
      EntriesAt shape bytes records (toc + entrySize shape.fixed)
        (keyCursor + storedLength record.key.length shape.aligned)
        (nextValueCursor shape valueCursor record)

theorem valueSpan_eq (shape : NodeShape) (record : BtreeRecord) :
    (if isGhost shape.leaf record then 0 else storedLength record.value.length shape.aligned) =
      storedLength record.value.length shape.aligned := by
  split
  · rename_i hghost
    simp only [isGhost, Bool.and_eq_true, List.isEmpty_iff] at hghost
    rw [hghost.2, List.length_nil, storedLength_zero]
  · rfl

/-- Where the fields of one entry lie. -/
theorem entryFields_region {shape : NodeShape} {toc keyCursor valueCursor : ℕ}
    {record : BtreeRecord} {field : ℕ × Bytes}
    (h : field ∈ entryFields shape toc keyCursor valueCursor record) :
    (toc ≤ field.1 ∧ field.1 + field.2.length ≤ toc + entrySize shape.fixed) ∨
      field = (keyCursor, record.key) ∨ field = (valueCursor, record.value) := by
  unfold entryFields entrySize at *
  simp only [List.mem_append] at h
  rcases h with ((h | h) | h) | h
  · obtain rfl := List.mem_singleton.mp h
    left
    rw [length_leBytes]
    split <;> omega
  · left
    split at h
    · rename_i hfixed
      obtain rfl := List.mem_singleton.mp h
      rw [length_leBytes, if_pos hfixed]
      omega
    · rename_i hfixed
      rw [if_neg hfixed]
      simp only [List.mem_cons, List.not_mem_nil, or_false] at h
      rcases h with rfl | rfl | rfl <;> rw [length_leBytes] <;> omega
  · exact .inr (.inl (List.mem_singleton.mp h))
  · split at h
    · cases h
    · exact .inr (.inr (List.mem_singleton.mp h))

theorem entryFields_apart {shape : NodeShape} {toc keyCursor valueCursor : ℕ}
    {record : BtreeRecord} (htoc : toc + entrySize shape.fixed ≤ keyCursor)
    (hkey : keyCursor + record.key.length ≤ valueCursor) :
    (entryFields shape toc keyCursor valueCursor record).Pairwise
      fun f g => Apart f.1 f.2.length g.1 g.2.length := by
  unfold entryFields entrySize at *
  cases hfixed : shape.fixed <;> cases hghost : isGhost shape.leaf record <;>
    simp only [hfixed, Bool.false_eq_true, if_false, if_true, List.cons_append, List.nil_append,
      List.append_nil, List.pairwise_cons, List.mem_cons, List.not_mem_nil, or_false,
      forall_eq_or_imp, forall_eq, length_leBytes, Apart, List.Pairwise.nil, IsEmpty.forall_iff,
      implies_true, and_true] at htoc ⊢ <;>
    omega

/-- One pass of the entry loop that did not fail. -/
theorem writeEntries_cons_eq_ok {shape : NodeShape} {record : BtreeRecord}
    {records : List BtreeRecord} {toc keyCursor valueCursor : ℕ} {bytes : Bytes}
    {result : Bytes × ℕ × ℕ}
    (h : writeEntries shape (record :: records) toc bytes keyCursor valueCursor = .ok result) :
    writeEntries shape records (toc + entrySize shape.fixed)
      (writeAll bytes
        (entryFields shape toc keyCursor (nextValueCursor shape valueCursor record) record))
      (keyCursor + storedLength record.key.length shape.aligned)
      (nextValueCursor shape valueCursor record) = .ok result := by
  rw [writeEntries] at h
  simp only [valueSpan_eq] at h
  generalize (if isGhost shape.leaf record = true then 0xFFFF else
    shape.infoStart - (valueCursor - storedLength record.value.length shape.aligned)) = offset at h
  split at h
  · cases h
  · exact h

/-- What the entry loop leaves behind. -/
structure EntriesWritten (shape : NodeShape) (records : List BtreeRecord)
    (toc keyCursor valueCursor : ℕ) (bytes result : Bytes) (keyEnd valueEnd : ℕ) : Prop where
  length : result.length = bytes.length
  keyEnd : keyEnd = keyCursor + keySpans shape.aligned records
  valueEnd : valueEnd + valueSpans shape.aligned records = valueCursor
  frame : ∀ off len,
    off + len ≤ toc ∨ (shape.keyAreaStart ≤ off ∧ off + len ≤ keyCursor) ∨ valueCursor ≤ off →
      slice result off len = slice bytes off len
  entries : EntriesAt shape result records toc keyCursor valueCursor

/-- **The entry loop.**  By induction over the records: what one pass has written lies in
the regions that the later passes leave alone. -/
theorem writeEntries_spec {shape : NodeShape} {records : List BtreeRecord}
    {toc keyCursor valueCursor : ℕ} {bytes result : Bytes} {keyEnd valueEnd : ℕ}
    (h : writeEntries shape records toc bytes keyCursor valueCursor =
      .ok (result, keyEnd, valueEnd))
    (htoc : toc + records.length * entrySize shape.fixed ≤ shape.keyAreaStart)
    (hkey : shape.keyAreaStart ≤ keyCursor)
    (hfit : keyCursor + keySpans shape.aligned records + valueSpans shape.aligned records ≤
      valueCursor)
    (hlength : valueCursor ≤ bytes.length) :
    EntriesWritten shape records toc keyCursor valueCursor bytes result keyEnd valueEnd := by
  induction records generalizing toc keyCursor valueCursor bytes with
  | nil =>
    unfold writeEntries at h
    simp only [Except.ok.injEq, Prod.mk.injEq] at h
    obtain ⟨rfl, rfl, rfl⟩ := h
    exact ⟨rfl, rfl, rfl, fun _ _ _ => rfl, trivial⟩
  | cons record records ih =>
    replace h := writeEntries_cons_eq_ok h
    rw [keySpans_cons, valueSpans_cons] at hfit
    rw [List.length_cons, Nat.succ_mul] at htoc
    have hkeyLe := le_storedLength record.key.length shape.aligned
    have hvalueLe := le_storedLength record.value.length shape.aligned
    set next := nextValueCursor shape valueCursor record with hnext
    have hnextEq : next + storedLength record.value.length shape.aligned = valueCursor := by
      rw [hnext]
      unfold nextValueCursor
      omega
    set fields := entryFields shape toc keyCursor next record with hfields
    have hregion : ∀ field ∈ fields,
        (toc ≤ field.1 ∧ field.1 + field.2.length ≤ toc + entrySize shape.fixed) ∨
          (keyCursor ≤ field.1 ∧ field.1 + field.2.length ≤
            keyCursor + storedLength record.key.length shape.aligned) ∨
          (next ≤ field.1 ∧ field.1 + field.2.length ≤ valueCursor) := by
      intro field hfield
      rcases entryFields_region hfield with hrow | rfl | rfl
      · exact .inl hrow
      · exact .inr (.inl ⟨le_rfl, by simpa using hkeyLe⟩)
      · exact .inr (.inr ⟨le_rfl, by simp only; omega⟩)
    have hbound : ∀ field ∈ fields, field.1 + field.2.length ≤ bytes.length := by
      intro field hfield
      rcases hregion field hfield with hrow | hrow | hrow <;> omega
    have hwritten := length_writeAll hbound
    obtain ⟨hlen, hkeyEnd, hvalueEnd, hframe, hentries⟩ :=
      ih h (by omega) (by omega) (by omega) (by rw [hwritten]; omega)
    refine ⟨hlen.trans hwritten, ?_, ?_, ?_, ?_, hentries⟩
    · rw [hkeyEnd, keySpans_cons]
      omega
    · rw [valueSpans_cons]
      omega
    · intro off len hoff
      rw [hframe off len (by omega)]
      refine slice_writeAll_of_apart hbound fun field hfield => ?_
      unfold Apart
      rcases hregion field hfield with hrow | hrow | hrow <;> omega
    · intro field hfield
      have hapart : fields.Pairwise fun f g => Apart f.1 f.2.length g.1 g.2.length :=
        entryFields_apart (by omega) (by omega)
      rw [hframe field.1 field.2.length
        (by rcases hregion field hfield with hrow | hrow | hrow <;> omega)]
      exact slice_writeAll_of_mem hbound hapart hfield

/-! ## The node -/

/-- What a built node's block holds. -/
structure BuiltNode (options : AppleBtreeOptions) (totals : TreeTotals) (node : PendingTreeNode)
    (root : Bool) (bytes : Bytes) : Prop where
  length : bytes.length = options.blockSize
  checksum : verifyObjectChecksum bytes options.blockSize = true
  admitted : ∀ record ∈ node.records, recordAdmitted options (node.level == 0) record = true
  fits : (nodeShape node root options).keyAreaStart +
      keySpans (nodeAligned options) node.records + valueSpans (nodeAligned options) node.records ≤
    (nodeShape node root options).infoStart
  header : FieldsAt bytes (headerFields node root options)
  freeSpace : FieldsAt bytes (freeSpaceFields (keySpans (nodeAligned options) node.records)
    ((nodeShape node root options).infoStart - valueSpans (nodeAligned options) node.records -
      ((nodeShape node root options).keyAreaStart + keySpans (nodeAligned options) node.records)))
  info : root = true →
    FieldsAt bytes (infoFields options totals (nodeShape node root options).infoStart)
  entries : EntriesAt (nodeShape node root options) bytes node.records btreeNodeHeaderBytes
    (nodeShape node root options).keyAreaStart (nodeShape node root options).infoStart

/-- Fields stay in place in a buffer that agrees with theirs wherever they lie. -/
theorem FieldsAt.congr {bytes bytes' : Bytes} {fields : List (ℕ × Bytes)}
    (h : FieldsAt bytes fields)
    (hslice : ∀ field ∈ fields,
      slice bytes' field.1 field.2.length = slice bytes field.1 field.2.length) :
    FieldsAt bytes' fields :=
  fun field hfield => (hslice field hfield).trans (h field hfield)

theorem EntriesAt.congr {shape : NodeShape} {bytes bytes' : Bytes} {records : List BtreeRecord}
    {toc keyCursor valueCursor : ℕ}
    (h : EntriesAt shape bytes records toc keyCursor valueCursor)
    (hfit : keyCursor + keySpans shape.aligned records + valueSpans shape.aligned records ≤
      valueCursor)
    (htoc : toc + records.length * entrySize shape.fixed ≤ keyCursor)
    (hslice : ∀ off len, toc ≤ off → off + len ≤ valueCursor →
      slice bytes' off len = slice bytes off len) :
    EntriesAt shape bytes' records toc keyCursor valueCursor := by
  induction records generalizing toc keyCursor valueCursor with
  | nil => trivial
  | cons record records ih =>
    rw [keySpans_cons, valueSpans_cons] at hfit
    rw [List.length_cons, Nat.succ_mul] at htoc
    have hkeyLe := le_storedLength record.key.length shape.aligned
    have hvalueLe := le_storedLength record.value.length shape.aligned
    have hnext : nextValueCursor shape valueCursor record +
        storedLength record.value.length shape.aligned = valueCursor := by
      unfold nextValueCursor
      omega
    refine ⟨h.1.congr fun field hfield => ?_, ih h.2 (by omega) (by omega) fun off len hoff hlen =>
      hslice off len (by omega) (by omega)⟩
    rcases entryFields_region hfield with hrow | rfl | rfl
    · exact hslice _ _ hrow.1 (by omega)
    · exact hslice _ _ (by simp only; omega) (by simp only; omega)
    · exact hslice _ _ (by simp only; omega) (by simp only; omega)

/-- The header fields lie between the checksum and the free-space fields. -/
theorem headerFields_region {node : PendingTreeNode} {root : Bool} {options : AppleBtreeOptions}
    {field : ℕ × Bytes} (h : field ∈ headerFields node root options) :
    8 ≤ field.1 ∧ field.1 + field.2.length ≤ 0x2C := by
  simp only [headerFields, List.mem_cons, List.not_mem_nil, or_false] at h
  rcases h with rfl | rfl | rfl | rfl | rfl | rfl | rfl | rfl | rfl <;> simp

theorem freeSpaceFields_region {keyUsed freeBytes : ℕ} {field : ℕ × Bytes}
    (h : field ∈ freeSpaceFields keyUsed freeBytes) :
    0x2C ≤ field.1 ∧ field.1 + field.2.length ≤ btreeNodeHeaderBytes := by
  simp only [freeSpaceFields, List.mem_cons, List.not_mem_nil, or_false] at h
  rcases h with rfl | rfl | rfl | rfl <;> simp [btreeNodeHeaderBytes]

theorem infoFields_region {options : AppleBtreeOptions} {totals : TreeTotals} {infoStart : ℕ}
    {field : ℕ × Bytes} (h : field ∈ infoFields options totals infoStart) :
    infoStart ≤ field.1 ∧ field.1 + field.2.length ≤ infoStart + btreeInfoBytes := by
  simp only [infoFields, List.mem_cons, List.not_mem_nil, or_false] at h
  rcases h with rfl | rfl | rfl | rfl | rfl | rfl | rfl | rfl <;> simp [btreeInfoBytes]

theorem headerFields_apart (node : PendingTreeNode) (root : Bool) (options : AppleBtreeOptions) :
    (headerFields node root options).Pairwise fun f g => Apart f.1 f.2.length g.1 g.2.length := by
  simp [headerFields, Apart]

theorem freeSpaceFields_apart (keyUsed freeBytes : ℕ) :
    (freeSpaceFields keyUsed freeBytes).Pairwise
      fun f g => Apart f.1 f.2.length g.1 g.2.length := by
  simp [freeSpaceFields, Apart]

theorem infoFields_apart (options : AppleBtreeOptions) (totals : TreeTotals) (infoStart : ℕ) :
    (infoFields options totals infoStart).Pairwise
      fun f g => Apart f.1 f.2.length g.1 g.2.length := by
  simp only [infoFields, Apart, List.pairwise_cons, List.mem_cons, List.not_mem_nil, or_false,
    forall_eq_or_imp, forall_eq, length_leBytes, List.Pairwise.nil, IsEmpty.forall_iff,
    implies_true, and_true]
  omega

/-- The footer of a root leaves no gaps, so writing it is writing one field. -/
theorem writeAll_infoFields (bytes : Bytes) (options : AppleBtreeOptions) (totals : TreeTotals)
    (infoStart : ℕ) : writeAll bytes (infoFields options totals infoStart) =
      splice bytes infoStart ((infoFields options totals infoStart).map Prod.snd).flatten := by
  simp only [infoFields]
  rw [writeAll_adjacent _ _ (by simp), writeAll_adjacent _ _ (by simp),
    writeAll_adjacent _ _ (by simp), writeAll_adjacent _ _ (by simp),
    writeAll_adjacent _ _ (by simp), writeAll_adjacent _ _ (by simp),
    writeAll_adjacent _ _ (by simp), writeAll_cons, writeAll_nil]
  simp only [List.map_cons, List.map_nil, List.flatten_cons, List.flatten_nil, List.append_nil,
    List.append_assoc]

/-- The location that goes with a built node. -/
def nodeLocation (node : PendingTreeNode) (root : Bool) (options : AppleBtreeOptions) :
    AppleObjectLocation :=
  { objectId := node.objectId
    xid := options.xid
    physicalBlock := node.physicalBlock
    type := options.storageType ||| nodeBaseType root
    subtype := options.subtype
    sizeBytes := options.blockSize }

/-- A node that was built went through every stage. -/
theorem buildNode_eq_ok {node : PendingTreeNode} {root : Bool} {options : AppleBtreeOptions}
    {totals : TreeTotals} {object : AppleSerializedObject}
    (h : buildNode node root options totals = .ok object) :
    object.location = nodeLocation node root options ∧
      nodeFits node.records root (node.level == 0) options = true ∧
      ∃ entries keyEnd valueEnd,
        writeEntries (nodeShape node root options) node.records btreeNodeHeaderBytes
            (writeAll (List.replicate options.blockSize 0) (headerFields node root options))
            (nodeShape node root options).keyAreaStart (nodeShape node root options).infoStart =
          .ok (entries, keyEnd, valueEnd) ∧
        finalizeAppleObjectChecksum
            (if root then
              writeAll
                (writeAll entries
                  (freeSpaceFields (keyEnd - (nodeShape node root options).keyAreaStart)
                    (valueEnd - keyEnd)))
                (infoFields options totals (nodeShape node root options).infoStart)
            else
              writeAll entries
                (freeSpaceFields (keyEnd - (nodeShape node root options).keyAreaStart)
                  (valueEnd - keyEnd))) = .ok object.bytes := by
  unfold buildNode at h
  simp only at h
  split at h
  · cases h
  · rename_i hfits
    simp only [Bool.not_eq_true', Bool.not_eq_false] at hfits
    split at h
    · cases h
    · split at h
      · cases h
      · rename_i entries keyEnd valueEnd hentries
        split at h
        · cases h
        · split at h
          · cases h
          · split at h
            · cases h
            · rename_i bytes hbytes
              obtain rfl := Except.ok.inj h
              exact ⟨rfl, hfits, entries, keyEnd, valueEnd, hentries, hbytes⟩

/-- Where the areas of a node that fits lie. -/
theorem nodeShape_bounds {node : PendingTreeNode} {root : Bool} {options : AppleBtreeOptions}
    (h : nodeFits node.records root (node.level == 0) options = true) :
    (nodeShape node root options).infoStart + (if root then btreeInfoBytes else 0) =
        options.blockSize ∧
      btreeNodeHeaderBytes + node.records.length * entrySize (nodeShape node root options).fixed ≤
        (nodeShape node root options).keyAreaStart ∧
      (nodeShape node root options).keyAreaStart +
          keySpans (nodeAligned options) node.records +
          valueSpans (nodeAligned options) node.records ≤
        (nodeShape node root options).infoStart := by
  obtain ⟨-, hsum⟩ := nodeFitsFrom_spec h
  have htable := le_storedLength
    (node.records.length * entrySize (nodeUsesFixedKv options (node.level == 0)))
    (nodeAligned options)
  unfold nodeShape
  simp only
  unfold tableBytes at *
  refine ⟨?_, by omega, ?_⟩
  · split
    · rename_i hroot
      rw [if_pos hroot] at hsum
      omega
    · rfl
  · split
    · rename_i hroot
      rw [if_pos hroot] at hsum
      omega
    · rename_i hroot
      rw [if_neg hroot] at hsum
      omega

/-- **A built node holds what it was built from.** -/
theorem buildNode_spec {node : PendingTreeNode} {root : Bool} {options : AppleBtreeOptions}
    {totals : TreeTotals} {object : AppleSerializedObject}
    (h : buildNode node root options totals = .ok object) :
    object.location = nodeLocation node root options ∧
      BuiltNode options totals node root object.bytes := by
  obtain ⟨hlocation, hfits, entries, keyEnd, valueEnd, hentries, hfinal⟩ := buildNode_eq_ok h
  refine ⟨hlocation, ?_⟩
  obtain ⟨hadmitted, -⟩ := nodeFitsFrom_spec hfits
  obtain ⟨hinfo, htable, hfit⟩ := nodeShape_bounds hfits
  set shape := nodeShape node root options with hshape
  have haligned : shape.aligned = nodeAligned options := rfl
  have hheaderBytes : btreeNodeHeaderBytes = 0x38 := rfl
  -- the header is written into a zeroed block
  set blank : Bytes := List.replicate options.blockSize 0 with hblank
  have hblankLength : blank.length = options.blockSize := List.length_replicate
  have hheaderBound : ∀ field ∈ headerFields node root options,
      field.1 + field.2.length ≤ blank.length := by
    intro field hfield
    have hregion := headerFields_region hfield
    omega
  have hheaderLength := length_writeAll hheaderBound
  -- the entries leave it alone
  obtain ⟨hlength, hkeyEnd, hvalueEnd, hframe, hentriesAt⟩ :=
    writeEntries_spec hentries htable le_rfl (by rw [haligned]; omega) (by omega)
  rw [haligned] at hkeyEnd hvalueEnd
  have hused : keyEnd - shape.keyAreaStart = keySpans (nodeAligned options) node.records := by
    omega
  have hfree : valueEnd - keyEnd = shape.infoStart -
      valueSpans (nodeAligned options) node.records -
      (shape.keyAreaStart + keySpans (nodeAligned options) node.records) := by
    omega
  rw [hused, hfree] at hfinal
  set freeFields := freeSpaceFields (keySpans (nodeAligned options) node.records)
    (shape.infoStart - valueSpans (nodeAligned options) node.records -
      (shape.keyAreaStart + keySpans (nodeAligned options) node.records)) with hfreeFields
  have hfreeBound : ∀ field ∈ freeFields, field.1 + field.2.length ≤ entries.length := by
    intro field hfield
    have hregion := freeSpaceFields_region hfield
    omega
  have hfreeLength := length_writeAll hfreeBound
  -- and so do the free-space fields and the footer with what was there before
  have hinfoBound : root = true → ∀ field ∈ infoFields options totals shape.infoStart,
      field.1 + field.2.length ≤ (writeAll entries freeFields).length := by
    intro hroot field hfield
    have hregion := infoFields_region hfield
    rw [if_pos hroot] at hinfo
    omega
  obtain ⟨hsealedLength, hchecksum, hsealed⟩ := finalizeAppleObjectChecksum_spec hfinal
  have hbodyLength : (if root then writeAll (writeAll entries freeFields)
      (infoFields options totals shape.infoStart) else writeAll entries freeFields).length =
      options.blockSize := by
    split
    · rename_i hroot
      rw [length_writeAll (hinfoBound hroot)]
      omega
    · omega
  have hbody : ∀ off len, 8 ≤ off → off + len ≤ shape.infoStart →
      slice object.bytes off len = slice (writeAll entries freeFields) off len := by
    intro off len hoff hlen
    rw [hsealed off len hoff]
    split
    · rename_i hroot
      refine slice_writeAll_of_apart (hinfoBound hroot) fun field hfield => .inl ?_
      have hregion := infoFields_region hfield
      omega
    · rfl
  have hkept : ∀ off len, 8 ≤ off → off + len ≤ shape.infoStart →
      off + len ≤ 0x2C ∨ btreeNodeHeaderBytes ≤ off →
      slice object.bytes off len = slice entries off len := by
    intro off len hoff hlen hapart
    rw [hbody off len hoff hlen]
    refine slice_writeAll_of_apart hfreeBound fun field hfield => ?_
    have hregion := freeSpaceFields_region hfield
    unfold Apart
    omega
  refine
    { length := hsealedLength.trans hbodyLength
      checksum := by rwa [hbodyLength] at hchecksum
      admitted := hadmitted
      fits := hfit
      header := fun field hfield => ?_
      freeSpace := fun field hfield => ?_
      info := fun hroot field hfield => ?_
      entries := hentriesAt.congr (by rw [haligned]; omega) htable fun off len hoff hlen =>
        hkept off len (by omega) hlen (.inr hoff) }
  · have hregion := headerFields_region hfield
    rw [hkept _ _ hregion.1 (by omega) (.inl hregion.2), hframe _ _ (.inl (by omega))]
    exact slice_writeAll_of_mem hheaderBound (headerFields_apart node root options) hfield
  · have hregion := freeSpaceFields_region hfield
    rw [hbody _ _ (by omega) (by omega)]
    exact slice_writeAll_of_mem hfreeBound (freeSpaceFields_apart _ _) hfield
  · have hregion : shape.infoStart ≤ field.1 ∧ _ := infoFields_region hfield
    rw [hsealed _ _ (by omega), if_pos hroot]
    exact slice_writeAll_of_mem (hinfoBound hroot) (infoFields_apart _ _ _) hfield

end Btree
end ApfsAccess
