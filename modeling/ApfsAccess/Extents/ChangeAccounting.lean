import ApfsAccess.Extents.Changes

/-!
# Accounting for the changes of file extents

`CollectFileExtentChanges` works on logical ranges: every requested mapping is
looked up in the old uses, and what the requested mappings leave of an old use is
cut out as removed fragments.  This module carries the accounting over to physical
blocks.

* `FileExtentUse.Holds` : a block lies in a logical range of an old use.
* `countP_removedUses` : at every block, an old use is made of its kept parts and
  its removed fragments.
* `collectFileExtentChanges_self` : against itself, a record list has no changes.
* `countP_requested_add_removed` : **where no clone adds a reference, the requested
  mappings and the removed ones of a block add up to the old ones.**
-/

namespace ApfsAccess
namespace Extents

open Format ByteBuffer Sorting

/-! ## The prior entry -/

/-- The prior entry has the largest key that is not above the one asked for. -/
theorem prior_eq_some {scope : MutationScope} {key : ℕ × ℕ} {old : FileExtentUse} {index : ℕ}
    (h : scope.prior key = some (old, index)) :
    scope.oldUses[index]? = some old ∧ extentKeyLE old.key key = true ∧
      ∀ other ∈ scope.oldUses, extentKeyLE other.key key = true →
        extentKeyLE other.key old.key = true := by
  unfold MutationScope.prior at h
  obtain ⟨front, hfront⟩ := List.getLast?_eq_some_iff.mp h
  have hmem : (old, index) ∈ (oldByKey scope.oldUses).filter
      fun entry => extentKeyLE entry.1.key key := by
    rw [hfront]
    exact List.mem_append_right front List.mem_cons_self
  obtain ⟨hold, hle⟩ := List.mem_filter.mp hmem
  refine ⟨mem_oldByKey.mp hold, hle, fun other hother hkey => ?_⟩
  obtain ⟨position, hposition⟩ := List.getElem?_of_mem hother
  have hentry : (other, position) ∈ front ++ [(old, index)] := by
    rw [← hfront]
    exact List.mem_filter.mpr ⟨mem_oldByKey.mpr hposition, hkey⟩
  have hsorted := (keySorted_oldByKey scope.oldUses).filter
    fun entry => extentKeyLE entry.1.key key
  rw [hfront] at hsorted
  rcases List.mem_append.mp hentry with hentry | hentry
  · exact (List.pairwise_append.mp hsorted).2.2 _ hentry _ List.mem_cons_self
  · rw [(Prod.mk.inj (List.mem_singleton.mp hentry)).1]
    exact extentKeyLE_iff.mpr (.inr ⟨rfl, le_refl _⟩)

/-- An old use is its own prior entry. -/
theorem prior_self {scope : MutationScope} (hnodup : (scope.oldUses.map FileExtentUse.key).Nodup)
    {use : FileExtentUse} {index : ℕ} (h : scope.oldUses[index]? = some use) :
    scope.prior use.key = some (use, index) := by
  have hrefl : extentKeyLE use.key use.key = true := extentKeyLE_iff.mpr (.inr ⟨rfl, le_refl _⟩)
  cases hprior : scope.prior use.key with
  | none =>
    unfold MutationScope.prior at hprior
    rw [List.getLast?_eq_none_iff, List.filter_eq_nil_iff] at hprior
    exact absurd hrefl (hprior (use, index) (mem_oldByKey.mpr h))
  | some entry =>
    obtain ⟨old, position⟩ := entry
    obtain ⟨hold, hle, hmax⟩ := prior_eq_some hprior
    have hkey : old.key = use.key :=
      extentKeyLE_antisymm hle (hmax use (List.mem_of_getElem? h) hrefl)
    have hposition : position = index := by
      obtain ⟨hlt, -⟩ := List.getElem?_eq_some_iff.mp hold
      have hkeys : (scope.oldUses.map FileExtentUse.key)[position]? =
          (scope.oldUses.map FileExtentUse.key)[index]? := by
        rw [List.getElem?_map, List.getElem?_map, hold, h, Option.map_some, Option.map_some, hkey]
      exact (List.getElem?_inj (by simpa using hlt) hnodup).mp hkeys
    subst hposition
    rw [hold] at h
    rw [Option.some.inj h]

/-! ## Blocks and logical ranges -/

/-- The block lies in the logical range from `start` to `finish` of the use. -/
def FileExtentUse.Holds (old : FileExtentUse) (start finish block : ℕ) : Prop :=
  old.extent.physicalBlock ≠ 0 ∧ old.extent.physicalBlock ≤ block ∧
    start ≤ old.extent.logicalAddress +
      (block - old.extent.physicalBlock) * old.extent.blockSize ∧
    old.extent.logicalAddress + (block - old.extent.physicalBlock) * old.extent.blockSize < finish

instance (old : FileExtentUse) (start finish block : ℕ) :
    Decidable (old.Holds start finish block) :=
  inferInstanceAs (Decidable (_ ∧ _ ∧ _ ∧ _))

/-- A use that is an exact subrange of an old one maps the blocks of its logical
range. -/
theorem maps_iff_holds {blockSize : ℕ} (old use : FileExtentUse)
    (hold : old.extent.Valid blockSize) (hsize : use.extent.blockSize = blockSize)
    (hstart : old.extent.logicalAddress ≤ use.extent.logicalAddress)
    (haligned : blockSize ∣ use.extent.logicalAddress) (hlength : blockSize ∣ use.extent.lengthBytes)
    (hphysical : use.extent.physicalBlock =
      physicalAt old.extent use.extent.logicalAddress blockSize) (block : ℕ) :
    use.Maps block ↔ old.Holds use.extent.logicalAddress use.logicalEnd block := by
  have hpos := hold.blockSize_pos
  obtain ⟨offset, hoffset⟩ := Nat.dvd_sub haligned hold.logical_aligned
  obtain ⟨blocks, hblocks⟩ := hlength
  have hlogical : use.extent.logicalAddress = old.extent.logicalAddress + blockSize * offset := by
    omega
  unfold FileExtentUse.Maps FileExtentUse.Holds FileExtentUse.extentEnd FileExtentUse.blocks
    FileExtentUse.logicalEnd
  rw [hphysical, hsize, hold.blockSize_eq, hblocks, Nat.mul_div_cancel_left _ hpos]
  unfold physicalAt
  by_cases hzero : old.extent.physicalBlock = 0
  · simp [hzero]
  · rw [if_pos hzero, hoffset, Nat.mul_div_cancel_left _ hpos, hlogical]
    have hle : old.extent.logicalAddress + blockSize * offset ≤
        old.extent.logicalAddress + (block - old.extent.physicalBlock) * blockSize ↔
        offset ≤ block - old.extent.physicalBlock := by
      rw [Nat.add_le_add_iff_left, Nat.mul_comm _ blockSize, Nat.mul_le_mul_left_iff hpos]
    have hlt : old.extent.logicalAddress + (block - old.extent.physicalBlock) * blockSize <
        old.extent.logicalAddress + blockSize * offset + blockSize * blocks ↔
        block - old.extent.physicalBlock < offset + blocks := by
      rw [Nat.add_assoc, Nat.add_lt_add_iff_left, Nat.mul_comm _ blockSize, ← Nat.mul_add,
        Nat.mul_lt_mul_left hpos]
    rw [hle, hlt]
    constructor
    · rintro ⟨-, hfrom, hto⟩
      exact ⟨hzero, by omega, by omega, by omega⟩
    · rintro ⟨-, hfrom, hafter, hto⟩
      exact ⟨by omega, by omega, by omega⟩

/-- Ranges that follow one another. -/
theorem holds_split (old : FileExtentUse) {start middle finish : ℕ} (h1 : start ≤ middle)
    (h2 : middle ≤ finish) (block : ℕ) :
    (if old.Holds start middle block then 1 else 0) +
        (if old.Holds middle finish block then 1 else 0) =
      if old.Holds start finish block then 1 else 0 := by
  by_cases hfirst : old.Holds start middle block
  · rw [if_pos hfirst, if_neg fun hsecond => absurd hsecond.2.2.1 (not_le.mpr hfirst.2.2.2),
      if_pos ⟨hfirst.1, hfirst.2.1, hfirst.2.2.1, hfirst.2.2.2.trans_le h2⟩]
  · rw [if_neg hfirst, zero_add]
    refine if_congr ?_ rfl rfl
    unfold FileExtentUse.Holds at hfirst ⊢
    omega

/-! ## Removed fragments -/

theorem countP_removedFragment {blockSize : ℕ} {old : FileExtentUse}
    (hold : old.extent.Valid blockSize) (whole : Bool) {start finish : ℕ}
    (hstart : old.extent.logicalAddress ≤ start) (hle : start ≤ finish)
    (haligned : blockSize ∣ start) (haligned' : blockSize ∣ finish) (block : ℕ) :
    (removedFragment blockSize old whole start finish).countP (fun use => use.Maps block) =
      if old.Holds start finish block then 1 else 0 := by
  unfold removedFragment
  by_cases heq : start = finish
  · rw [if_pos heq, List.countP_nil, if_neg]
    rintro ⟨-, -, hfrom, hto⟩
    omega
  · rw [if_neg heq, List.countP_singleton]
    have hmaps := maps_iff_holds old (fragmentOf blockSize old whole start finish) hold
      hold.blockSize_eq hstart haligned (Nat.dvd_sub haligned' haligned) rfl block
    have hend : (fragmentOf blockSize old whole start finish).logicalEnd = finish := by
      show start + (finish - start) = finish
      omega
    rw [hend] at hmaps
    simp only [hmaps, decide_eq_true_eq]
    rfl

/-- What is known of a kept part of a use. -/
structure KeptPart (blockSize : ℕ) (old : FileExtentUse) (part : ℕ × ℕ) : Prop where
  start_le : old.extent.logicalAddress ≤ part.1
  lt : part.1 < part.2
  le_end : part.2 ≤ old.logicalEnd
  aligned : blockSize ∣ part.1
  aligned_end : blockSize ∣ part.2

/-- The walk over the kept parts of a use: from the cursor on, each block of the use
is in one fragment or one part. -/
theorem countP_removedFragments {blockSize : ℕ} {old : FileExtentUse}
    (hold : old.extent.Valid blockSize) {whole : Bool} {parts : List (ℕ × ℕ)} {cursor : ℕ}
    {fragments : List FileExtentUse} (hparts : ∀ part ∈ parts, KeptPart blockSize old part)
    (hstart : old.extent.logicalAddress ≤ cursor) (hcursor : cursor ≤ old.logicalEnd)
    (haligned : blockSize ∣ cursor)
    (h : removedFragments blockSize old whole parts cursor = .ok fragments) (block : ℕ) :
    fragments.countP (fun use => use.Maps block) +
        parts.countP (fun part => old.Holds part.1 part.2 block) =
      if old.Holds cursor old.logicalEnd block then 1 else 0 := by
  induction parts generalizing cursor fragments with
  | nil =>
    obtain rfl := Except.ok.inj h
    rw [List.countP_nil, add_zero]
    exact countP_removedFragment hold whole hstart hcursor haligned
      (Nat.dvd_add hold.logical_aligned hold.length_aligned) block
  | cons part rest ih =>
    have hpart := hparts part List.mem_cons_self
    rw [removedFragments] at h
    split at h
    · cases h
    · rename_i hafter
      split at h
      · cases h
      · rename_i others hothers
        obtain rfl := Except.ok.inj h
        have hle : part.1 ≤ part.2 := hpart.lt.le
        have hrest := ih (fun other hother => hparts other (List.mem_cons_of_mem part hother))
          (hpart.start_le.trans hle) hpart.le_end hpart.aligned_end hothers
        have hgap := countP_removedFragment hold whole hstart (not_lt.mp hafter) haligned
          hpart.aligned block
        have hsplit := holds_split old (not_lt.mp hafter) hle block
        have hsplit' := holds_split old ((not_lt.mp hafter).trans hle) hpart.le_end block
        rw [List.countP_append, List.countP_cons, hgap]
        simp only [decide_eq_true_eq]
        omega

/-- A predicate that splits in two splits the count. -/
theorem countP_split {α : Type*} {p q r : α → Bool} (xs : List α)
    (h : ∀ x ∈ xs, (p x = true ↔ q x = true ∨ r x = true) ∧ ¬ (q x = true ∧ r x = true)) :
    xs.countP p = xs.countP q + xs.countP r := by
  induction xs with
  | nil => rfl
  | cons x xs ih =>
    rw [List.countP_cons, List.countP_cons, List.countP_cons,
      ih fun y hy => h y (List.mem_cons_of_mem x hy)]
    obtain ⟨hiff, hnot⟩ := h x List.mem_cons_self
    cases hp : p x <;> cases hq : q x <;> cases hr : r x <;> simp_all <;> omega

/-- The part of the old use at its position holds the block; the positions count
from `first`. -/
def partHolds (olds : List FileExtentUse) (first block : ℕ) (part : ℕ × ℕ × ℕ) : Bool :=
  decide (first ≤ part.1) &&
    (olds[part.1 - first]?).any fun old => decide (old.Holds part.2.1 part.2.2 block)

theorem countP_partsOf (parts : List (ℕ × ℕ × ℕ)) (index : ℕ) (p : ℕ × ℕ → Bool) :
    (partsOf parts index).countP p = parts.countP fun part => part.1 == index && p part.2 := by
  unfold partsOf
  rw [(sortBy_perm _ _).countP_eq, List.countP_map, List.countP_filter]
  refine List.countP_congr fun part _ => ?_
  simp [and_comm]

/-- **At every block, the old uses are made of their kept parts and the removed
fragments.** -/
theorem countP_removedUses {blockSize : ℕ} {parts : List (ℕ × ℕ × ℕ)} {olds : List FileExtentUse}
    {first : ℕ} {removed : List FileExtentUse}
    (hdecoded : ∀ old ∈ olds, old.Decoded blockSize)
    (hparts : ∀ part ∈ parts, ∀ old, first ≤ part.1 → olds[part.1 - first]? = some old →
      KeptPart blockSize old part.2)
    (h : removedUses blockSize parts olds first = .ok removed) (block : ℕ) :
    removed.countP (fun use => use.Maps block) + parts.countP (partHolds olds first block) =
      olds.countP fun use => use.Maps block := by
  induction olds generalizing first removed with
  | nil =>
    obtain rfl := Except.ok.inj h
    simp only [List.countP_nil, zero_add, List.countP_eq_zero]
    intro part _
    simp [partHolds]
  | cons old rest ih =>
    rw [removedUses] at h
    split at h
    · cases h
    · rename_i fragments hfragments
      split at h
      · cases h
      · rename_i others hothers
        obtain rfl := Except.ok.inj h
        have hold := (hdecoded old List.mem_cons_self).valid
        have hkept : ∀ part ∈ partsOf parts first, KeptPart blockSize old part := by
          intro part hpart
          unfold partsOf at hpart
          rw [(sortBy_perm _ _).mem_iff, List.mem_map] at hpart
          obtain ⟨entry, hentry, rfl⟩ := hpart
          obtain ⟨hmem, hindex⟩ := List.mem_filter.mp hentry
          have hindex : entry.1 = first := by simpa using hindex
          exact hparts entry hmem old hindex.ge (by rw [hindex]; simp)
        have hwalk := countP_removedFragments hold hkept (le_refl _) (Nat.le_add_right _ _)
          hold.logical_aligned hfragments block
        have hself := maps_iff_holds old old hold hold.blockSize_eq (le_refl _)
          hold.logical_aligned hold.length_aligned (by unfold physicalAt; split <;> simp_all) block
        have hrest := ih (fun other hother => hdecoded other (List.mem_cons_of_mem old hother))
          (fun part hpart other hfirst hother => hparts part hpart other (by omega) (by
            have heq : part.1 - first = part.1 - (first + 1) + 1 := by omega
            rw [heq, List.getElem?_cons_succ]
            exact hother)) hothers
        -- a part belongs to this use or to a later one
        have hsplit : parts.countP (partHolds (old :: rest) first block) =
            parts.countP (fun part => part.1 == first &&
              decide (old.Holds part.2.1 part.2.2 block)) +
            parts.countP (partHolds rest (first + 1) block) := by
          refine countP_split parts fun part _ => ?_
          unfold partHolds
          rcases Nat.lt_trichotomy part.1 first with hlt | heq | hgt
          · simp only [beq_iff_eq, Bool.and_eq_true, decide_eq_true_eq]
            omega
          · simp [heq]
          · have heq : part.1 - first = part.1 - (first + 1) + 1 := by omega
            rw [heq, List.getElem?_cons_succ]
            simp only [beq_iff_eq, Bool.and_eq_true, decide_eq_true_eq]
            constructor
            · constructor
              · rintro ⟨-, hany⟩
                exact .inr ⟨hgt, hany⟩
              · rintro (⟨heq, -⟩ | ⟨-, hany⟩)
                · omega
                · exact ⟨hgt.le, hany⟩
            · rintro ⟨⟨heq, -⟩, -⟩
              omega
        rw [List.countP_append, hsplit, List.countP_cons,
          ← countP_partsOf parts first fun part => decide (old.Holds part.1 part.2 block)]
        simp only [hself, decide_eq_true_eq] at hwalk ⊢
        omega

/-! ## Requested mappings -/

/-- The requested mapping is a reference that a clone adds. -/
def isCloneReference (cloneStreams : List (ℕ × ℕ)) (cloneRange : Option AppleCloneRangeMapping)
    (extent : AppleFileExtentRecord) : Bool :=
  (cloneStreams.lookup extent.objectId).isSome || cloneRange.any fun range => range.covers extent

theorem map_eq_ok_iff {α β ε : Type*} {f : α → β} {x : Except ε α} {b : β} :
    x.map f = .ok b ↔ ∃ a, x = .ok a ∧ f a = b := by
  cases x <;> simp [Except.map]

/-- A requested mapping maps nothing, or a clone adds it, or it is a kept part of its
prior entry. -/
theorem requestedUse_ok {scope : MutationScope} {record : BtreeRecord} {use : FileExtentUse}
    {part : Option (ℕ × ℕ × ℕ)} (h : requestedUse scope record use = .ok part) :
    (part = none ∧ (use.extent.physicalBlock = 0 ∨
        isCloneReference scope.cloneStreams scope.cloneRange use.extent = true)) ∨
      ∃ old index, scope.prior (scope.source use.extent) = some (old, index) ∧
        part = some (index, use.extent.logicalAddress, use.logicalEnd) ∧
        scope.admitRetained record old use.extent = .ok () := by
  unfold requestedUse at h
  simp only at h
  split at h
  · cases h
  · rename_i hstraddle
    split at h
    · rename_i hhole
      obtain ⟨-, -, rfl⟩ := map_eq_ok_iff.mp h
      unfold MutationScope.newHole at hhole
      simp only [Bool.and_eq_true, beq_iff_eq] at hhole
      exact .inl ⟨rfl, .inl hhole.1.1.1⟩
    · split at h
      · cases h
      · rename_i old index hprior
        split at h
        · rename_i hrange
          obtain ⟨-, -, rfl⟩ := map_eq_ok_iff.mp h
          have hcovers : scope.cloneRange.any (fun range => range.covers use.extent) = true := by
            simpa [hrange] using hstraddle
          exact .inl ⟨rfl, .inr (by simp [isCloneReference, hcovers])⟩
        · split at h
          · rename_i hclone
            obtain ⟨-, -, rfl⟩ := map_eq_ok_iff.mp h
            exact .inl ⟨rfl, .inr (by rw [isCloneReference, hclone, Bool.true_or])⟩
          · obtain ⟨⟨⟩, hadmit, rfl⟩ := map_eq_ok_iff.mp h
            exact .inr ⟨old, index, hprior, rfl, hadmit⟩

/-- What a kept mapping is: an exact subrange of the old use. -/
theorem admitRetained_ok {scope : MutationScope} {record : BtreeRecord} {old use : FileExtentUse}
    (hold : old.Decoded scope.blockSize)
    (huse : decodeAppleFileExtentRecord record scope.blockSize = .ok use.extent)
    (h : scope.admitRetained record old use.extent = .ok ()) :
    KeptPart scope.blockSize old (use.extent.logicalAddress, use.logicalEnd) ∧
      use.extent.physicalBlock =
        physicalAt old.extent use.extent.logicalAddress scope.blockSize := by
  have hvalid := decodeAppleFileExtentRecord_valid huse
  unfold MutationScope.admitRetained at h
  simp only at h
  split at h
  · cases h
  · rename_i hwithin
    simp only [not_or, not_not, Bool.not_eq_true, Bool.not_eq_false'] at hwithin
    obtain ⟨-, hwithin⟩ := hwithin
    unfold withinExtent at hwithin
    simp only [Bool.and_eq_true, decide_eq_true_eq] at hwithin
    obtain ⟨⟨hstart, hinside⟩, hlength⟩ := hwithin
    have hpos := hvalid.length_pos
    constructor
    · refine ⟨hstart, ?_, ?_, hvalid.logical_aligned,
        Nat.dvd_add hvalid.logical_aligned hvalid.length_aligned⟩
      · show use.extent.logicalAddress < use.extent.logicalAddress + use.extent.lengthBytes
        omega
      · show use.extent.logicalAddress + use.extent.lengthBytes ≤
          old.extent.logicalAddress + old.extent.lengthBytes
        omega
    · split at h
      · cases h
      · rename_i hexact
        by_cases hsame : old.record = some record
        · -- the record is the old one, so the extents are the same
          obtain ⟨own, hown, hdecode⟩ := hold.record
          obtain rfl : own = record := Option.some.inj (hown.symm.trans hsame)
          have hextent : old.extent = use.extent := Except.ok.inj (hdecode.symm.trans huse)
          rw [hextent]
          unfold physicalAt
          split <;> simp_all
        · by_contra hphysical
          exact hexact ⟨hsame, .inr (.inr (.inr hphysical))⟩

/-- Every requested file extent decodes, the kept parts are parts of old uses, and
where no clone adds a reference they hold what the requested extents map. -/
theorem retainedParts_ok {scope : MutationScope} {requested : List BtreeRecord}
    {parts : List (ℕ × ℕ × ℕ)} (hdecoded : ∀ old ∈ scope.oldUses, old.Decoded scope.blockSize)
    (h : retainedParts scope requested = .ok parts) :
    (∀ part ∈ parts, ∃ old, scope.oldUses[part.1]? = some old ∧
        KeptPart scope.blockSize old part.2) ∧
      ∃ uses, decodeFileExtentUses requested scope.blockSize scope.requestedOwners = some uses ∧
        ∀ block, (∀ use ∈ uses, use.Maps block →
            isCloneReference scope.cloneStreams scope.cloneRange use.extent = false) →
          uses.countP (fun use => use.Maps block) =
            parts.countP (partHolds scope.oldUses 0 block) := by
  induction requested generalizing parts with
  | nil =>
    obtain rfl := Except.ok.inj h
    exact ⟨fun part hpart => absurd hpart List.not_mem_nil, [], rfl, fun block _ => rfl⟩
  | cons record rest ih =>
    rw [retainedParts] at h
    rw [decodeFileExtentUses_cons]
    split at h
    · rename_i hfile
      rw [if_neg (by simpa using hfile)]
      exact ih h
    · rename_i hfile
      rw [if_pos (by simpa using hfile)]
      split at h
      · cases h
      · rename_i use hdecode
        split at h
        · cases h
        · rename_i part hpart
          split at h
          · cases h
          · rename_i others hothers
            obtain rfl := Except.ok.inj h
            obtain ⟨hkept, uses, huses, hcount⟩ := ih hothers
            have hextent := (decodeFileExtentUse_eq_some_iff.mp hdecode).1
            have hvalid := decodeAppleFileExtentRecord_valid hextent
            rw [hdecode, huses]
            rcases requestedUse_ok hpart with ⟨rfl, hnone⟩ | ⟨old, index, hprior, rfl, hadmit⟩
            · refine ⟨hkept, use :: uses, rfl, fun block hclones => ?_⟩
              have hmaps : ¬ use.Maps block := by
                intro hmaps
                rcases hnone with hzero | hclone
                · exact hmaps.1 hzero
                · rw [hclones use List.mem_cons_self hmaps] at hclone
                  cases hclone
              rw [List.countP_cons_of_neg (by simpa using hmaps)]
              exact hcount block fun other hother => hclones other (List.mem_cons_of_mem use hother)
            · obtain ⟨hold, -, -⟩ := prior_eq_some hprior
              have holdDecoded := hdecoded old (List.mem_of_getElem? hold)
              obtain ⟨hpart, hphysical⟩ := admitRetained_ok holdDecoded hextent hadmit
              constructor
              · intro entry hentry
                rcases List.mem_cons.mp hentry with rfl | hentry
                · exact ⟨old, hold, hpart⟩
                · exact hkept entry hentry
              · refine ⟨use :: uses, rfl, fun block hclones => ?_⟩
                have hmaps := maps_iff_holds old use holdDecoded.valid hvalid.blockSize_eq
                  hpart.start_le hvalid.logical_aligned hvalid.length_aligned hphysical block
                have hrest := hcount block fun other hother =>
                  hclones other (List.mem_cons_of_mem use hother)
                show _ = ((index, _, _) :: others).countP _
                rw [List.countP_cons, List.countP_cons, hrest]
                simp [partHolds, hold, hmaps]

/-- **Where no clone adds a reference, the requested mappings of a block and the
removed ones add up to the old ones.** -/
theorem countP_requested_add_removed {oldRecords requestedRecords : List BtreeRecord}
    {blockSize : ℕ} {cloneStreams : List (ℕ × ℕ)} {observational : Bool}
    {cloneRange : Option AppleCloneRangeMapping} {oldUses removed : List FileExtentUse}
    (h : collectFileExtentChanges oldRecords requestedRecords blockSize cloneStreams observational
      cloneRange = .ok (oldUses, removed)) :
    ∃ owners uses, collectExternalStreamOwners requestedRecords = .ok owners ∧
      decodeFileExtentUses requestedRecords blockSize owners = some uses ∧
      ∀ block, (∀ use ∈ uses, use.Maps block →
          isCloneReference cloneStreams cloneRange use.extent = false) →
        uses.countP (fun use => use.Maps block) + removed.countP (fun use => use.Maps block) =
          oldUses.countP fun use => use.Maps block := by
  obtain ⟨oldOwners, requestedOwners, profile, parts, -, hrequested, huses, -, -, hparts,
    hremoved⟩ := collectFileExtentChanges_eq_ok_iff.mp h
  have hdecoded := decoded_of_mem huses
  obtain ⟨hkept, uses, hrequestedUses, hcount⟩ := retainedParts_ok hdecoded hparts
  refine ⟨requestedOwners, uses, hrequested, hrequestedUses, fun block hclones => ?_⟩
  have hremovedCount := countP_removedUses hdecoded (fun part hpart old _ hold => by
    obtain ⟨old', hold', hpart'⟩ := hkept part hpart
    rw [Nat.sub_zero] at hold
    obtain rfl : old' = old := Option.some.inj (hold'.symm.trans hold)
    exact hpart') hremoved block
  have hcountBlock := hcount block hclones
  simp only at hcountBlock
  omega

/-! ## A record list against itself -/

theorem requestedUse_self {scope : MutationScope} (hstreams : scope.cloneStreams = [])
    (hrange : scope.cloneRange = none) (hnodup : (scope.oldUses.map FileExtentUse.key).Nodup)
    {record : BtreeRecord} {use : FileExtentUse} {index : ℕ}
    (hrecord : use.record = some record) (hpos : 0 < use.extent.lengthBytes)
    (h : scope.oldUses[index]? = some use) :
    requestedUse scope record use =
      .ok (some (index, use.extent.logicalAddress, use.logicalEnd)) := by
  have hreference : scope.rangeReference use.extent = false := by
    rw [MutationScope.rangeReference, hrange, Option.any_none]
  have hsource : scope.source use.extent = use.key := by
    unfold MutationScope.source FileExtentUse.key
    simp [hrange, hstreams]
  have hprior := prior_self hnodup h
  have hwithin : withinExtent use.extent use.extent use.extent.logicalAddress = true := by
    unfold withinExtent
    simp [hpos]
  have hhole : scope.newHole use.extent = false := by
    unfold MutationScope.newHole MutationScope.retainsZero
    rw [hsource, hprior, hreference]
    by_cases hzero : use.extent.physicalBlock = 0 ∧ use.extent.cryptoId = 0
    · simp [FileExtentUse.key, hzero.1, hzero.2, hwithin]
    · by_cases hphysical : use.extent.physicalBlock = 0
      · simp [hphysical, show ¬ use.extent.cryptoId = 0 from fun hcrypto =>
          hzero ⟨hphysical, hcrypto⟩]
      · simp [hphysical]
  have hadmit : scope.admitRetained record use use.extent = .ok () := by
    unfold MutationScope.admitRetained
    simp [hwithin, hrecord]
  unfold requestedUse
  simp only [hreference, Bool.false_and, Bool.false_eq_true, if_false, hhole, hsource, hprior,
    hstreams, List.lookup_nil, Option.isSome_none, hadmit]
  rfl

/-- The part of a use that is kept as a whole. -/
def wholePart (entry : FileExtentUse × ℕ) : ℕ × ℕ × ℕ :=
  (entry.2, entry.1.extent.logicalAddress, entry.1.logicalEnd)

theorem retainedParts_self {scope : MutationScope} (hstreams : scope.cloneStreams = [])
    (hrange : scope.cloneRange = none) (hnodup : (scope.oldUses.map FileExtentUse.key).Nodup)
    {rest : List BtreeRecord} {uses : List FileExtentUse} {first : ℕ}
    (huses : decodeFileExtentUses rest scope.blockSize scope.requestedOwners = some uses)
    (hpositions : ∀ index use, uses[index]? = some use →
      scope.oldUses[first + index]? = some use) :
    retainedParts scope rest = .ok ((uses.zipIdx first).map wholePart) := by
  induction rest generalizing uses first with
  | nil =>
    rw [decodeFileExtentUses_nil] at huses
    obtain rfl := Option.some.inj huses
    rfl
  | cons record rest ih =>
    rw [decodeFileExtentUses_cons] at huses
    rw [retainedParts]
    by_cases hfile : isFileExtentRecord record
    · rw [if_pos hfile] at huses
      obtain ⟨use, hdecode, hrest⟩ := Option.bind_eq_some_iff.mp huses
      obtain ⟨others, hothers, rfl⟩ := Option.map_eq_some_iff.mp hrest
      obtain ⟨hextent, hrecord, -⟩ := decodeFileExtentUse_eq_some_iff.mp hdecode
      have hself := requestedUse_self hstreams hrange hnodup hrecord
        (decodeAppleFileExtentRecord_valid hextent).length_pos (hpositions 0 use rfl)
      have htail : retainedParts scope rest = .ok ((others.zipIdx (first + 1)).map wholePart) :=
        ih hothers fun index other hother => by
          rw [Nat.add_assoc, Nat.add_comm 1 index]
          exact hpositions (index + 1) other hother
      simp only [hfile, Bool.not_true, Bool.false_eq_true, if_false, hdecode, hself, htail]
      rfl
    · rw [if_neg hfile] at huses
      simp only [hfile, Bool.not_false, if_true]
      exact ih huses hpositions

theorem filter_zipIdx {α : Type*} {xs : List α} (first : ℕ) {index : ℕ} {x : α}
    (h : xs[index]? = some x) :
    (xs.zipIdx first).filter (fun entry => entry.2 == first + index) = [(x, first + index)] := by
  induction xs generalizing first index with
  | nil => cases h
  | cons y xs ih =>
    rw [List.zipIdx_cons]
    cases index with
    | zero =>
      obtain rfl : y = x := Option.some.inj h
      rw [List.filter_cons_of_pos (by simp), Nat.add_zero]
      have hnone : (xs.zipIdx (first + 1)).filter (fun entry => entry.2 == first) = [] := by
        rw [List.filter_eq_nil_iff]
        intro entry hentry
        have := List.le_snd_of_mem_zipIdx hentry
        simp only [beq_iff_eq]
        omega
      rw [hnone]
    | succ index =>
      rw [List.filter_cons_of_neg (by simp)]
      have := ih (first + 1) h
      rwa [show first + 1 + index = first + (index + 1) by omega] at this

theorem partsOf_wholeParts {uses : List FileExtentUse} {index : ℕ} {use : FileExtentUse}
    (h : uses[index]? = some use) :
    partsOf ((uses.zipIdx 0).map wholePart) index =
      [(use.extent.logicalAddress, use.logicalEnd)] := by
  have hfilter : ((uses.zipIdx 0).map wholePart).filter (fun part => part.1 == index) =
      [wholePart (use, index)] := by
    have hentry := filter_zipIdx 0 h
    rw [Nat.zero_add] at hentry
    rw [List.filter_map]
    show ((uses.zipIdx 0).filter fun entry => entry.2 == index).map wholePart = _
    rw [hentry]
    rfl
  unfold partsOf
  rw [hfilter]
  rfl

theorem removedUses_self {blockSize : ℕ} {parts : List (ℕ × ℕ × ℕ)} {olds : List FileExtentUse}
    {first : ℕ} (h : ∀ index old, olds[index]? = some old →
      partsOf parts (first + index) = [(old.extent.logicalAddress, old.logicalEnd)]) :
    removedUses blockSize parts olds first = .ok [] := by
  induction olds generalizing first with
  | nil => rfl
  | cons old rest ih =>
    have hpart := h 0 old rfl
    have htail : removedUses blockSize parts rest (first + 1) = .ok [] :=
      ih fun index other hother => by
        rw [Nat.add_assoc, Nat.add_comm 1 index]
        exact h (index + 1) other hother
    rw [Nat.add_zero] at hpart
    rw [removedUses, hpart, htail]
    simp [removedFragments, removedFragment, FileExtentUse.logicalEnd]

/-- **Against itself, an admitted record list has no changes.** -/
theorem collectFileExtentChanges_self {records : List BtreeRecord} {blockSize : ℕ}
    {observational : Bool} {owners : ExternalStreamOwners} {uses : List FileExtentUse}
    {profile : StreamProfile} (howners : collectExternalStreamOwners records = .ok owners)
    (huses : decodeFileExtentUses records blockSize owners = some uses)
    (hdisjoint : uses.Pairwise LogicallyDisjoint)
    (hprofile : streamProfile records uses owners observational = .ok profile) :
    collectFileExtentChanges records records blockSize [] observational none = .ok (uses, []) := by
  have hnodup := nodup_keys_of_disjoint (decoded_of_mem huses) hdisjoint
  refine collectFileExtentChanges_eq_ok_iff.mpr ⟨owners, owners, profile,
    (uses.zipIdx 0).map wholePart, howners, howners, huses, hdisjoint, hprofile, ?_, ?_⟩
  · refine retainedParts_self rfl rfl hnodup huses fun index use h => ?_
    rw [Nat.zero_add]
    exact h
  · refine removedUses_self fun index old h => ?_
    rw [Nat.zero_add]
    exact partsOf_wholeParts h

end Extents
end ApfsAccess
