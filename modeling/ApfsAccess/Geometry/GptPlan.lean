import ApfsAccess.Geometry.Gpt

/-!
# What an accepted plan is

`Build` refuses a snapshot or returns a plan.  `Accepted` says what it has checked when it
returns one, and `Accepted.writes` what the plan of a partition profile then writes: one
sector of the backup array, the backup header, one sector of the primary array and the
primary header, in this order and at four different sectors.

* `headerOf_headerChecksum` : a header whose checksums are renewed stays valid.
* `build_accepted` : what `Build` has checked.
* `Accepted.writes_eq` : the four writes.
* `Accepted.apart` : the partitions of the new table do not meet.
-/

namespace ApfsAccess
namespace Geometry

open Format ByteBuffer Storage

variable {crc32 : Bytes → UInt32}

/-! ## Renewing the checksums -/

theorem splice_splice_self {xs seg seg' : Bytes} {off : ℕ} (hlength : seg.length = seg'.length)
    (h : off + seg.length ≤ xs.length) : splice (splice xs off seg) off seg' = splice xs off seg' := by
  have hlen := length_splice h
  apply List.ext_getElem?
  intro i
  rw [getElem?_splice (by omega), getElem?_splice h, getElem?_splice (by omega)]
  split
  · rfl
  · split
    · rfl
    · rw [if_neg (by omega)]

theorem splice_take {xs seg : Bytes} {off n : ℕ} (h : off + seg.length ≤ n) (hn : n ≤ xs.length) :
    splice (xs.take n) off seg = (splice xs off seg).take n := by
  apply List.ext_getElem?
  intro i
  rw [getElem?_splice (by rw [List.length_take]; omega), List.getElem?_take, List.getElem?_take,
    getElem?_splice (by omega)]
  by_cases hi : i < n
  · rw [if_pos hi, if_pos hi]
  · rw [if_neg hi, if_neg hi, if_neg (by omega), if_neg (by omega)]

theorem readN_putLE {width : ℕ} {buffer : Bytes} {offset value off : ℕ}
    (h : offset + width ≤ buffer.length) (hdisjoint : off + 8 ≤ offset ∨ offset + width ≤ off) :
    readN (putLE width buffer offset value) off = readN buffer off := by
  unfold readN
  rw [slice_putLE h hdisjoint]

theorem readD_putLE {width : ℕ} {buffer : Bytes} {offset value off : ℕ}
    (h : offset + width ≤ buffer.length) (hdisjoint : off + 4 ≤ offset ∨ offset + width ≤ off) :
    readD (putLE width buffer offset value) off = readD buffer off := by
  unfold readD
  rw [slice_putLE h hdisjoint]

theorem getElem?_putLE {width : ℕ} {buffer : Bytes} {offset value i : ℕ}
    (h : offset + width ≤ buffer.length) (hapart : i < offset ∨ offset + width ≤ i) :
    (putLE width buffer offset value)[i]? = buffer[i]? := by
  unfold putLE
  rw [getElem?_splice (by rwa [length_leBytes]), length_leBytes]
  rcases hapart with hlow | hhigh
  · rw [if_pos hlow]
  · rw [if_neg (by omega), if_neg (by omega)]

theorem guidOrder_lt (i : Fin 16) : guidOrder.getD i 0 < 16 := by
  revert i
  decide

theorem guid_putLE {width : ℕ} {buffer : Bytes} {offset value off : ℕ}
    (h : offset + width ≤ buffer.length) (hdisjoint : off + 16 ≤ offset ∨ offset + width ≤ off) :
    guid (putLE width buffer offset value) off = guid buffer off := by
  ext1 i
  unfold guid
  have := guidOrder_lt i
  rw [getElem?_putLE h (by omega)]

/-- The number that was put is read back. -/
theorem readD_putLE_self {buffer : Bytes} {offset : ℕ} (value : UInt32)
    (h : offset + 4 ≤ buffer.length) :
    readD (putLE 4 buffer offset value.toNat) offset = value.toNat := by
  unfold readD
  rw [slice_putLE_self h, leValue_leBytes value.toNat_lt]

/-- What a header is accepted with. -/
theorem headerOf_eq_ok {bytes : Bytes} {here other : ℕ} {binding : RawSnapshotBinding}
    {header : Header} : headerOf crc32 bytes here other binding = .ok header ↔
    (bytes.length = binding.media.logicalSectorBytes ∧ readN bytes 0 = 0x5452415020494645 ∧
      readD bytes 8 = 0x10000 ∧ readD bytes 12 = 92 ∧ readD bytes 20 = 0 ∧
      readN bytes 24 = here ∧ readN bytes 32 = other ∧ guid bytes 56 = binding.media.diskGuid) ∧
    (crc32 (putLE 4 (bytes.take 92) 16 0)).toNat = readD bytes 16 ∧
    (readN bytes 40 ≤ readN bytes 48 ∧ 128 ≤ readD bytes 80 ∧ readD bytes 80 ≤ 4096 ∧
      readD bytes 84 = 128) ∧
    header = ⟨readN bytes 40, readN bytes 48, readN bytes 72, readD bytes 80, readD bytes 84⟩ := by
  unfold headerOf
  dsimp only
  rw [need_bind_eq_ok, need_bind_eq_ok, need_bind_eq_ok]
  constructor
  · rintro ⟨h1, h2, h3, h4⟩
    exact ⟨h1, h2, h3, (Except.ok.inj h4).symm⟩
  · rintro ⟨h1, h2, h3, rfl⟩
    exact ⟨h1, h2, h3, rfl⟩

/-- **A header whose checksums are renewed is accepted** when its other fields are in order,
and it names the checksum of the array. -/
theorem headerOf_headerChecksum_of_profile {bytes array : Bytes} {here other count : ℕ}
    {binding : RawSnapshotBinding} (hsize : 92 ≤ bytes.length)
    (hprofile : bytes.length = binding.media.logicalSectorBytes ∧
      readN bytes 0 = 0x5452415020494645 ∧ readD bytes 8 = 0x10000 ∧ readD bytes 12 = 92 ∧
      readD bytes 20 = 0 ∧ readN bytes 24 = here ∧ readN bytes 32 = other ∧
      guid bytes 56 = binding.media.diskGuid)
    (h9 : readN bytes 40 ≤ readN bytes 48 ∧ 128 ≤ readD bytes 80 ∧ readD bytes 80 ≤ 4096 ∧
      readD bytes 84 = 128) :
    headerOf crc32 (headerChecksum crc32 bytes array count) here other binding =
        .ok ⟨readN bytes 40, readN bytes 48, readN bytes 72, readD bytes 80, readD bytes 84⟩ ∧
      readD (headerChecksum crc32 bytes array count) 88 = (crc32 (array.take count)).toNat ∧
      (headerChecksum crc32 bytes array count).length = bytes.length := by
  obtain ⟨h1, h2, h3, h4, h5, h6, h7, h8⟩ := hprofile
  set first := putLE 4 bytes 88 (crc32 (array.take count)).toNat with hfirst
  set second := putLE 4 first 16 0 with hsecond
  have hlen1 : first.length = bytes.length := length_putLE (by omega)
  have hlen2 : second.length = bytes.length := (length_putLE (by omega)).trans hlen1
  have hresult : headerChecksum crc32 bytes array count =
      putLE 4 second 16 (crc32 (second.take 92)).toNat := rfl
  have hlen3 : (putLE 4 second 16 (crc32 (second.take 92)).toNat).length = bytes.length :=
    (length_putLE (by omega)).trans hlen2
  -- a field away from the two checksums keeps its value
  have hN : ∀ off, off + 8 ≤ 16 ∨ 20 ≤ off ∧ (off + 8 ≤ 88 ∨ 92 ≤ off) →
      readN (putLE 4 second 16 (crc32 (second.take 92)).toNat) off = readN bytes off := by
    intro off hoff
    rw [readN_putLE (by omega) (by omega), hsecond, readN_putLE (by omega) (by omega), hfirst,
      readN_putLE (by omega) (by omega)]
  have hD : ∀ off, off + 4 ≤ 16 ∨ 20 ≤ off ∧ (off + 4 ≤ 88 ∨ 92 ≤ off) →
      readD (putLE 4 second 16 (crc32 (second.take 92)).toNat) off = readD bytes off := by
    intro off hoff
    rw [readD_putLE (by omega) (by omega), hsecond, readD_putLE (by omega) (by omega), hfirst,
      readD_putLE (by omega) (by omega)]
  have hG : guid (putLE 4 second 16 (crc32 (second.take 92)).toNat) 56 = guid bytes 56 := by
    rw [guid_putLE (by omega) (by omega), hsecond, guid_putLE (by omega) (by omega), hfirst,
      guid_putLE (by omega) (by omega)]
  -- clearing the header's own field again gives back what was summed
  have hclear : putLE 4 ((putLE 4 second 16 (crc32 (second.take 92)).toNat).take 92) 16 0 =
      second.take 92 := by
    unfold putLE
    rw [splice_take (by rw [length_leBytes]; omega) (by
        rw [length_splice (by rw [length_leBytes]; omega)]; omega),
      splice_splice_self (by rw [length_leBytes, length_leBytes])
        (by rw [length_leBytes]; omega), hsecond]
    unfold putLE
    rw [splice_splice_self (by rw [length_leBytes])
      (by rw [length_leBytes]; omega)]
  rw [hresult]
  refine ⟨headerOf_eq_ok.mpr ⟨⟨?_, ?_, ?_, ?_, ?_, ?_, ?_, ?_⟩, ?_, ?_, ?_⟩, ?_, hlen3⟩
  · rw [hlen3, h1]
  · rw [hN 0 (by omega), h2]
  · rw [hD 8 (by omega), h3]
  · rw [hD 12 (by omega), h4]
  · rw [hD 20 (by omega), h5]
  · rw [hN 24 (by omega), h6]
  · rw [hN 32 (by omega), h7]
  · rw [hG, h8]
  · rw [hclear, readD_putLE_self _ (by omega)]
  · rw [hN 40 (by omega), hN 48 (by omega), hD 80 (by omega), hD 84 (by omega)]
    exact h9
  · rw [hN 40 (by omega), hN 48 (by omega), hN 72 (by omega), hD 80 (by omega), hD 84 (by omega)]
  · rw [readD_putLE (by omega) (by omega), hsecond, readD_putLE (by omega) (by omega), hfirst,
      readD_putLE_self _ (by omega)]

/-- A header that was accepted stays so. -/
theorem headerOf_headerChecksum {bytes array : Bytes} {here other count : ℕ}
    {binding : RawSnapshotBinding} {header : Header} (hsize : 92 ≤ bytes.length)
    (h : headerOf crc32 bytes here other binding = .ok header) :
    headerOf crc32 (headerChecksum crc32 bytes array count) here other binding = .ok header ∧
      readD (headerChecksum crc32 bytes array count) 88 = (crc32 (array.take count)).toNat ∧
      (headerChecksum crc32 bytes array count).length = bytes.length := by
  obtain ⟨hprofile, -, hranges, rfl⟩ := headerOf_eq_ok.mp h
  exact headerOf_headerChecksum_of_profile hsize hprofile hranges

/-! ## The census of the entries -/

/-- The entry is in use. -/
def used (array : Bytes) (i : ℕ) : Prop := ¬ zeroGuid (guid (entryOf array i) 0)

instance (array : Bytes) (i : ℕ) : Decidable (used array i) := by
  unfold used
  infer_instance

/-- The first sector of an entry. -/
def firstOf (array : Bytes) (i : ℕ) : ℕ := readN (entryOf array i) 32

/-- The last sector of an entry. -/
def lastOf (array : Bytes) (i : ℕ) : ℕ := readN (entryOf array i) 40

/-- The last sector of an entry after the resize. -/
def nextLastOf (array : Bytes) (selected : Option ℕ) (newLast i : ℕ) : ℕ :=
  if some i = selected then newLast else lastOf array i

/-- What the loop over the entries knows after the first `n`, in a partition profile. -/
structure CensusAt (media : RawSnapshotMediaBinding) (newLast : ℕ) (primary : Header)
    (array : Bytes) (n : ℕ) (census : Census) : Prop where
  ids : ∀ g, g ∈ census.ids ↔ ∃ i < n, used array i ∧ guid (entryOf array i) 16 = g
  inside : ∀ i < n, used array i →
    primary.first ≤ firstOf array i ∧ firstOf array i ≤ lastOf array i ∧
      lastOf array i ≤ primary.last
  ranges : census.ranges = ((List.range n).filter fun i => used array i).map fun i =>
    (firstOf array i, nextLastOf array census.selected newLast i)
  selected : ∀ i, census.selected = some i ↔
    i < n ∧ used array i ∧ guid (entryOf array i) 16 = media.partitionGuid
  start : ∀ i, census.selected = some i →
    firstOf array i * media.logicalSectorBytes = media.baseOffsetBytes

section Census

variable {media : RawSnapshotMediaBinding} {newLast : ℕ} {primary : Header} {array : Bytes} {n : ℕ}
  {census next : Census}

theorem censusAt_zero : CensusAt media newLast primary array 0 {} where
  ids := by simp
  inside := by simp
  ranges := rfl
  selected := by simp
  start := by simp

/-- What one entry does to the census. -/
theorem censusStep_eq_ok (h : censusStep media false newLast primary array census n = .ok next) :
    (¬ used array n ∧ next = census) ∨
    (used array n ∧ guid (entryOf array n) 16 ∉ census.ids ∧
      (primary.first ≤ firstOf array n ∧ firstOf array n ≤ lastOf array n ∧
        lastOf array n ≤ primary.last) ∧
      ((guid (entryOf array n) 16 = media.partitionGuid ∧ census.selected = none ∧
          firstOf array n * media.logicalSectorBytes = media.baseOffsetBytes ∧
          next = { ids := guid (entryOf array n) 16 :: census.ids
                   ranges := census.ranges ++ [(firstOf array n, newLast)]
                   originals := census.originals ++ [(firstOf array n, lastOf array n)]
                   selected := some n }) ∨
        (guid (entryOf array n) 16 ≠ media.partitionGuid ∧
          next = { census with
                   ids := guid (entryOf array n) 16 :: census.ids
                   ranges := census.ranges ++ [(firstOf array n, lastOf array n)]
                   originals := census.originals ++ [(firstOf array n, lastOf array n)] }))) := by
  unfold censusStep at h
  dsimp only at h
  split at h
  · rename_i hzero
    rw [need_bind_eq_ok] at h
    exact .inl ⟨fun hused => hused hzero, (Except.ok.inj h.2).symm⟩
  · rename_i hused
    rw [need_bind_eq_ok] at h
    obtain ⟨⟨-, hfresh, hfirst, hle, hlast⟩, h⟩ := h
    refine .inr ⟨hused, hfresh, ⟨hfirst, hle, hlast⟩, ?_⟩
    split at h
    · rename_i hid
      rw [need_bind_eq_ok] at h
      obtain ⟨⟨hnone, -, hstart, -⟩, h⟩ := h
      exact .inl ⟨hid, hnone, hstart, (Except.ok.inj h).symm⟩
    · rename_i hid
      exact .inr ⟨hid, (Except.ok.inj h).symm⟩

/-- The entries in use among one more. -/
theorem filter_used_succ (array : Bytes) (n : ℕ) :
    (List.range (n + 1)).filter (fun i => used array i) =
      (List.range n).filter (fun i => used array i) ++ if used array n then [n] else [] := by
  rw [List.range_succ, List.filter_append]
  congr 1
  split
  · rename_i hused
    rw [List.filter_cons_of_pos (by simpa using hused), List.filter_nil]
  · rename_i hused
    rw [List.filter_cons_of_neg (by simpa using hused), List.filter_nil]

/-- One entry carries the knowledge on. -/
theorem CensusAt.step (h : CensusAt media newLast primary array n census)
    (hstep : censusStep media false newLast primary array census n = .ok next) :
    CensusAt media newLast primary array (n + 1) next := by
  -- the entries before this one are told apart from it by their number
  have hold : ∀ (selected : Option ℕ), (selected = census.selected ∨ selected = some n) →
      (census.selected = none ∨ selected = census.selected) →
      ((List.range n).filter fun i => used array i).map (fun i =>
        (firstOf array i, nextLastOf array selected newLast i)) = census.ranges := by
    intro selected hselected hnone
    rw [h.ranges]
    refine List.map_congr_left fun i hi => ?_
    have hi : i < n := List.mem_range.mp (List.mem_of_mem_filter hi)
    have hne : some i ≠ some n := by
      intro heq
      have := Option.some.inj heq
      omega
    unfold nextLastOf
    rcases hselected with rfl | rfl
    · rfl
    · rcases hnone with hnone | hsame
      · rw [hnone, if_neg hne, if_neg (by simp)]
      · rw [← hsame]
  rcases censusStep_eq_ok hstep with ⟨hunused, rfl⟩ | ⟨hused, hfresh, hinside, hcase⟩
  · refine ⟨?_, ?_, ?_, ?_, h.start⟩
    · intro g
      rw [h.ids]
      constructor
      · rintro ⟨i, hi, hrest⟩
        exact ⟨i, by omega, hrest⟩
      · rintro ⟨i, hi, hu, hg⟩
        refine ⟨i, ?_, hu, hg⟩
        have : i ≠ n := fun heq => hunused (heq ▸ hu)
        omega
    · intro i hi hu
      have : i ≠ n := fun heq => hunused (heq ▸ hu)
      exact h.inside i (by omega) hu
    · rw [filter_used_succ, if_neg hunused, List.append_nil]
      exact h.ranges
    · intro i
      rw [h.selected]
      constructor
      · rintro ⟨hi, hrest⟩
        exact ⟨by omega, hrest⟩
      · rintro ⟨hi, hu, hg⟩
        have : i ≠ n := fun heq => hunused (heq ▸ hu)
        exact ⟨by omega, hu, hg⟩
  · have hids : ∀ g, g ∈ guid (entryOf array n) 16 :: census.ids ↔
        ∃ i < n + 1, used array i ∧ guid (entryOf array i) 16 = g := by
      intro g
      rw [List.mem_cons, h.ids]
      constructor
      · rintro (rfl | ⟨i, hi, hrest⟩)
        · exact ⟨n, by omega, hused, rfl⟩
        · exact ⟨i, by omega, hrest⟩
      · rintro ⟨i, hi, hu, hg⟩
        by_cases hn : i = n
        · exact .inl (hn ▸ hg.symm)
        · exact .inr ⟨i, by omega, hu, hg⟩
    have hall : ∀ i < n + 1, used array i → primary.first ≤ firstOf array i ∧
        firstOf array i ≤ lastOf array i ∧ lastOf array i ≤ primary.last := by
      intro i hi hu
      by_cases hn : i = n
      · exact hn ▸ hinside
      · exact h.inside i (by omega) hu
    rcases hcase with ⟨hid, hnone, hstart, rfl⟩ | ⟨hid, rfl⟩
    · refine ⟨hids, hall, ?_, ?_, ?_⟩
      · rw [filter_used_succ, if_pos hused, List.map_append]
        dsimp only
        rw [hold (some n) (.inr rfl) (.inl hnone), List.map_singleton]
        unfold nextLastOf
        rw [if_pos rfl]
      · intro i
        constructor
        · intro hi
          obtain rfl := Option.some.inj hi
          exact ⟨by omega, hused, hid⟩
        · rintro ⟨hi, hu, hg⟩
          by_cases hn : i = n
          · rw [hn]
          · -- an earlier entry with this identifier would have been selected
            have := (h.selected i).mpr ⟨by omega, hu, hg⟩
            rw [hnone] at this
            cases this
      · intro i hi
        obtain rfl := Option.some.inj hi
        exact hstart
    · refine ⟨hids, hall, ?_, ?_, h.start⟩
      · have hne : some n ≠ census.selected := by
          intro heq
          exact hid ((h.selected n).mp heq.symm).2.2
        rw [filter_used_succ, if_pos hused, List.map_append]
        dsimp only
        rw [hold census.selected (.inl rfl) (.inr rfl), List.map_singleton]
        unfold nextLastOf
        rw [if_neg hne]
      · intro i
        rw [h.selected]
        constructor
        · rintro ⟨hi, hrest⟩
          exact ⟨by omega, hrest⟩
        · rintro ⟨hi, hu, hg⟩
          have : i ≠ n := fun heq => hid (heq ▸ hg)
          exact ⟨by omega, hu, hg⟩

/-- The whole loop. -/
theorem censusAt_foldlM {result : Census} (h : (List.range n).foldlM
    (censusStep media false newLast primary array) {} = .ok result) :
    CensusAt media newLast primary array n result := by
  induction n generalizing result with
  | zero =>
    obtain rfl := Except.ok.inj h
    exact censusAt_zero
  | succ n ih =>
    rw [List.range_succ, List.foldlM_append, bind_eq_ok] at h
    obtain ⟨before, hbefore, hlast⟩ := h
    rw [List.foldlM_cons, bind_eq_ok] at hlast
    obtain ⟨after, hafter, hnil⟩ := hlast
    obtain rfl := Except.ok.inj hnil
    exact (ih hbefore).step hafter

end Census

/-- Ranges that end before their neighbours start end before every later one does. -/
theorem pairwise_of_neighborsApart {ranges : List (ℕ × ℕ)} (h : neighborsApart ranges = true)
    (hle : ∀ r ∈ ranges, r.1 ≤ r.2) : ranges.Pairwise fun a b => a.2 < b.1 := by
  induction ranges with
  | nil => exact List.Pairwise.nil
  | cons a ranges ih =>
    obtain ⟨ha, hle⟩ := List.forall_mem_cons.mp hle
    cases ranges with
    | nil => exact List.pairwise_singleton _ _
    | cons b ranges =>
      unfold neighborsApart at h
      rw [Bool.and_eq_true, decide_eq_true_iff] at h
      have htail := ih h.2 hle
      refine List.pairwise_cons.mpr ⟨fun c hc => ?_, htail⟩
      rcases List.mem_cons.mp hc with rfl | hc
      · exact h.1
      · have hbc := (List.pairwise_cons.mp htail).1 c hc
        have hb := hle b (List.mem_cons_self ..)
        omega

/-- Ranges that pass the check after sorting do not meet, in any order. -/
theorem pairwise_apart_of_sorted {ranges : List (ℕ × ℕ)}
    (h : neighborsApart (Sorting.sortBy ranges rangeLe) = true) (hle : ∀ r ∈ ranges, r.1 ≤ r.2) :
    ranges.Pairwise fun a b => a.2 < b.1 ∨ b.2 < a.1 := by
  have hperm := Sorting.sortBy_perm ranges rangeLe
  have hsorted := pairwise_of_neighborsApart h fun r hr => hle r (hperm.mem_iff.mp hr)
  refine (hperm.pairwise_iff fun {a b} hab => Or.symm hab).mp ?_
  exact hsorted.imp fun hab => .inl hab

/-! ## Accepted snapshots -/

/-- The number of sectors of each array. -/
def arraySectors (s : Snapshot) (primary : Header) : ℕ :=
  (primary.count * 128 + s.sector - 1) / s.sector

/-- What `Build` has checked when it plans a resize of the partition. -/
structure Accepted (crc32 : Bytes → UInt32) (s : Snapshot) (primary backup : Header)
    (selected : ℕ) : Prop where
  sector : s.sector = 512 ∨ s.sector = 1024 ∨ s.sector = 2048 ∨ s.sector = 4096
  size : s.media.diskSizeBytes = (s.diskLast + 1) * s.sector
  small : s.media.diskSizeBytes < 2 ^ 63
  primaryHeader : headerOf crc32 s.primaryHeader 1 s.diskLast s.original.binding = .ok primary
  backupHeader : headerOf crc32 s.backupHeader s.diskLast 1 s.original.binding = .ok backup
  first_eq : backup.first = primary.first
  last_eq : backup.last = primary.last
  count_eq : backup.count = primary.count
  primary_low : 2 ≤ primary.arrayLba
  primary_high : primary.arrayLba + arraySectors s primary ≤ primary.first
  usable : primary.first ≤ primary.last
  backup_low : primary.last < backup.arrayLba
  backup_high : backup.arrayLba + arraySectors s primary ≤ s.diskLast
  primaryArray_length : s.primaryArray.length = arraySectors s primary * s.sector
  backupArray_length : s.backupArray.length = arraySectors s primary * s.sector
  arrays_eq : s.primaryArray.take (primary.count * 128) = s.backupArray.take (primary.count * 128)
  primaryArray_crc :
    (crc32 (s.primaryArray.take (primary.count * 128))).toNat = readD s.primaryHeader 88
  backupArray_crc :
    (crc32 (s.backupArray.take (primary.count * 128))).toNat = readD s.backupHeader 88
  mbr_length : s.mbr.length = s.sector
  newLast_le : s.newLast ≤ primary.last
  first_le_newLast : firstOf s.primaryArray selected ≤ s.newLast
  census : ∃ census, CensusAt s.media s.newLast primary s.primaryArray primary.count census ∧
    census.selected = some selected ∧
    neighborsApart (Sorting.sortBy census.ranges rangeLe) = true

/-- **What `Build` has checked.** -/
theorem build_accepted {s : Snapshot} {plan : Plan} (h : build crc32 s = .ok plan)
    (hprofile : s.profile ≠ .containerWindow) :
    ∃ primary backup selected, Accepted crc32 s primary backup selected ∧
      plan.snapshot = s ∧ plan.writes = s.writes crc32 primary backup selected ∧
      plan.writes.length = 4 := by
  unfold build at h
  dsimp only at h
  simp only [decide_eq_false hprofile, Bool.false_eq_true, if_false, false_or] at h
  rw [need_bind_eq_ok] at h
  obtain ⟨⟨hpolicy, -, hlow, hblocks, -, hfits⟩, h⟩ := h
  rw [bind_eq_ok] at h
  obtain ⟨primary, hprimary, h⟩ := h
  rw [bind_eq_ok] at h
  obtain ⟨backup, hbackup, h⟩ := h
  rw [need_bind_eq_ok] at h
  obtain ⟨⟨hfirst, hlast, hcount, -, -, hdisk⟩, h⟩ := h
  rw [need_bind_eq_ok] at h
  obtain ⟨⟨hplow, hpfirst, hphigh, hblow, hbdisk, hbhigh, hplength, hblength, harrays, hpcrc, hbcrc⟩,
    h⟩ := h
  rw [need_bind_eq_ok] at h
  obtain ⟨⟨hmbr, -⟩, h⟩ := h
  rw [need_bind_eq_ok] at h
  obtain ⟨hnew, h⟩ := h
  rw [bind_eq_ok] at h
  obtain ⟨census, hcensus, h⟩ := h
  rw [need_bind_eq_ok, need_bind_eq_ok, need_bind_eq_ok, need_bind_eq_ok, need_bind_eq_ok] at h
  obtain ⟨hselected, -, hranges, -, hfour, h⟩ := h
  obtain ⟨selected, hselected⟩ := Option.isSome_iff_exists.mp hselected
  obtain rfl := Except.ok.inj h
  rw [hselected, Option.getD_some] at hfour ⊢
  obtain ⟨hmedia, hsector, hsmall, hbase⟩ := validateVolumePhysicalPolicy_media hpolicy
  have hsizes := sectorSize_cases hmedia.logicalSector hsector
  obtain ⟨-, -, ⟨husable, hcountLow, hcountHigh, hentry⟩, hprimaryEq⟩ := headerOf_eq_ok.mp hprimary
  have hentryBytes : primary.entryBytes = 128 := by rw [hprimaryEq]; exact hentry
  rw [hentryBytes] at hphigh hbhigh hplength hblength harrays hpcrc hbcrc
  have hat := censusAt_foldlM hcensus
  refine ⟨primary, backup, selected, ?_, rfl, rfl, hfour⟩
  have hmul : s.media.diskSizeBytes = (s.diskLast + 1) * s.sector := by
    have hmod : s.media.diskSizeBytes % s.sector = 0 := hmedia.diskSize_mod
    have hne : s.media.diskSizeBytes ≠ 0 := hmedia.diskSize
    have hsplit := Nat.div_add_mod' s.media.diskSizeBytes s.sector
    rw [hmod, Nat.add_zero] at hsplit
    have hpos : s.media.diskSizeBytes / s.sector ≠ 0 := by
      intro hzero
      rw [hzero, Nat.zero_mul] at hsplit
      exact hne hsplit.symm
    have hlastEq : s.diskLast + 1 = s.media.diskSizeBytes / s.sector :=
      Nat.sub_add_cancel (Nat.one_le_iff_ne_zero.mpr hpos)
    rw [hlastEq, hsplit]
  have hstart : firstOf s.primaryArray selected * s.sector = s.media.baseOffsetBytes :=
    hat.start selected hselected
  have hnewLast : firstOf s.primaryArray selected ≤ s.newLast := by
    have hsizes : s.sector = 512 ∨ s.sector = 1024 ∨ s.sector = 2048 ∨ s.sector = 4096 := hsizes
    have hpos : 0 < s.sector := by omega
    have hone : 1 ≤ s.targetBytes / s.sector := (Nat.one_le_div_iff hpos).mpr (by omega)
    show _ ≤ s.media.baseOffsetBytes / s.sector + s.targetBytes / s.sector - 1
    rw [← hstart, Nat.mul_div_cancel _ hpos]
    omega
  exact
    { sector := hsizes
      size := hmul
      small := hsmall
      primaryHeader := hprimary
      backupHeader := hbackup
      first_eq := hfirst.symm
      last_eq := hlast.symm
      count_eq := hcount.symm
      primary_low := hplow
      primary_high := by
        unfold arraySectors
        omega
      usable := by rw [hprimaryEq]; exact husable
      backup_low := hblow
      backup_high := by
        unfold arraySectors
        omega
      primaryArray_length := hplength
      backupArray_length := hblength
      arrays_eq := harrays
      primaryArray_crc := hpcrc
      backupArray_crc := hbcrc
      mbr_length := hmbr
      newLast_le := hnew
      first_le_newLast := hnewLast
      census := ⟨census, hat, hselected, hranges⟩ }

/-! ## The four writes -/

/-- The sector of the arrays that the selected entry's end is in. -/
def changedSector (s : Snapshot) (selected : ℕ) : ℕ := (selected * 128 + 40) / s.sector

/-- An array with the end of one entry replaced. -/
def moveEnd (array : Bytes) (selected newLast : ℕ) : Bytes :=
  putU64 array (selected * 128 + 40) newLast

theorem length_moveEnd {array : Bytes} {selected newLast : ℕ}
    (h : selected * 128 + 48 ≤ array.length) :
    (moveEnd array selected newLast).length = array.length :=
  length_putLE (by omega)

/-- A function that gives something on one number only, over a range. -/
theorem filterMap_range_eq {β : Type*} {f : ℕ → Option β} {k : ℕ} (h : ∀ j, j ≠ k → f j = none)
    (n : ℕ) : (List.range n).filterMap f = if k < n then (f k).toList else [] := by
  induction n with
  | zero => rfl
  | succ n ih =>
    rw [List.range_succ, List.filterMap_append, ih]
    rcases Nat.lt_trichotomy k n with hlt | rfl | hgt
    · have hnone : f n = none := h n (by omega)
      rw [if_pos hlt, if_pos (by omega), List.filterMap_cons_none hnone, List.filterMap_nil,
        List.append_nil]
    · rw [if_neg (by omega), if_pos (by omega), List.nil_append]
      cases hk : f k with
      | none => rw [List.filterMap_cons_none hk, List.filterMap_nil, Option.toList_none]
      | some v => rw [List.filterMap_cons_some hk, List.filterMap_nil, Option.toList_some]
    · have hnone : f n = none := h n (by omega)
      rw [if_neg (by omega), if_neg (by omega), List.filterMap_cons_none hnone, List.filterMap_nil,
        List.append_nil]

section Writes

variable {s : Snapshot} {primary backup : Header} {selected : ℕ}

/-- The end of an entry lies in one sector. -/
theorem changedSector_bounds
    (h : s.sector = 512 ∨ s.sector = 1024 ∨ s.sector = 2048 ∨ s.sector = 4096) (selected : ℕ) :
    changedSector s selected * s.sector ≤ selected * 128 + 40 ∧
      selected * 128 + 48 ≤ (changedSector s selected + 1) * s.sector := by
  unfold changedSector
  rcases h with h | h | h | h <;> rw [h] <;> omega

/-- The other sectors of an array do not change. -/
theorem slice_moveEnd_of_ne {array : Bytes} {newLast k : ℕ}
    (hsector : s.sector = 512 ∨ s.sector = 1024 ∨ s.sector = 2048 ∨ s.sector = 4096)
    (hlength : selected * 128 + 48 ≤ array.length) (hk : k ≠ changedSector s selected) :
    slice (moveEnd array selected newLast) (k * s.sector) s.sector =
      slice array (k * s.sector) s.sector := by
  obtain ⟨hlow, hhigh⟩ := changedSector_bounds hsector selected
  refine slice_putLE (by omega) ?_
  rcases Nat.lt_or_gt_of_ne hk with hlt | hgt
  · left
    calc k * s.sector + s.sector = (k + 1) * s.sector := by ring
      _ ≤ changedSector s selected * s.sector := Nat.mul_le_mul_right _ hlt
      _ ≤ selected * 128 + 40 := hlow
  · right
    calc selected * 128 + 40 + 8 ≤ (changedSector s selected + 1) * s.sector := hhigh
      _ ≤ k * s.sector := Nat.mul_le_mul_right _ hgt

/-- The write of an array's sector. -/
def arrayWrite (s : Snapshot) (array : Bytes) (lba selected : ℕ) : Write where
  offset := (lba + changedSector s selected) * s.sector
  before := slice array (changedSector s selected * s.sector) s.sector
  after := slice (moveEnd array selected s.newLast) (changedSector s selected * s.sector) s.sector

/-- At most one sector of an array is written. -/
theorem addArray_moveEnd {array : Bytes} (lba : ℕ)
    (hsector : s.sector = 512 ∨ s.sector = 1024 ∨ s.sector = 2048 ∨ s.sector = 4096)
    (hlength : selected * 128 + 48 ≤ array.length) :
    addArray s.sector array (moveEnd array selected s.newLast) lba = [] ∨
      addArray s.sector array (moveEnd array selected s.newLast) lba =
        [arrayWrite s array lba selected] := by
  unfold addArray
  rw [filterMap_range_eq (k := changedSector s selected)]
  · split
    · split
      · exact .inl rfl
      · right
        rw [Option.toList_some]
        unfold arrayWrite
        rw [Nat.add_mul]
    · exact .inl rfl
  · intro k hk
    rw [if_pos (slice_moveEnd_of_ne hsector hlength hk).symm]

/-- The write of a header. -/
def headerWrite (crc32 : Bytes → UInt32) (s : Snapshot) (header array : Bytes)
    (lba count selected : ℕ) : Write where
  offset := lba * s.sector
  before := header
  after := headerChecksum crc32 header (moveEnd array selected s.newLast) (count * 128)

theorem Accepted.selected_lt (h : Accepted crc32 s primary backup selected) :
    selected < primary.count := by
  obtain ⟨census, hcensus, hselected, -⟩ := h.census
  exact ((hcensus.selected selected).mp hselected).1

theorem Accepted.sector_pos (h : Accepted crc32 s primary backup selected) : 0 < s.sector := by
  have := h.sector
  omega

/-- The entries fill the array but for its last sector. -/
theorem Accepted.entries_le (h : Accepted crc32 s primary backup selected) :
    primary.count * 128 ≤ arraySectors s primary * s.sector := by
  unfold arraySectors
  rcases h.sector with hs | hs | hs | hs <;> rw [hs] <;> omega

theorem Accepted.end_le_primary (h : Accepted crc32 s primary backup selected) :
    selected * 128 + 48 ≤ s.primaryArray.length := by
  have hlt := h.selected_lt
  have hle := h.entries_le
  rw [h.primaryArray_length]
  omega

theorem Accepted.end_le_backup (h : Accepted crc32 s primary backup selected) :
    selected * 128 + 48 ≤ s.backupArray.length := by
  rw [h.backupArray_length, ← h.primaryArray_length]
  exact h.end_le_primary

/-- The changed sector is one of the array's. -/
theorem Accepted.changedSector_lt (h : Accepted crc32 s primary backup selected) :
    changedSector s selected < arraySectors s primary := by
  have hend := h.end_le_primary
  rw [h.primaryArray_length] at hend
  have hlow := (changedSector_bounds h.sector selected).1
  by_contra hge
  have hmul : arraySectors s primary * s.sector ≤ changedSector s selected * s.sector :=
    Nat.mul_le_mul_right _ (by omega)
  omega

/-- **The four writes**, in the order of the plan. -/
theorem Accepted.writes_eq (h : Accepted crc32 s primary backup selected)
    (hfour : (s.writes crc32 primary backup selected).length = 4) :
    s.writes crc32 primary backup selected =
      [arrayWrite s s.backupArray backup.arrayLba selected,
        headerWrite crc32 s s.backupHeader s.backupArray s.diskLast primary.count selected,
        arrayWrite s s.primaryArray primary.arrayLba selected,
        headerWrite crc32 s s.primaryHeader s.primaryArray 1 primary.count selected] := by
  have hentry : primary.entryBytes = 128 := by
    obtain ⟨-, -, ⟨-, -, -, hentry⟩, heq⟩ := headerOf_eq_ok.mp h.primaryHeader
    rw [heq]
    exact hentry
  have hwrites : s.writes crc32 primary backup selected =
      addArray s.sector s.backupArray (moveEnd s.backupArray selected s.newLast) backup.arrayLba ++
        [headerWrite crc32 s s.backupHeader s.backupArray s.diskLast primary.count selected] ++
        addArray s.sector s.primaryArray (moveEnd s.primaryArray selected s.newLast)
          primary.arrayLba ++
        [headerWrite crc32 s s.primaryHeader s.primaryArray 1 primary.count selected] := by
    unfold Snapshot.writes headerWrite moveEnd
    rw [hentry, Nat.one_mul]
  rw [hwrites] at hfour ⊢
  rcases addArray_moveEnd backup.arrayLba h.sector h.end_le_backup with hb | hb <;>
    rcases addArray_moveEnd primary.arrayLba h.sector h.end_le_primary with hp | hp <;>
    rw [hb, hp] at hfour ⊢
  · simp at hfour
  · simp at hfour
  · simp at hfour
  · rfl

/-! ## The new table -/

theorem slice_splice_inside {xs seg : Bytes} {off start len : ℕ} (hseg : start + seg.length ≤ len)
    (hlen : off + len ≤ xs.length) :
    slice (splice xs (off + start) seg) off len = splice (slice xs off len) start seg := by
  apply List.ext_getElem?
  intro i
  rw [getElem?_slice, getElem?_splice (by omega), getElem?_splice (by rw [length_slice_of_le hlen]; omega),
    getElem?_slice]
  by_cases hi : i < len
  · rw [if_pos hi, if_pos hi]
    by_cases h1 : i < start
    · rw [if_pos h1, if_pos (by omega)]
    · rw [if_neg h1, if_neg (by omega)]
      by_cases h2 : i < start + seg.length
      · rw [if_pos h2, if_pos (by omega)]
        congr 1
        omega
      · rw [if_neg h2, if_neg (by omega)]
  · rw [if_neg hi, if_neg hi, if_neg (by omega), if_neg (by omega)]

theorem entryOf_moveEnd_of_ne {array : Bytes} {newLast i : ℕ}
    (hlength : selected * 128 + 48 ≤ array.length) (hi : i ≠ selected) :
    entryOf (moveEnd array selected newLast) i = entryOf array i :=
  slice_putLE (by omega) (by omega)

theorem entryOf_moveEnd_self {array : Bytes} {newLast : ℕ}
    (hlength : selected * 128 + 128 ≤ array.length) :
    entryOf (moveEnd array selected newLast) selected =
      putLE 8 (entryOf array selected) 40 newLast :=
  slice_splice_inside (by rw [length_leBytes]; omega) hlength

/-- The numbers of an entry after its end was moved. -/
theorem moveEnd_fields (array : Bytes) {newLast : ℕ}
    (hlength : selected * 128 + 128 ≤ array.length) (hlast : newLast < 2 ^ 64) (i : ℕ) :
    (used (moveEnd array selected newLast) i ↔ used array i) ∧
      guid (entryOf (moveEnd array selected newLast) i) 16 = guid (entryOf array i) 16 ∧
      firstOf (moveEnd array selected newLast) i = firstOf array i ∧
      lastOf (moveEnd array selected newLast) i = nextLastOf array (some selected) newLast i := by
  by_cases hi : i = selected
  · subst hi
    have hsize : (entryOf array i).length = 128 := length_slice_of_le hlength
    unfold used firstOf lastOf nextLastOf
    rw [entryOf_moveEnd_self hlength, guid_putLE (by omega) (by omega),
      guid_putLE (by omega) (by omega), readN_putLE (by omega) (by omega), if_pos rfl]
    refine ⟨Iff.rfl, rfl, rfl, ?_⟩
    unfold readN
    rw [slice_putLE_self (by omega), leValue_leBytes (by norm_num; exact hlast)]
  · unfold used firstOf lastOf nextLastOf
    rw [entryOf_moveEnd_of_ne (by omega) hi, if_neg fun heq => hi (Option.some.inj heq)]
    exact ⟨Iff.rfl, rfl, rfl, rfl⟩

theorem Accepted.entry_le_primary (h : Accepted crc32 s primary backup selected) :
    selected * 128 + 128 ≤ s.primaryArray.length := by
  have hlt := h.selected_lt
  have hle := h.entries_le
  rw [h.primaryArray_length]
  omega

theorem readN_lt (bytes : Bytes) (offset : ℕ) : readN bytes offset < 2 ^ 64 := by
  have hlt := leValue_lt (slice bytes offset 8)
  calc readN bytes offset < 256 ^ (slice bytes offset 8).length := hlt
    _ ≤ 256 ^ 8 := Nat.pow_le_pow_right (by norm_num) (length_slice_le bytes offset 8)
    _ = 2 ^ 64 := by norm_num

theorem Accepted.newLast_lt (h : Accepted crc32 s primary backup selected) : s.newLast < 2 ^ 64 := by
  obtain ⟨-, -, -, heq⟩ := headerOf_eq_ok.mp h.primaryHeader
  have hlast : primary.last = readN s.primaryHeader 48 := by rw [heq]
  calc s.newLast ≤ primary.last := h.newLast_le
    _ < 2 ^ 64 := hlast ▸ readN_lt s.primaryHeader 48

/-- **The partitions of the new table** lie inside the usable sectors. -/
theorem Accepted.inside (h : Accepted crc32 s primary backup selected) {i : ℕ}
    (hi : i < primary.count) (hused : used (moveEnd s.primaryArray selected s.newLast) i) :
    primary.first ≤ firstOf (moveEnd s.primaryArray selected s.newLast) i ∧
      firstOf (moveEnd s.primaryArray selected s.newLast) i ≤
        lastOf (moveEnd s.primaryArray selected s.newLast) i ∧
      lastOf (moveEnd s.primaryArray selected s.newLast) i ≤ primary.last := by
  obtain ⟨census, hcensus, hselected, -⟩ := h.census
  obtain ⟨hiff, -, hfirst, hlast⟩ := moveEnd_fields s.primaryArray h.entry_le_primary h.newLast_lt i
  obtain ⟨h1, h2, h3⟩ := hcensus.inside i hi (hiff.mp hused)
  rw [hfirst, hlast]
  unfold nextLastOf
  split
  · rename_i heq
    obtain rfl := Option.some.inj heq
    exact ⟨h1, h.first_le_newLast, h.newLast_le⟩
  · exact ⟨h1, h2, h3⟩

/-- **The partitions of the new table** do not meet. -/
theorem Accepted.apart (h : Accepted crc32 s primary backup selected) {i j : ℕ}
    (hi : i < primary.count) (hj : j < primary.count) (hne : i ≠ j)
    (hui : used (moveEnd s.primaryArray selected s.newLast) i)
    (huj : used (moveEnd s.primaryArray selected s.newLast) j) :
    lastOf (moveEnd s.primaryArray selected s.newLast) i <
        firstOf (moveEnd s.primaryArray selected s.newLast) j ∨
      lastOf (moveEnd s.primaryArray selected s.newLast) j <
        firstOf (moveEnd s.primaryArray selected s.newLast) i := by
  obtain ⟨census, hcensus, hselected, hranges⟩ := h.census
  -- the ranges of the census are those of the new table
  have heq : census.ranges = ((List.range primary.count).filter fun i =>
      used s.primaryArray i).map fun i => (firstOf (moveEnd s.primaryArray selected s.newLast) i,
        lastOf (moveEnd s.primaryArray selected s.newLast) i) := by
    rw [hcensus.ranges, hselected]
    refine List.map_congr_left fun k _ => ?_
    obtain ⟨-, -, hfirst, hlast⟩ := moveEnd_fields s.primaryArray h.entry_le_primary h.newLast_lt k
    rw [hfirst, hlast]
  have hle : ∀ r ∈ census.ranges, r.1 ≤ r.2 := by
    rw [heq]
    intro r hr
    obtain ⟨k, hk, rfl⟩ := List.mem_map.mp hr
    obtain ⟨hk, huk⟩ := List.mem_filter.mp hk
    have hiff := (moveEnd_fields s.primaryArray h.entry_le_primary h.newLast_lt k).1
    exact (h.inside (List.mem_range.mp hk) (hiff.mpr (by simpa using huk))).2.1
  have hpairwise := pairwise_apart_of_sorted hranges hle
  rw [heq, List.pairwise_map] at hpairwise
  have hmem : ∀ k < primary.count, used (moveEnd s.primaryArray selected s.newLast) k →
      k ∈ (List.range primary.count).filter fun i => used s.primaryArray i := by
    intro k hk huk
    have hiff := (moveEnd_fields s.primaryArray h.entry_le_primary h.newLast_lt k).1
    exact List.mem_filter.mpr ⟨List.mem_range.mpr hk, by simpa using hiff.mp huk⟩
  have : Std.Symm fun a b =>
      lastOf (moveEnd s.primaryArray selected s.newLast) a <
          firstOf (moveEnd s.primaryArray selected s.newLast) b ∨
        lastOf (moveEnd s.primaryArray selected s.newLast) b <
          firstOf (moveEnd s.primaryArray selected s.newLast) a := ⟨fun a b hab => hab.symm⟩
  exact hpairwise.forall (hmem i hi hui) (hmem j hj huj) hne

end Writes

end Geometry
end ApfsAccess
