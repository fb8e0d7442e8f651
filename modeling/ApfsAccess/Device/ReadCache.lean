import ApfsAccess.Device.WriteTrace
import Mathlib.Data.List.MinMax

/-!
# The read cache of a block device

Windows of at most 64 KiB that were read whole are kept and served again, also as part of a
smaller request.  A write announces itself (`BeginReadCacheWriteAdmission`), opens an epoch
that drops the windows it may change, and closes it again; the generation is odd while an
epoch is open.

* `Kept` : what an operation that only drops or reorders windows leaves.
* `Accounted` : the counter of cached bytes and the two budgets, kept by every operation.
* `insertEntry_mem` : what an insertion adds.
* `hit_eq_some` : what a lookup serves.
-/

namespace ApfsAccess
namespace Device

open Format ByteBuffer Storage

/-- `kReadCacheMaxWindowBytes`. -/
def readCacheMaxWindowBytes : ℕ := 64 * 1024

/-- `kReadCacheMaxBytes`. -/
def readCacheMaxBytes : ℕ := 8 * 1024 * 1024

/-- A device with the settings of its read cache. -/
structure CacheSetup where
  config : Config
  readCacheEnabled : Bool
  readCacheMaxEntries : ℕ

/-- `ReadCacheEntry`, with its `ReadCacheKey`. -/
structure ReadCacheEntry where
  offsetBytes : ℕ
  sizeBytes : ℕ
  bytes : Bytes
  lastUse : ℕ
  deriving DecidableEq

/-- The cache, in some order of its entries.  The generation does not come around: it counts
the epochs and invalidations of a device that is open. -/
structure ReadCache where
  entries : List ReadCacheEntry
  use : ℕ
  generation : ℕ
  writeAdmissions : ℕ
  cachedBytes : ℕ

/-- The cache of a device that was just opened. -/
def ReadCache.empty : ReadCache := ⟨[], 0, 0, 0, 0⟩

/-! ## Writers -/

/-- `BeginReadCacheWriteAdmission`. -/
def beginWriteAdmission (setup : CacheSetup) (cache : ReadCache) : ReadCache :=
  if setup.readCacheEnabled = false then cache
  else { cache with writeAdmissions := cache.writeAdmissions + 1 }

/-- `EndReadCacheWriteAdmission`. -/
def endWriteAdmission (setup : CacheSetup) (cache : ReadCache) : ReadCache :=
  if setup.readCacheEnabled = false then cache
  else { cache with writeAdmissions := cache.writeAdmissions - 1 }

/-- Dropping every entry. -/
def ReadCache.clear (cache : ReadCache) : ReadCache :=
  if cache.entries = [] then cache else { cache with entries := [], cachedBytes := 0 }

/-- Whether an entry overlaps a range. -/
def ReadCacheEntry.overlaps (entry : ReadCacheEntry) (absoluteOffset sizeBytes : ℕ) : Bool :=
  if absoluteOffset ≤ entry.offsetBytes then entry.offsetBytes - absoluteOffset < sizeBytes
  else absoluteOffset - entry.offsetBytes < entry.sizeBytes

/-- The loop of `InvalidateReadCacheRangeLocked`. -/
def dropOverlapping (absoluteOffset sizeBytes : ℕ) :
    List ReadCacheEntry → ℕ → List ReadCacheEntry × ℕ
  | [], cachedBytes => ([], cachedBytes)
  | entry :: rest, cachedBytes =>
    if entry.overlaps absoluteOffset sizeBytes then
      dropOverlapping absoluteOffset sizeBytes rest (cachedBytes - entry.bytes.length)
    else
      let dropped := dropOverlapping absoluteOffset sizeBytes rest cachedBytes
      (entry :: dropped.1, dropped.2)

/-- `InvalidateReadCacheRangeLocked`. -/
def invalidateReadCacheRange (absoluteOffset sizeBytes : ℕ) (cache : ReadCache) : ReadCache :=
  let dropped := dropOverlapping absoluteOffset sizeBytes cache.entries cache.cachedBytes
  { cache with entries := dropped.1, cachedBytes := dropped.2 }

/-- `range_for`: the block-aligned range of a write, when it can be relied on. -/
def rangeFor (config : Config) (write : WriteSpan) : Option (ℕ × ℕ) :=
  if write.sizeBytes = 0 ∨ dwordMax < write.sizeBytes ∨
      uint64Max - config.baseOffsetBytes < write.offsetBytes then none
  else
    let absolute := write.offsetBytes + config.baseOffsetBytes
    let start := alignDown absolute config.logicalBlockSize
    if uint64Max - write.sizeBytes < absolute then none
    else
      let stop := alignUp (absolute + write.sizeBytes) config.logicalBlockSize
      if stop = 0 ∨ stop ≤ start ∨ 2 ^ 63 - 1 < stop then none
      else if stop - start ≤ dwordMax ∧ rawWriteSpanAllowed config start (stop - start) = true then
        some (start, stop - start)
      else none

/-- The range that an epoch drops for a write. -/
def epochRange (config : Config) (write : WriteSpan) : ℕ × ℕ :=
  let absolute := write.offsetBytes + config.baseOffsetBytes
  let start := alignDown absolute config.logicalBlockSize
  (start, alignUp (absolute + write.sizeBytes) config.logicalBlockSize - start)

/-- Whether an epoch drops every entry: a write has no range that can be relied on. -/
def epochDropsAll (config : Config) (writes : List WriteSpan) : Bool :=
  writes.any (fun write => write.sizeBytes != 0 && (rangeFor config write).isNone) ||
    writes.isEmpty

/-- `BeginReadCacheWriteEpoch`. -/
def beginWriteEpoch (setup : CacheSetup) (writes : List WriteSpan) (cache : ReadCache) :
    ReadCache :=
  if setup.readCacheEnabled = false then cache
  else if epochDropsAll setup.config writes then
    { cache.clear with generation := cache.generation + 1 }
  else
    (writes.filter fun write => write.sizeBytes != 0).foldl
      (fun cache write => invalidateReadCacheRange (epochRange setup.config write).1
        (epochRange setup.config write).2 cache)
      { cache with generation := cache.generation + 1 }

/-- `EndReadCacheWriteEpoch`. -/
def endWriteEpoch (setup : CacheSetup) (cache : ReadCache) : ReadCache :=
  if setup.readCacheEnabled = false then cache
  else { cache with generation := cache.generation + 1 }

/-- `InvalidateReadCache`. -/
def invalidateReadCache (setup : CacheSetup) (cache : ReadCache) : ReadCache :=
  if setup.readCacheEnabled = false then cache
  else { cache.clear with generation := cache.generation + 2 }

/-! ## Readers -/

/-- Whether an entry has a key. -/
def ReadCacheEntry.hasKey (entry : ReadCacheEntry) (offsetBytes sizeBytes : ℕ) : Bool :=
  entry.offsetBytes == offsetBytes && entry.sizeBytes == sizeBytes

/-- Replacing the entry of a key in place. -/
def replaceEntry (offsetBytes sizeBytes : ℕ) (entry : ReadCacheEntry) :
    List ReadCacheEntry → List ReadCacheEntry
  | [] => []
  | other :: rest =>
    if other.hasKey offsetBytes sizeBytes then entry :: rest
    else other :: replaceEntry offsetBytes sizeBytes entry rest

/-- The eviction loop: the least recently used entry goes while a budget is exceeded. -/
def evict (maxEntries : ℕ) (entries : List ReadCacheEntry) (cachedBytes : ℕ) :
    List ReadCacheEntry × ℕ :=
  if maxEntries < entries.length ∨ readCacheMaxBytes < cachedBytes then
    match holdest : entries.argmin ReadCacheEntry.lastUse with
    | none => (entries, cachedBytes)
    | some oldest => evict maxEntries (entries.erase oldest) (cachedBytes - oldest.bytes.length)
  else (entries, cachedBytes)
termination_by entries.length
decreasing_by
  have hmem := List.argmin_mem holdest
  have hlength := List.length_erase_of_mem hmem
  have hpos := List.length_pos_of_mem hmem
  omega

/-- `InsertReadCacheEntryLocked`. -/
def insertReadCacheEntry (setup : CacheSetup) (offsetBytes sizeBytes : ℕ) (bytes : Bytes)
    (cache : ReadCache) : ReadCache :=
  if sizeBytes = 0 ∨ bytes.length ≠ sizeBytes then cache
  else
    let entry : ReadCacheEntry := ⟨offsetBytes, sizeBytes, bytes, cache.use + 1⟩
    let placed :=
      match cache.entries.find? fun other => other.hasKey offsetBytes sizeBytes with
      | some existing => (replaceEntry offsetBytes sizeBytes entry cache.entries,
          cache.cachedBytes - existing.bytes.length)
      | none => (cache.entries ++ [entry], cache.cachedBytes)
    let evicted := evict setup.readCacheMaxEntries placed.1 (placed.2 + sizeBytes)
    { cache with entries := evicted.1, cachedBytes := evicted.2, use := cache.use + 1 }

/-- Whether an entry contains a window. -/
def ReadCacheEntry.containsWindow (entry : ReadCacheEntry) (alignedOffset alignedSize : ℕ) : Bool :=
  !(entry.sizeBytes < alignedSize || alignedOffset < entry.offsetBytes ||
      entry.bytes.length != entry.sizeBytes) &&
    !(entry.sizeBytes - alignedSize < alignedOffset - entry.offsetBytes)

/-- The smallest entry that contains a window. -/
def bestContaining (alignedOffset alignedSize : ℕ) (entries : List ReadCacheEntry) :
    Option ReadCacheEntry :=
  entries.foldl (fun best candidate =>
    if candidate.containsWindow alignedOffset alignedSize &&
        best.all (fun other => candidate.sizeBytes < other.sizeBytes) then some candidate
    else best) none

/-- The entry that `ReadInto` finds for a window, and where the window starts in it. -/
def ReadCache.find (cache : ReadCache) (alignedOffset alignedSize : ℕ) :
    Option (ReadCacheEntry × ℕ) :=
  match cache.entries.find? fun entry => entry.hasKey alignedOffset alignedSize with
  | some entry => some (entry, 0)
  | none => (bestContaining alignedOffset alignedSize cache.entries).map
      fun entry => (entry, alignedOffset - entry.offsetBytes)

/-- A hit: the entry found, when the window fits into it. -/
def ReadCache.hit (cache : ReadCache) (alignedOffset alignedSize : ℕ) :
    Option (ReadCacheEntry × ℕ) :=
  (cache.find alignedOffset alignedSize).filter fun found =>
    found.2 ≤ found.1.bytes.length && alignedSize ≤ found.1.bytes.length - found.2

/-- The cache after a hit: the entry counts as used. -/
def ReadCache.touch (cache : ReadCache) (entry : ReadCacheEntry) : ReadCache :=
  { cache with
    entries := replaceEntry entry.offsetBytes entry.sizeBytes
      { entry with lastUse := cache.use + 1 } cache.entries
    use := cache.use + 1 }

/-! ## What stays in the cache -/

/-- Every entry of the one list is an entry of the other, but for its last use. -/
def Kept (before after : List ReadCacheEntry) : Prop :=
  ∀ entry ∈ after, ∃ other ∈ before, other.offsetBytes = entry.offsetBytes ∧
    other.sizeBytes = entry.sizeBytes ∧ other.bytes = entry.bytes

theorem Kept.of_subset {before after : List ReadCacheEntry} (h : after ⊆ before) :
    Kept before after :=
  fun entry hmem => ⟨entry, h hmem, rfl, rfl, rfl⟩

/-- The bytes of the entries, all together. -/
def totalBytes (entries : List ReadCacheEntry) : ℕ :=
  (entries.map fun entry => entry.bytes.length).sum

@[simp] theorem totalBytes_nil : totalBytes [] = 0 := rfl

@[simp] theorem totalBytes_cons (entry : ReadCacheEntry) (entries : List ReadCacheEntry) :
    totalBytes (entry :: entries) = entry.bytes.length + totalBytes entries := by
  rw [totalBytes, List.map_cons, List.sum_cons, totalBytes]

theorem totalBytes_append (front back : List ReadCacheEntry) :
    totalBytes (front ++ back) = totalBytes front + totalBytes back := by
  rw [totalBytes, List.map_append, List.sum_append, totalBytes, totalBytes]

theorem totalBytes_perm {entries entries' : List ReadCacheEntry} (h : entries.Perm entries') :
    totalBytes entries = totalBytes entries' :=
  (h.map _).sum_eq

/-- **The books of the cache**: every window has its size, the counter is the total size of the
entries, and both budgets are kept. -/
structure Accounted (setup : CacheSetup) (cache : ReadCache) : Prop where
  sized : ∀ entry ∈ cache.entries, entry.bytes.length = entry.sizeBytes
  counted : cache.cachedBytes = totalBytes cache.entries
  entries_le : cache.entries.length ≤ setup.readCacheMaxEntries
  bytes_le : cache.cachedBytes ≤ readCacheMaxBytes

theorem accounted_empty (setup : CacheSetup) : Accounted setup ReadCache.empty :=
  ⟨by simp [ReadCache.empty], rfl, Nat.zero_le _, Nat.zero_le _⟩

/-- The books only look at the entries and the counter. -/
theorem Accounted.congr {setup : CacheSetup} {cache cache' : ReadCache}
    (h : Accounted setup cache) (hentries : cache'.entries = cache.entries)
    (hbytes : cache'.cachedBytes = cache.cachedBytes) : Accounted setup cache' :=
  ⟨by rw [hentries]; exact h.sized, by rw [hentries, hbytes]; exact h.counted,
    by rw [hentries]; exact h.entries_le, by rw [hbytes]; exact h.bytes_le⟩

theorem clear_accounted {setup : CacheSetup} {cache : ReadCache} (h : Accounted setup cache) :
    Accounted setup cache.clear := by
  unfold ReadCache.clear
  split
  · exact h
  · exact ⟨by simp, rfl, Nat.zero_le _, Nat.zero_le _⟩

theorem clear_entries (cache : ReadCache) : cache.clear.entries = [] := by
  unfold ReadCache.clear
  split
  · assumption
  · rfl

/-! ## Dropping a range -/

/-- What the loop drops, and what it takes from the counter. -/
theorem dropOverlapping_eq (absoluteOffset sizeBytes : ℕ) (entries : List ReadCacheEntry)
    (others : ℕ) :
    dropOverlapping absoluteOffset sizeBytes entries (totalBytes entries + others) =
      (entries.filter fun entry => !entry.overlaps absoluteOffset sizeBytes,
        totalBytes (entries.filter fun entry => !entry.overlaps absoluteOffset sizeBytes) +
          others) := by
  induction entries generalizing others with
  | nil => rfl
  | cons entry rest ih =>
    rw [dropOverlapping, List.filter_cons]
    split
    · rename_i hoverlaps
      rw [totalBytes_cons, Nat.add_assoc, Nat.add_sub_cancel_left, ih, hoverlaps]
      rfl
    · rename_i hoverlaps
      rw [totalBytes_cons, Nat.add_comm entry.bytes.length, Nat.add_assoc, ih,
        if_pos (by simpa using hoverlaps), totalBytes_cons]
      simp only [Prod.mk.injEq, true_and]
      omega

theorem invalidateReadCacheRange_eq {setup : CacheSetup} {cache : ReadCache}
    (h : Accounted setup cache) (absoluteOffset sizeBytes : ℕ) :
    invalidateReadCacheRange absoluteOffset sizeBytes cache =
      { cache with
        entries := cache.entries.filter fun entry => !entry.overlaps absoluteOffset sizeBytes
        cachedBytes := totalBytes
          (cache.entries.filter fun entry => !entry.overlaps absoluteOffset sizeBytes) } := by
  have hdrop := dropOverlapping_eq absoluteOffset sizeBytes cache.entries 0
  rw [Nat.add_zero, Nat.add_zero, ← h.counted] at hdrop
  rw [invalidateReadCacheRange, hdrop]

theorem totalBytes_le_of_sublist {entries entries' : List ReadCacheEntry}
    (h : entries.Sublist entries') : totalBytes entries ≤ totalBytes entries' :=
  (h.map _).sum_le_sum (by simp)

theorem invalidateReadCacheRange_accounted {setup : CacheSetup} {cache : ReadCache}
    (h : Accounted setup cache) (absoluteOffset sizeBytes : ℕ) :
    Accounted setup (invalidateReadCacheRange absoluteOffset sizeBytes cache) := by
  rw [invalidateReadCacheRange_eq h]
  have hsublist : (cache.entries.filter fun entry =>
      !entry.overlaps absoluteOffset sizeBytes).Sublist cache.entries := List.filter_sublist
  refine ⟨fun entry hmem => h.sized entry (hsublist.subset hmem), rfl,
    hsublist.length_le.trans h.entries_le, ?_⟩
  have hbytes := h.bytes_le
  rw [h.counted] at hbytes
  exact (totalBytes_le_of_sublist hsublist).trans hbytes

/-- An entry that contains a byte of a range overlaps the range. -/
theorem overlaps_of_mem {entry : ReadCacheEntry} {absoluteOffset sizeBytes x : ℕ}
    (hentry : entry.offsetBytes ≤ x ∧ x < entry.offsetBytes + entry.sizeBytes)
    (hrange : absoluteOffset ≤ x ∧ x < absoluteOffset + sizeBytes) :
    entry.overlaps absoluteOffset sizeBytes = true := by
  unfold ReadCacheEntry.overlaps
  split
  · simp only [decide_eq_true_eq]
    omega
  · simp only [decide_eq_true_eq]
    omega

/-! ## Epochs -/

/-- The loop of an epoch over the ranges of its writes. -/
theorem foldl_invalidate_spec {setup : CacheSetup} {config : Config} (writes : List WriteSpan)
    {cache : ReadCache} (h : Accounted setup cache) :
    let after := writes.foldl (fun cache write => invalidateReadCacheRange
      (epochRange config write).1 (epochRange config write).2 cache) cache
    Accounted setup after ∧ after.generation = cache.generation ∧
      ∀ entry ∈ after.entries, entry ∈ cache.entries ∧ ∀ write ∈ writes,
        entry.overlaps (epochRange config write).1 (epochRange config write).2 = false := by
  induction writes generalizing cache with
  | nil => exact ⟨h, rfl, fun entry hmem => ⟨hmem, by simp⟩⟩
  | cons write rest ih =>
    have hfirst := invalidateReadCacheRange_accounted h (epochRange config write).1
      (epochRange config write).2
    obtain ⟨haccounted, hgeneration, hentries⟩ := ih hfirst
    refine ⟨haccounted, hgeneration, fun entry hmem => ?_⟩
    obtain ⟨hkept, hrest⟩ := hentries entry hmem
    rw [invalidateReadCacheRange_eq h] at hkept
    obtain ⟨hold, hapart⟩ := List.mem_filter.mp hkept
    exact ⟨hold, List.forall_mem_cons.mpr ⟨by simpa using hapart, hrest⟩⟩

/-- The bytes that an epoch takes out of the cache: those of the blocks of its writes, or all. -/
def EpochCovers (config : Config) (writes : List WriteSpan) (x : ℕ) : Prop :=
  epochDropsAll config writes = true ∨ ∃ write ∈ writes, write.sizeBytes ≠ 0 ∧
    InBlocks config.logicalBlockSize (write.offsetBytes + config.baseOffsetBytes)
      write.sizeBytes x

/-- The cache holds none of the bytes given. -/
def Avoids (entries : List ReadCacheEntry) (covered : ℕ → Prop) : Prop :=
  ∀ entry ∈ entries, ∀ x, entry.offsetBytes ≤ x → x < entry.offsetBytes + entry.sizeBytes →
    ¬covered x

/-- A range that can be relied on reaches to a block boundary. -/
theorem alignUp_ne_zero_of_rangeFor {config : Config} {write : WriteSpan}
    (h : (rangeFor config write).isNone = false) :
    alignUp (write.offsetBytes + config.baseOffsetBytes + write.sizeBytes)
      config.logicalBlockSize ≠ 0 := by
  unfold rangeFor at h
  split at h
  · cases h
  simp only at h
  split at h
  · cases h
  split at h
  · cases h
  · rename_i hstop
    exact (not_or.mp hstop).1

/-- A byte of a block of a write lies in the range its epoch drops. -/
theorem mem_epochRange {config : Config} {write : WriteSpan} {x : ℕ}
    (h : (rangeFor config write).isNone = false)
    (hx : InBlocks config.logicalBlockSize (write.offsetBytes + config.baseOffsetBytes)
      write.sizeBytes x) :
    (epochRange config write).1 ≤ x ∧
      x < (epochRange config write).1 + (epochRange config write).2 := by
  have haligned := hx.aligned (logicalBlockSize_pos config) (alignUp_ne_zero_of_rangeFor h)
  simp only [epochRange]
  omega

/-- **What opening an epoch does**: the cache holds no byte any more that the write may change. -/
theorem beginWriteEpoch_spec {setup : CacheSetup} {writes : List WriteSpan} {cache : ReadCache}
    (h : Accounted setup cache) (henabled : setup.readCacheEnabled = true) :
    Accounted setup (beginWriteEpoch setup writes cache) ∧
      (beginWriteEpoch setup writes cache).generation = cache.generation + 1 ∧
      (beginWriteEpoch setup writes cache).entries ⊆ cache.entries ∧
      Avoids (beginWriteEpoch setup writes cache).entries (EpochCovers setup.config writes) := by
  unfold beginWriteEpoch
  rw [if_neg (by rw [henabled]; decide)]
  split
  · refine ⟨(clear_accounted h).congr rfl rfl, rfl, ?_, ?_⟩
    · show cache.clear.entries ⊆ cache.entries
      rw [clear_entries]
      exact List.nil_subset _
    · intro entry hmem
      have hmem' : entry ∈ cache.clear.entries := hmem
      rw [clear_entries] at hmem'
      cases hmem'
  · rename_i hsome
    rw [Bool.not_eq_true] at hsome
    have hstart : Accounted setup { cache with generation := cache.generation + 1 } :=
      h.congr rfl rfl
    obtain ⟨haccounted, hgeneration, hentries⟩ := @foldl_invalidate_spec setup setup.config
      (writes.filter fun write => write.sizeBytes != 0) _ hstart
    refine ⟨haccounted, hgeneration, fun entry hmem => (hentries entry hmem).1, ?_⟩
    intro entry hmem x hlow hhigh hcovers
    rcases hcovers with hall | ⟨write, hwrite, hsize, hblocks⟩
    · rw [hall] at hsome
      cases hsome
    · have hnonempty : write ∈ writes.filter fun write => write.sizeBytes != 0 :=
        List.mem_filter.mpr ⟨hwrite, by simpa using hsize⟩
      have hrange : (rangeFor setup.config write).isNone = false := by
        simp only [epochDropsAll, Bool.or_eq_false_iff, List.any_eq_false, Bool.and_eq_true,
          bne_iff_ne, not_and, Bool.not_eq_true] at hsome
        exact hsome.1 write hwrite hsize
      have hoverlaps := overlaps_of_mem ⟨hlow, hhigh⟩ (mem_epochRange hrange hblocks)
      rw [(hentries entry hmem).2 write hnonempty] at hoverlaps
      cases hoverlaps

/-! ## Insertion -/

theorem totalBytes_erase {entries : List ReadCacheEntry} {entry : ReadCacheEntry}
    (h : entry ∈ entries) :
    totalBytes entries = entry.bytes.length + totalBytes (entries.erase entry) := by
  rw [totalBytes_perm (List.perm_cons_erase h), totalBytes_cons]

/-- **The eviction loop ends within both budgets**, with the counter right. -/
theorem evict_spec (maxEntries : ℕ) (entries : List ReadCacheEntry) :
    (evict maxEntries entries (totalBytes entries)).1.Sublist entries ∧
      (evict maxEntries entries (totalBytes entries)).2 =
        totalBytes (evict maxEntries entries (totalBytes entries)).1 ∧
      (evict maxEntries entries (totalBytes entries)).1.length ≤ maxEntries ∧
      (evict maxEntries entries (totalBytes entries)).2 ≤ readCacheMaxBytes := by
  induction hlength : entries.length using Nat.strong_induction_on generalizing entries with
  | _ length ih =>
    subst hlength
    rw [evict]
    split
    · rename_i hover
      split
      · rename_i hnone
        rw [List.argmin_eq_none] at hnone
        subst hnone
        simp [readCacheMaxBytes] at hover
      · rename_i oldest holdest
        have hmem := List.argmin_mem holdest
        have hshorter : (entries.erase oldest).length < entries.length := by
          have := List.length_erase_of_mem hmem
          have := List.length_pos_of_mem hmem
          omega
        rw [show totalBytes entries - oldest.bytes.length = totalBytes (entries.erase oldest) by
          rw [totalBytes_erase hmem, Nat.add_sub_cancel_left]]
        obtain ⟨hsublist, hrest⟩ := ih _ hshorter (entries.erase oldest) rfl
        exact ⟨hsublist.trans List.erase_sublist, hrest⟩
    · rename_i hwithin
      rw [not_or, not_lt, not_lt] at hwithin
      exact ⟨List.Sublist.refl _, rfl, hwithin⟩

/-- The entries after one was replaced: those before, and the new one. -/
theorem mem_replaceEntry {offsetBytes sizeBytes : ℕ} {entry other : ReadCacheEntry}
    {entries : List ReadCacheEntry} (h : other ∈ replaceEntry offsetBytes sizeBytes entry entries) :
    other = entry ∨ other ∈ entries := by
  induction entries with
  | nil => cases h
  | cons first rest ih =>
    rw [replaceEntry] at h
    split at h
    · rcases List.mem_cons.mp h with hnew | hrest
      · exact .inl hnew
      · exact .inr (List.mem_cons_of_mem _ hrest)
    · rcases List.mem_cons.mp h with rfl | hrest
      · exact .inr List.mem_cons_self
      · exact (ih hrest).imp_right (List.mem_cons_of_mem _)

/-- Replacing an entry keeps the number of entries. -/
@[simp] theorem length_replaceEntry (offsetBytes sizeBytes : ℕ) (entry : ReadCacheEntry)
    (entries : List ReadCacheEntry) :
    (replaceEntry offsetBytes sizeBytes entry entries).length = entries.length := by
  induction entries with
  | nil => rfl
  | cons first rest ih =>
    rw [replaceEntry]
    split
    · rfl
    · rw [List.length_cons, ih, List.length_cons]

/-- Replacing an entry changes the total by the difference. -/
theorem totalBytes_replaceEntry {offsetBytes sizeBytes : ℕ} {entry existing : ReadCacheEntry}
    {entries : List ReadCacheEntry}
    (h : (entries.find? fun other => other.hasKey offsetBytes sizeBytes) = some existing) :
    totalBytes (replaceEntry offsetBytes sizeBytes entry entries) + existing.bytes.length =
      totalBytes entries + entry.bytes.length := by
  induction entries with
  | nil => cases h
  | cons first rest ih =>
    rw [List.find?_cons] at h
    rw [replaceEntry]
    split at h
    · rename_i hkey
      cases h
      rw [if_pos hkey, totalBytes_cons, totalBytes_cons]
      omega
    · rename_i hkey
      have hrest := ih h
      rw [if_neg (by rw [hkey]; decide), totalBytes_cons, totalBytes_cons]
      omega

/-- Eviction after an entry was put in its place. -/
theorem evict_placed {setup : CacheSetup} {cache : ReadCache} (h : Accounted setup cache)
    {entry : ReadCacheEntry} {entries : List ReadCacheEntry} {cachedBytes : ℕ}
    (htotal : cachedBytes = totalBytes entries) (hentry : entry.bytes.length = entry.sizeBytes)
    (hentries : ∀ other ∈ entries, other = entry ∨ other ∈ cache.entries) :
    Accounted setup { cache with
        entries := (evict setup.readCacheMaxEntries entries cachedBytes).1
        cachedBytes := (evict setup.readCacheMaxEntries entries cachedBytes).2
        use := cache.use + 1 } ∧
      ∀ other ∈ (evict setup.readCacheMaxEntries entries cachedBytes).1,
        other = entry ∨ other ∈ cache.entries := by
  subst htotal
  obtain ⟨hsublist, hcounted, hcount, hbytes⟩ := evict_spec setup.readCacheMaxEntries entries
  refine ⟨⟨fun other hmem => ?_, hcounted, hcount, hbytes⟩,
    fun other hmem => hentries other (hsublist.subset hmem)⟩
  rcases hentries other (hsublist.subset hmem) with rfl | hold
  · exact hentry
  · exact h.sized other hold

/-- **What an insertion does**: the books are kept, and the only new window is the one inserted. -/
theorem insertReadCacheEntry_spec {setup : CacheSetup} {cache : ReadCache}
    (h : Accounted setup cache) (offsetBytes sizeBytes : ℕ) (bytes : Bytes) :
    Accounted setup (insertReadCacheEntry setup offsetBytes sizeBytes bytes cache) ∧
      (insertReadCacheEntry setup offsetBytes sizeBytes bytes cache).generation =
        cache.generation ∧
      ∀ entry ∈ (insertReadCacheEntry setup offsetBytes sizeBytes bytes cache).entries,
        entry ∈ cache.entries ∨ entry.offsetBytes = offsetBytes ∧ entry.sizeBytes = sizeBytes ∧
          entry.bytes = bytes := by
  unfold insertReadCacheEntry
  split
  · exact ⟨h, rfl, fun entry hmem => .inl hmem⟩
  rename_i hsize
  rw [not_or, not_not] at hsize
  have hnew : ∀ {entry : ReadCacheEntry},
      entry = ⟨offsetBytes, sizeBytes, bytes, cache.use + 1⟩ ∨ entry ∈ cache.entries →
      entry ∈ cache.entries ∨ entry.offsetBytes = offsetBytes ∧ entry.sizeBytes = sizeBytes ∧
        entry.bytes = bytes := by
    rintro entry (rfl | hold)
    · exact .inr ⟨rfl, rfl, rfl⟩
    · exact .inl hold
  simp only
  split
  · rename_i existing hexisting
    have htotal := @totalBytes_replaceEntry offsetBytes sizeBytes
      ⟨offsetBytes, sizeBytes, bytes, cache.use + 1⟩ existing cache.entries hexisting
    have hless := totalBytes_le_of_sublist
      (List.singleton_sublist.mpr (List.mem_of_find?_eq_some hexisting))
    rw [totalBytes_cons, totalBytes_nil] at hless
    simp only at htotal
    have hcounter : cache.cachedBytes - existing.bytes.length + sizeBytes =
        totalBytes (replaceEntry offsetBytes sizeBytes
          ⟨offsetBytes, sizeBytes, bytes, cache.use + 1⟩ cache.entries) := by
      rw [h.counted]
      omega
    obtain ⟨haccounted, hmem⟩ := evict_placed h hcounter hsize.2
      fun other hother => mem_replaceEntry hother
    exact ⟨haccounted, trivial, fun entry hentry => hnew (hmem entry hentry)⟩
  · have hcounter : cache.cachedBytes + sizeBytes = totalBytes (cache.entries ++
        [⟨offsetBytes, sizeBytes, bytes, cache.use + 1⟩]) := by
      rw [totalBytes_append, totalBytes_cons, totalBytes_nil, h.counted, hsize.2, Nat.add_zero]
    obtain ⟨haccounted, hmem⟩ := evict_placed h hcounter hsize.2 fun other hother =>
      (List.mem_append.mp hother).symm.imp_left List.mem_singleton.mp
    exact ⟨haccounted, trivial, fun entry hentry => hnew (hmem entry hentry)⟩

/-! ## Lookup -/

/-- A candidate that was kept as the best one is an entry that contains the window. -/
theorem bestContaining_eq_some {alignedOffset alignedSize : ℕ} {entries : List ReadCacheEntry}
    {entry : ReadCacheEntry} (h : bestContaining alignedOffset alignedSize entries = some entry) :
    entry ∈ entries ∧ entry.containsWindow alignedOffset alignedSize = true := by
  unfold bestContaining at h
  induction entries using List.reverseRecOn with
  | nil => cases h
  | append_singleton entries candidate ih =>
    rw [List.foldl_append, List.foldl_cons, List.foldl_nil] at h
    split at h
    · rename_i hcandidate
      rw [Bool.and_eq_true] at hcandidate
      cases h
      exact ⟨by simp, hcandidate.1⟩
    · obtain ⟨hmem, hcontains⟩ := ih h
      exact ⟨List.mem_append_left _ hmem, hcontains⟩

/-- **What a hit serves**: an entry of the cache, and the window inside it. -/
theorem hit_eq_some {cache : ReadCache} {alignedOffset alignedSize : ℕ} {entry : ReadCacheEntry}
    {cachedOffset : ℕ} (h : cache.hit alignedOffset alignedSize = some (entry, cachedOffset)) :
    entry ∈ cache.entries ∧ entry.offsetBytes + cachedOffset = alignedOffset ∧
      cachedOffset + alignedSize ≤ entry.bytes.length := by
  unfold ReadCache.hit at h
  obtain ⟨hfind, hfits⟩ := Option.filter_eq_some_iff.mp h
  simp only [Bool.and_eq_true, decide_eq_true_eq] at hfits
  unfold ReadCache.find at hfind
  split at hfind
  · rename_i found hfound
    simp only [Option.some.injEq, Prod.mk.injEq] at hfind
    obtain ⟨rfl, rfl⟩ := hfind
    have hkey := List.find?_some hfound
    simp only [ReadCacheEntry.hasKey, Bool.and_eq_true, beq_iff_eq] at hkey
    exact ⟨List.mem_of_find?_eq_some hfound, by omega, by omega⟩
  · obtain ⟨found, hbest, heq⟩ := Option.map_eq_some_iff.mp hfind
    simp only [Prod.mk.injEq] at heq
    obtain ⟨rfl, rfl⟩ := heq
    obtain ⟨hmem, hcontains⟩ := bestContaining_eq_some hbest
    simp only [ReadCacheEntry.containsWindow, Bool.and_eq_true, Bool.not_eq_true',
      Bool.or_eq_false_iff, decide_eq_false_iff_not, bne_eq_false_iff_eq] at hcontains
    exact ⟨hmem, by omega, by omega⟩

/-- An entry that is in the cache is found under its key. -/
theorem exists_find_of_mem {entries : List ReadCacheEntry} {entry : ReadCacheEntry}
    (h : entry ∈ entries) :
    ∃ found, (entries.find? fun other => other.hasKey entry.offsetBytes entry.sizeBytes) =
      some found := by
  have hsome : (entries.find? fun other =>
      other.hasKey entry.offsetBytes entry.sizeBytes).isSome = true := by
    rw [List.find?_isSome]
    exact ⟨entry, h, by simp [ReadCacheEntry.hasKey]⟩
  exact Option.isSome_iff_exists.mp hsome

/-- A hit changes when its entry was used last, and nothing else. -/
theorem touch_spec {setup : CacheSetup} {cache : ReadCache} {entry : ReadCacheEntry}
    (h : Accounted setup cache) (hentry : entry ∈ cache.entries) :
    Accounted setup (cache.touch entry) ∧ Kept cache.entries (cache.touch entry).entries := by
  obtain ⟨found, hfound⟩ := exists_find_of_mem hentry
  have hkey := List.find?_some hfound
  simp only [ReadCacheEntry.hasKey, Bool.and_eq_true, beq_iff_eq] at hkey
  have hsame : found.bytes.length = entry.bytes.length := by
    rw [h.sized found (List.mem_of_find?_eq_some hfound), h.sized entry hentry, hkey.2]
  have htotal := @totalBytes_replaceEntry entry.offsetBytes entry.sizeBytes
    { entry with lastUse := cache.use + 1 } found cache.entries hfound
  simp only [hsame, Nat.add_right_cancel_iff] at htotal
  have hmem : ∀ other ∈ (cache.touch entry).entries,
      other = { entry with lastUse := cache.use + 1 } ∨ other ∈ cache.entries :=
    fun other hother => mem_replaceEntry hother
  refine ⟨⟨fun other hother => ?_, ?_, ?_, h.bytes_le⟩, fun other hother => ?_⟩
  · rcases hmem other hother with rfl | hold
    · exact h.sized entry hentry
    · exact h.sized other hold
  · show cache.cachedBytes = totalBytes (cache.touch entry).entries
    rw [h.counted]
    exact htotal.symm
  · show (cache.touch entry).entries.length ≤ setup.readCacheMaxEntries
    rw [ReadCache.touch, length_replaceEntry]
    exact h.entries_le
  · rcases hmem other hother with rfl | hold
    · exact ⟨entry, hentry, rfl, rfl, rfl⟩
    · exact ⟨other, hold, rfl, rfl, rfl⟩

end Device
end ApfsAccess
