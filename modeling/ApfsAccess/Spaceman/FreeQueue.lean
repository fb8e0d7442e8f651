import ApfsAccess.Spaceman.View
import ApfsAccess.Library.Sorting

/-!
# The queues of deferred frees

A queue says under which transaction each block was released.  `NormalizeFreeQueueEntries` adds
the releases of a plan, refuses ranges that overlap, sorts by transaction and address and joins
neighbours of one transaction.  `EncodeFreeQueueEntry` makes a record of an entry, without a value
when the entry is one block, and the ownership loader reads the record back.

* `coalesceAfter_spec` : joining neighbours, with the running entry.
* `normalizeFreeQueueEntries_spec` : what a queue that was accepted is.
* `decodeFreeQueueRecord_encode` : the record of an entry is read back.
* `loadFreeQueueEntries_encode` : the loader accepts the records of a normalized queue.
* `reloads_keep_queue` : a queue that is written and loaded at every checkpoint of a run.
-/

namespace ApfsAccess
namespace Spaceman

open Format ByteBuffer Sorting

/-- The end of an entry. -/
def FreeQueueEntry.finish (entry : FreeQueueEntry) : ℕ := entry.physicalBlock + entry.blockCount

/-- The blocks of an entry. -/
def FreeQueueEntry.blocks (entry : FreeQueueEntry) : Set ℕ :=
  Set.Ico entry.physicalBlock entry.finish

/-! ## The source's functions -/

/-- The entries of a queue and the releases of a plan that go to it. -/
def queueCandidates (entries : List FreeQueueEntry) (deferredFrees : List DeferredFree)
    (queueIndex transactionXid : ℕ) : List FreeQueueEntry :=
  entries ++ (deferredFrees.filter (·.queueIndex = queueIndex)).map fun deferred =>
    ⟨transactionXid, deferred.physicalBlock, deferred.blockCount⟩

/-- Two neighbours of a list of ranges overlap. -/
def neighboursOverlap : List (ℕ × ℕ) → Bool
  | previous :: range :: ranges =>
    decide (range.1 < previous.2) || neighboursOverlap (range :: ranges)
  | _ => false

/-- The loop that joins neighbours, with `coalesced.back()`. -/
def coalesceAfter : FreeQueueEntry → List FreeQueueEntry → List FreeQueueEntry
  | back, [] => [back]
  | back, entry :: entries =>
    if back.xid = entry.xid ∧ back.physicalBlock + back.blockCount = entry.physicalBlock then
      coalesceAfter { back with blockCount := back.blockCount + entry.blockCount } entries
    else back :: coalesceAfter entry entries

/-- The entries with their neighbours joined. -/
def coalesceEntries : List FreeQueueEntry → List FreeQueueEntry
  | [] => []
  | entry :: entries => coalesceAfter entry entries

/-- `NormalizeFreeQueueEntries`. -/
def normalizeFreeQueueEntries (entries : List FreeQueueEntry) (deferredFrees : List DeferredFree)
    (queueIndex transactionXid : ℕ) : Except String (List FreeQueueEntry) :=
  let candidates := queueCandidates entries deferredFrees queueIndex transactionXid
  if candidates.any fun entry => decide (entry.xid = 0 ∨ entry.physicalBlock = 0 ∨
      entry.blockCount = 0 ∨ uint64Max - entry.physicalBlock < entry.blockCount) then
    .error "AppleSpacemanFreeQueueRecordInvalid"
  else
    let ranges := sortBy (candidates.map fun entry =>
        (entry.physicalBlock, entry.physicalBlock + entry.blockCount)) fun left right =>
      decide (left.1 < right.1) || (left.1 == right.1 && decide (left.2 ≤ right.2))
    if neighboursOverlap ranges then .error "AppleSpacemanDeferredFreeOverlap"
    else
      .ok (coalesceEntries (sortBy candidates fun left right =>
        decide (left.xid < right.xid) ||
          (left.xid == right.xid && decide (left.physicalBlock ≤ right.physicalBlock))))

/-- `EncodeFreeQueueEntry`. -/
def encodeFreeQueueEntry (entry : FreeQueueEntry) : BtreeRecord where
  key := putU64 (putU64 (List.replicate 16 0) 0 entry.xid) 8 entry.physicalBlock
  value := if entry.blockCount ≠ 1 then putU64 (List.replicate 8 0) 0 entry.blockCount else []

/-- The entry of a record, as the ownership loader reads it. -/
def decodeFreeQueueRecord (record : BtreeRecord) : Except String FreeQueueEntry :=
  if record.key.length ≠ 16 ∨ (record.value ≠ [] ∧ record.value.length ≠ 8) then
    .error "AppleSpacemanFreeQueueRecordInvalid"
  else .ok {
    xid := (readU64LE record.key 0).getD 0
    physicalBlock := (readU64LE record.key 8).getD 0
    blockCount := if record.value = [] then 1 else (readU64LE record.value 0).getD 0 }

/-- The loop of the ownership loader over the records of a queue, with the key before and the
blocks counted so far. -/
def loadRecordsFrom (checkpointXid : ℕ) : Option (ℕ × ℕ) → ℕ → List BtreeRecord →
    Except String (List FreeQueueEntry × ℕ)
  | _, queuedBlockCount, [] => .ok ([], queuedBlockCount)
  | previousKey, queuedBlockCount, record :: records =>
    match decodeFreeQueueRecord record with
    | .error text => .error text
    | .ok entry =>
      if entry.xid = 0 ∨ checkpointXid < entry.xid ∨ entry.physicalBlock = 0 ∨
          entry.blockCount = 0 ∨ (record.value ≠ [] ∧ entry.blockCount ≤ 1) ∨
          (previousKey.any fun key => !(decide (key.1 < entry.xid) ||
            (key.1 == entry.xid && decide (key.2 < entry.physicalBlock)))) ∨
          uint64Max - queuedBlockCount < entry.blockCount then
        .error "AppleSpacemanFreeQueueRecordInvalid"
      else
        match loadRecordsFrom checkpointXid (some (entry.xid, entry.physicalBlock))
            (queuedBlockCount + entry.blockCount) records with
        | .error text => .error text
        | .ok (entries, count) => .ok (entry :: entries, count)

/-- The entries of a queue whose descriptor has this count and this oldest transaction. -/
def loadFreeQueueEntries (checkpointXid blockCount oldestXid : ℕ) (records : List BtreeRecord) :
    Except String (List FreeQueueEntry) :=
  match loadRecordsFrom checkpointXid none 0 records with
  | .error text => .error text
  | .ok (entries, queuedBlockCount) =>
    if queuedBlockCount ≠ blockCount then .error "AppleSpacemanFreeQueueCountMismatch"
    else if oldestXid ≠ (entries.head?.map (·.xid)).getD 0 then
      .error "AppleSpacemanFreeQueueOldestXidMismatch"
    else .ok entries

/-- **What a queue means**: the transaction under which a block was released. -/
def xidAt (entries : List FreeQueueEntry) (block : ℕ) : Option ℕ :=
  (entries.find? fun entry => decide (entry.physicalBlock ≤ block ∧ block < entry.finish)).map (·.xid)

/-! ## Joining neighbours -/

/-- An entry that the checks of `NormalizeFreeQueueEntries` accept. -/
structure FreeQueueEntry.Valid (entry : FreeQueueEntry) : Prop where
  xid : 0 < entry.xid
  physicalBlock : 0 < entry.physicalBlock
  blockCount : 0 < entry.blockCount
  bound : entry.finish ≤ uint64Max

/-- The block was released under the transaction. -/
def Queued (entries : List FreeQueueEntry) (block xid : ℕ) : Prop :=
  ∃ entry ∈ entries, block ∈ entry.blocks ∧ entry.xid = xid

theorem queued_cons {entry : FreeQueueEntry} {entries : List FreeQueueEntry} {block xid : ℕ} :
    Queued (entry :: entries) block xid ↔
      (block ∈ entry.blocks ∧ entry.xid = xid) ∨ Queued entries block xid := by
  rw [Queued, List.exists_mem_cons_iff]
  rfl

/-- In order by transaction, then by address, without overlap. -/
def Precedes (left right : FreeQueueEntry) : Prop :=
  left.xid < right.xid ∨ (left.xid = right.xid ∧ left.finish ≤ right.physicalBlock)

/-- In order, with a gap between two entries of one transaction. -/
def PrecedesApart (left right : FreeQueueEntry) : Prop :=
  left.xid < right.xid ∨ (left.xid = right.xid ∧ left.finish < right.physicalBlock)

/-- The blocks of two entries are different blocks. -/
def BlocksDisjoint (left right : FreeQueueEntry) : Prop := Disjoint left.blocks right.blocks

/-- Two entries that meet, as one. -/
def FreeQueueEntry.join (back entry : FreeQueueEntry) : FreeQueueEntry :=
  { back with blockCount := back.blockCount + entry.blockCount }

theorem FreeQueueEntry.blocks_join {back entry : FreeQueueEntry}
    (h : back.finish = entry.physicalBlock) :
    (back.join entry).blocks = back.blocks ∪ entry.blocks := by
  have hfinish : (back.join entry).finish = entry.finish := by
    show back.physicalBlock + (back.blockCount + entry.blockCount) = entry.finish
    rw [← Nat.add_assoc]
    exact congrArg (· + entry.blockCount) h
  ext block
  show back.physicalBlock ≤ block ∧ block < (back.join entry).finish ↔
    (back.physicalBlock ≤ block ∧ block < back.finish) ∨
      (entry.physicalBlock ≤ block ∧ block < entry.finish)
  have hback : back.physicalBlock ≤ back.finish := Nat.le_add_right _ _
  have hentry : entry.physicalBlock ≤ entry.finish := Nat.le_add_right _ _
  omega

/-- **Joining neighbours**, from the running entry on. -/
theorem coalesceAfter_spec {back : FreeQueueEntry} {entries : List FreeQueueEntry}
    (hvalid : ∀ entry ∈ back :: entries, entry.Valid)
    (hordered : (back :: entries).Pairwise Precedes)
    (hdisjoint : (back :: entries).Pairwise BlocksDisjoint) :
    (∀ entry ∈ coalesceAfter back entries, entry.Valid) ∧
      (coalesceAfter back entries).Pairwise PrecedesApart ∧
      (coalesceAfter back entries).Pairwise BlocksDisjoint ∧
      (∀ block xid, Queued (coalesceAfter back entries) block xid ↔
        Queued (back :: entries) block xid) ∧
      ∀ entry ∈ coalesceAfter back entries, back.xid < entry.xid ∨
        (back.xid = entry.xid ∧ back.physicalBlock ≤ entry.physicalBlock) := by
  induction entries generalizing back with
  | nil =>
    refine ⟨hvalid, List.pairwise_singleton _ _, List.pairwise_singleton _ _,
      fun block xid => Iff.rfl, fun entry hentry => ?_⟩
    rw [List.mem_singleton.mp hentry]
    exact Or.inr ⟨rfl, le_refl _⟩
  | cons entry entries ih =>
    obtain ⟨hback, hrest⟩ := List.forall_mem_cons.mp hvalid
    obtain ⟨hentry, hothers⟩ := List.forall_mem_cons.mp hrest
    obtain ⟨hbackOrdered, hrestOrdered⟩ := List.pairwise_cons.mp hordered
    obtain ⟨hentryOrdered, hothersOrdered⟩ := List.pairwise_cons.mp hrestOrdered
    obtain ⟨hbackDisjoint, hrestDisjoint⟩ := List.pairwise_cons.mp hdisjoint
    obtain ⟨hentryDisjoint, hothersDisjoint⟩ := List.pairwise_cons.mp hrestDisjoint
    have hfirst : Precedes back entry := hbackOrdered entry List.mem_cons_self
    rw [coalesceAfter]
    by_cases hmeet : back.xid = entry.xid ∧ back.physicalBlock + back.blockCount = entry.physicalBlock
    · -- the running entry takes its neighbour in
      rw [if_pos hmeet]
      obtain ⟨hxid, hends⟩ := hmeet
      have hfinish : (back.join entry).finish = entry.finish := by
        show back.physicalBlock + (back.blockCount + entry.blockCount) =
          entry.physicalBlock + entry.blockCount
        omega
      have hjoined : (back.join entry).Valid :=
        ⟨hback.xid, hback.physicalBlock, Nat.add_pos_left hback.blockCount _,
          hfinish ▸ hentry.bound⟩
      have hblocks := @FreeQueueEntry.blocks_join back entry hends
      obtain ⟨hvalids, hsorted, happart, hqueued, hfrom⟩ := @ih (back.join entry)
        (List.forall_mem_cons.mpr ⟨hjoined, hothers⟩)
        (List.pairwise_cons.mpr ⟨fun other hother => by
          have hnext := hentryOrdered other hother
          rw [Precedes] at hnext ⊢
          rw [hfinish]
          show back.xid < other.xid ∨ (back.xid = other.xid ∧ entry.finish ≤ other.physicalBlock)
          omega, hothersOrdered⟩)
        (List.pairwise_cons.mpr ⟨fun other hother => by
          show Disjoint (back.join entry).blocks other.blocks
          rw [hblocks]
          exact Disjoint.union_left (hbackDisjoint other (List.mem_cons_of_mem _ hother))
            (hentryDisjoint other hother), hothersDisjoint⟩)
      refine ⟨hvalids, hsorted, happart, fun block xid => ?_, hfrom⟩
      refine (hqueued block xid).trans ?_
      rw [queued_cons, queued_cons, queued_cons, hblocks, ← or_assoc]
      refine or_congr_left ?_
      show (block ∈ back.blocks ∨ block ∈ entry.blocks) ∧ back.xid = xid ↔
        (block ∈ back.blocks ∧ back.xid = xid) ∨ (block ∈ entry.blocks ∧ entry.xid = xid)
      rw [← hxid, or_and_right]
    · rw [if_neg hmeet]
      obtain ⟨hvalids, hsorted, happart, hqueued, hfrom⟩ := ih hrest hrestOrdered hrestDisjoint
      have hbytes : entry.physicalBlock < entry.finish :=
        Nat.lt_add_of_pos_right hentry.blockCount
      refine ⟨List.forall_mem_cons.mpr ⟨hback, hvalids⟩,
        List.pairwise_cons.mpr ⟨fun other hother => ?_, hsorted⟩,
        List.pairwise_cons.mpr ⟨fun other hother => ?_, happart⟩, fun block xid => ?_,
        List.forall_mem_cons.mpr ⟨Or.inr ⟨rfl, le_refl _⟩, fun other hother => ?_⟩⟩
      · -- not met, so that a gap is left
        have hnext := hfrom other hother
        rw [Precedes] at hfirst
        rw [PrecedesApart]
        have hgap : ¬ (back.xid = entry.xid ∧ back.finish = entry.physicalBlock) := hmeet
        omega
      · refine Set.disjoint_left.mpr fun block hblock hotherBlock => ?_
        obtain ⟨source, hsource, hinside, -⟩ :=
          (hqueued block other.xid).mp ⟨other, hother, hotherBlock, rfl⟩
        exact Set.disjoint_left.mp (hbackDisjoint source hsource) hblock hinside
      · rw [queued_cons, hqueued]
        exact queued_cons.symm
      · have hnext := hfrom other hother
        have hbackBlocks : back.physicalBlock ≤ back.finish := Nat.le_add_right _ _
        rw [Precedes] at hfirst
        omega

/-! ## What is accepted -/

/-- Ranges in order whose neighbours do not overlap do not overlap at all. -/
theorem pairwise_of_not_neighboursOverlap {ranges : List (ℕ × ℕ)}
    (hvalid : ∀ range ∈ ranges, range.1 < range.2) (h : neighboursOverlap ranges = false) :
    ranges.Pairwise fun left right => left.2 ≤ right.1 := by
  induction ranges with
  | nil => exact List.Pairwise.nil
  | cons previous rest ih =>
    cases rest with
    | nil => exact List.pairwise_singleton _ _
    | cons range ranges =>
      rw [neighboursOverlap, Bool.or_eq_false_iff] at h
      obtain ⟨hfirst, hothers⟩ := List.forall_mem_cons.mp hvalid
      have hrest := ih hothers h.2
      have hgap : previous.2 ≤ range.1 := Nat.le_of_not_lt (of_decide_eq_false h.1)
      refine List.pairwise_cons.mpr ⟨List.forall_mem_cons.mpr ⟨hgap, fun other hother => ?_⟩, hrest⟩
      have hnext := (List.pairwise_cons.mp hrest).1 other hother
      have hlength := hothers range List.mem_cons_self
      omega

/-- **A normalized queue.** -/
structure NormalQueue (entries : List FreeQueueEntry) : Prop where
  valid : ∀ entry ∈ entries, entry.Valid
  /-- Strictly in order by transaction, then by address. -/
  sorted : entries.Pairwise fun left right =>
    left.xid < right.xid ∨ (left.xid = right.xid ∧ left.physicalBlock < right.physicalBlock)
  disjoint : entries.Pairwise BlocksDisjoint
  /-- No two entries of one transaction meet. -/
  coalesced : ∀ left ∈ entries, ∀ right ∈ entries, left.xid = right.xid →
    left.finish ≠ right.physicalBlock

/-- The checks on the candidates. -/
theorem valid_of_any_eq_false {candidates : List FreeQueueEntry}
    (h : ¬ (candidates.any fun entry => decide (entry.xid = 0 ∨ entry.physicalBlock = 0 ∨
      entry.blockCount = 0 ∨ uint64Max - entry.physicalBlock < entry.blockCount)) = true) :
    ∀ entry ∈ candidates, entry.Valid := by
  intro entry hentry
  have hchecks := List.any_eq_false.mp (Bool.eq_false_iff.mpr h) entry hentry
  simp only [decide_eq_true_eq, not_or] at hchecks
  refine ⟨by omega, by omega, by omega, ?_⟩
  show entry.physicalBlock + entry.blockCount ≤ uint64Max
  omega

theorem blocksDisjoint_iff {left right : FreeQueueEntry} (hleft : left.Valid) (hright : right.Valid) :
    BlocksDisjoint left right ↔
      left.finish ≤ right.physicalBlock ∨ right.finish ≤ left.physicalBlock := by
  have hlengthLeft : left.physicalBlock < left.finish := Nat.lt_add_of_pos_right hleft.blockCount
  have hlengthRight : right.physicalBlock < right.finish :=
    Nat.lt_add_of_pos_right hright.blockCount
  rw [BlocksDisjoint, Set.disjoint_left]
  constructor
  · intro h
    by_contra hmeet
    push Not at hmeet
    exact h (a := max left.physicalBlock right.physicalBlock)
      ⟨le_max_left _ _, max_lt hlengthLeft hmeet.1⟩ ⟨le_max_right _ _, max_lt hmeet.2 hlengthRight⟩
  · rintro h block ⟨hlow, hhigh⟩ ⟨hlow', hhigh'⟩
    omega

/-- Candidates that pass the overlap check are different blocks. -/
theorem pairwise_disjoint_candidates {candidates : List FreeQueueEntry}
    (hvalid : ∀ entry ∈ candidates, entry.Valid)
    (h : ¬ neighboursOverlap (sortBy (candidates.map fun entry =>
        (entry.physicalBlock, entry.physicalBlock + entry.blockCount)) fun left right =>
      decide (left.1 < right.1) || (left.1 == right.1 && decide (left.2 ≤ right.2))) = true) :
    candidates.Pairwise BlocksDisjoint := by
  have hperm := sortBy_perm (candidates.map fun entry =>
      (entry.physicalBlock, entry.physicalBlock + entry.blockCount)) fun left right =>
    decide (left.1 < right.1) || (left.1 == right.1 && decide (left.2 ≤ right.2))
  have hlengths : ∀ range ∈ candidates.map fun entry =>
      (entry.physicalBlock, entry.physicalBlock + entry.blockCount), range.1 < range.2 := by
    intro range hrange
    obtain ⟨entry, hentry, rfl⟩ := List.mem_map.mp hrange
    exact Nat.lt_add_of_pos_right (hvalid entry hentry).blockCount
  have hapart := pairwise_of_not_neighboursOverlap
    (fun range hrange => hlengths range (hperm.subset hrange)) (Bool.eq_false_iff.mpr h)
  have hboth : (candidates.map fun entry =>
      (entry.physicalBlock, entry.physicalBlock + entry.blockCount)).Pairwise
        fun left right => left.2 ≤ right.1 ∨ right.2 ≤ left.1 := by
    refine (hperm.pairwise_iff ?_).mp (hapart.imp Or.inl)
    intro left right hor
    exact hor.symm
  refine (List.pairwise_map.mp hboth).imp_of_mem fun {left right} hleft hright hor => ?_
  exact (blocksDisjoint_iff (hvalid left hleft) (hvalid right hright)).mpr hor

/-- Entries that are different blocks, sorted, are in order without overlap. -/
theorem pairwise_precedes_sortBy {candidates : List FreeQueueEntry}
    (hvalid : ∀ entry ∈ candidates, entry.Valid) (hdisjoint : candidates.Pairwise BlocksDisjoint) :
    (sortBy candidates fun left right => decide (left.xid < right.xid) ||
      (left.xid == right.xid && decide (left.physicalBlock ≤ right.physicalBlock))).Pairwise
        Precedes := by
  have hperm := sortBy_perm candidates fun left right => decide (left.xid < right.xid) ||
    (left.xid == right.xid && decide (left.physicalBlock ≤ right.physicalBlock))
  have hsorted := @pairwise_sortBy FreeQueueEntry (fun left right =>
    decide (left.xid < right.xid) ||
      (left.xid == right.xid && decide (left.physicalBlock ≤ right.physicalBlock)))
    (by
      intro first second third
      simp only [Bool.or_eq_true, Bool.and_eq_true, decide_eq_true_eq, beq_iff_eq]
      omega)
    (by
      intro first second
      simp only [Bool.or_eq_true, Bool.and_eq_true, decide_eq_true_eq, beq_iff_eq]
      omega) candidates
  have hapart : (sortBy candidates fun left right => decide (left.xid < right.xid) ||
      (left.xid == right.xid && decide (left.physicalBlock ≤ right.physicalBlock))).Pairwise
        BlocksDisjoint :=
    (hperm.pairwise_iff (fun {left right} h => Disjoint.symm h)).mpr hdisjoint
  refine (hsorted.and hapart).imp_of_mem fun {left right} hleft hright hboth => ?_
  obtain ⟨hle, hne⟩ := hboth
  have hvalidLeft := hvalid left (hperm.subset hleft)
  have hvalidRight := hvalid right (hperm.subset hright)
  have hlength : right.physicalBlock < right.finish :=
    Nat.lt_add_of_pos_right hvalidRight.blockCount
  have hor := (blocksDisjoint_iff hvalidLeft hvalidRight).mp hne
  simp only [Bool.or_eq_true, Bool.and_eq_true, decide_eq_true_eq, beq_iff_eq] at hle
  rw [Precedes]
  omega

/-- Entries of one transaction do not meet. -/
def Unmet (left right : FreeQueueEntry) : Prop :=
  left.xid = right.xid → left.finish ≠ right.physicalBlock ∧ right.finish ≠ left.physicalBlock

/-- Entries with a gap after each of one transaction are a normalized queue. -/
theorem normalQueue_of_pairwise {entries : List FreeQueueEntry}
    (hvalid : ∀ entry ∈ entries, entry.Valid) (hordered : entries.Pairwise PrecedesApart)
    (hdisjoint : entries.Pairwise BlocksDisjoint) : NormalQueue entries := by
  have hlength : ∀ entry ∈ entries, entry.physicalBlock < entry.finish := fun entry hentry =>
    Nat.lt_add_of_pos_right (hvalid entry hentry).blockCount
  refine ⟨hvalid, hordered.imp_of_mem fun {left right} hleft hright h => ?_, hdisjoint, ?_⟩
  · have := hlength left hleft
    rw [PrecedesApart] at h
    omega
  · have happart : entries.Pairwise Unmet := by
      refine hordered.imp_of_mem fun {left right} hleft hright h hxid => ?_
      have := hlength left hleft
      have := hlength right hright
      rw [PrecedesApart] at h
      omega
    have hsymm : Std.Symm Unmet := ⟨fun left right h hxid => (h hxid.symm).symm⟩
    have hall := happart.forall_of_forall
      (fun entry hentry _ => ⟨(hlength entry hentry).ne', (hlength entry hentry).ne'⟩)
    exact fun left hleft right hright hxid => (hall hleft hright hxid).1

theorem coalesceEntries_spec {entries : List FreeQueueEntry}
    (hvalid : ∀ entry ∈ entries, entry.Valid) (hordered : entries.Pairwise Precedes)
    (hdisjoint : entries.Pairwise BlocksDisjoint) :
    NormalQueue (coalesceEntries entries) ∧
      ∀ block xid, Queued (coalesceEntries entries) block xid ↔ Queued entries block xid := by
  cases entries with
  | nil => exact ⟨⟨by simp [coalesceEntries], List.Pairwise.nil, List.Pairwise.nil,
      by simp [coalesceEntries]⟩, fun block xid => Iff.rfl⟩
  | cons entry entries =>
    obtain ⟨hvalids, hsorted, happart, hqueued, -⟩ := coalesceAfter_spec hvalid hordered hdisjoint
    exact ⟨normalQueue_of_pairwise hvalids hsorted happart, hqueued⟩

/-- **What a queue that was accepted is.** -/
theorem normalizeFreeQueueEntries_queued {entries result : List FreeQueueEntry}
    {deferredFrees : List DeferredFree} {queueIndex transactionXid : ℕ}
    (h : normalizeFreeQueueEntries entries deferredFrees queueIndex transactionXid = .ok result) :
    (∀ entry ∈ queueCandidates entries deferredFrees queueIndex transactionXid, entry.Valid) ∧
      (queueCandidates entries deferredFrees queueIndex transactionXid).Pairwise BlocksDisjoint ∧
      NormalQueue result ∧ ∀ block xid, Queued result block xid ↔
        Queued (queueCandidates entries deferredFrees queueIndex transactionXid) block xid := by
  rw [normalizeFreeQueueEntries] at h
  dsimp only at h
  generalize queueCandidates entries deferredFrees queueIndex transactionXid = candidates at h ⊢
  split at h
  · cases h
  rename_i hchecks
  split at h
  · cases h
  rename_i hoverlap
  have hvalid := valid_of_any_eq_false hchecks
  have hdisjoint := pairwise_disjoint_candidates hvalid hoverlap
  have hperm := sortBy_perm candidates fun left right => decide (left.xid < right.xid) ||
    (left.xid == right.xid && decide (left.physicalBlock ≤ right.physicalBlock))
  obtain ⟨hnormal, hqueued⟩ := coalesceEntries_spec
    (fun entry hentry => hvalid entry (hperm.subset hentry))
    (pairwise_precedes_sortBy hvalid hdisjoint)
    ((hperm.pairwise_iff (fun {left right} h => Disjoint.symm h)).mpr hdisjoint)
  cases h
  refine ⟨hvalid, hdisjoint, hnormal, fun block xid => ?_⟩
  rw [hqueued]
  constructor
  · rintro ⟨entry, hentry, hinside⟩
    exact ⟨entry, hperm.subset hentry, hinside⟩
  · rintro ⟨entry, hentry, hinside⟩
    exact ⟨entry, hperm.mem_iff.mpr hentry, hinside⟩

/-- Where the blocks are different ones, the map of a queue is what its entries say. -/
theorem xidAt_eq_some_iff {entries : List FreeQueueEntry} (hdisjoint : entries.Pairwise BlocksDisjoint)
    {block xid : ℕ} : xidAt entries block = some xid ↔ Queued entries block xid := by
  induction entries with
  | nil =>
    constructor
    · intro h
      cases h
    · rintro ⟨entry, hentry, -⟩
      cases hentry
  | cons entry entries ih =>
    obtain ⟨hfirst, hothers⟩ := List.pairwise_cons.mp hdisjoint
    rw [queued_cons, ← ih hothers, xidAt]
    by_cases hinside : block ∈ entry.blocks
    · have hbounds : entry.physicalBlock ≤ block ∧ block < entry.finish := hinside
      have hnone : ¬ xidAt entries block = some xid := by
        rw [ih hothers]
        rintro ⟨other, hother, hin, -⟩
        exact Set.disjoint_left.mp (hfirst other hother) hinside hin
      rw [List.find?_cons_of_pos (by rw [decide_eq_true_eq]; exact hbounds), or_iff_left hnone,
        and_iff_right hinside, Option.map_some, Option.some_inj]
    · have hbounds : ¬ (entry.physicalBlock ≤ block ∧ block < entry.finish) := hinside
      rw [List.find?_cons_of_neg (by rw [decide_eq_true_eq]; exact hbounds),
        or_iff_right (fun h => hinside h.1)]
      rfl

/-! ## Records -/

theorem length_key_encode (entry : FreeQueueEntry) :
    (encodeFreeQueueEntry entry).key.length = 16 := by
  have hzero : (List.replicate 16 (0 : UInt8)).length = 16 := List.length_replicate
  have hfirst : (putU64 (List.replicate 16 0) 0 entry.xid).length = 16 := by
    rw [putU64, length_putLE (by rw [hzero]; omega), hzero]
  show (putU64 (putU64 (List.replicate 16 0) 0 entry.xid) 8 entry.physicalBlock).length = 16
  rw [putU64, length_putLE (by rw [hfirst]), hfirst]

theorem length_value_encode (entry : FreeQueueEntry) :
    (encodeFreeQueueEntry entry).value.length = if entry.blockCount ≠ 1 then 8 else 0 := by
  have hzero : (List.replicate 8 (0 : UInt8)).length = 8 := List.length_replicate
  show (if entry.blockCount ≠ 1 then putU64 (List.replicate 8 0) 0 entry.blockCount
    else []).length = _
  split
  · rw [putU64, length_putLE (by rw [hzero]), hzero]
  · rfl

/-- A number put into a buffer is read back. -/
theorem readU64LE_putU64 {buffer : Bytes} {offset value : ℕ} (h : offset + 8 ≤ buffer.length)
    (hvalue : value ≤ uint64Max) : readU64LE (putU64 buffer offset value) offset = some value := by
  have hlt : value < 256 ^ 8 := lt_of_le_of_lt hvalue (by norm_num [uint64Max])
  refine readLE_of_slice ?_ (slice_putLE_self h) hlt
  rw [putU64, length_putLE h]
  exact h

/-- **The record of an entry is read back as the entry.** -/
theorem decodeFreeQueueRecord_encode {entry : FreeQueueEntry} (hxid : entry.xid ≤ uint64Max)
    (hblock : entry.physicalBlock ≤ uint64Max) (hcount : entry.blockCount ≤ uint64Max) :
    decodeFreeQueueRecord (encodeFreeQueueEntry entry) = .ok entry := by
  have hzero : (List.replicate 16 (0 : UInt8)).length = 16 := List.length_replicate
  have hvalueZero : (List.replicate 8 (0 : UInt8)).length = 8 := List.length_replicate
  have hfirst : (putU64 (List.replicate 16 0) 0 entry.xid).length = 16 := by
    rw [putU64, length_putLE (by rw [hzero]; omega), hzero]
  have hlength := length_value_encode entry
  have hreadBlock : readU64LE (encodeFreeQueueEntry entry).key 8 = some entry.physicalBlock :=
    readU64LE_putU64 (by rw [hfirst]) hblock
  -- the second number is written behind the first
  have hreadXid : readU64LE (encodeFreeQueueEntry entry).key 0 = some entry.xid := by
    have hlt : entry.xid < 256 ^ 8 := lt_of_le_of_lt hxid (by norm_num [uint64Max])
    refine readLE_of_slice ?_ ?_ hlt
    · rw [length_key_encode]
      omega
    · refine (slice_putLE ?_ (Or.inl (le_refl _))).trans (slice_putLE_self ?_)
      · rw [hfirst]
      · rw [hzero]
        omega
  rw [decodeFreeQueueRecord, length_key_encode, hreadXid, hreadBlock]
  by_cases hone : entry.blockCount = 1
  · have hvalue : (encodeFreeQueueEntry entry).value = [] := if_neg (not_not.mpr hone)
    rw [hvalue, if_neg (by simp)]
    simp only [if_true, Option.getD_some, ← hone]
  · rw [if_pos hone] at hlength
    have hne : (encodeFreeQueueEntry entry).value ≠ [] := by
      intro hempty
      rw [hempty] at hlength
      cases hlength
    have hvalue : (encodeFreeQueueEntry entry).value =
        putU64 (List.replicate 8 0) 0 entry.blockCount := if_pos hone
    have hreadCount : readU64LE (encodeFreeQueueEntry entry).value 0 = some entry.blockCount := by
      rw [hvalue]
      exact readU64LE_putU64 (by rw [hvalueZero]) hcount
    rw [if_neg (by rw [hlength]; simp), if_neg hne, hreadCount]
    rfl

/-- The blocks of a queue, counted. -/
def queuedBlocks (entries : List FreeQueueEntry) : ℕ := (entries.map (·.blockCount)).sum

theorem loadRecordsFrom_encode {entries : List FreeQueueEntry} {checkpointXid queuedBlockCount : ℕ}
    {previousKey : Option (ℕ × ℕ)} (hnormal : NormalQueue entries)
    (hxid : ∀ entry ∈ entries, entry.xid ≤ checkpointXid) (hcheckpoint : checkpointXid ≤ uint64Max)
    (hcount : queuedBlockCount + queuedBlocks entries ≤ uint64Max)
    (hprevious : ∀ key ∈ previousKey, ∀ entry ∈ entries,
      key.1 < entry.xid ∨ (key.1 = entry.xid ∧ key.2 < entry.physicalBlock)) :
    loadRecordsFrom checkpointXid previousKey queuedBlockCount
        (entries.map encodeFreeQueueEntry) =
      .ok (entries, queuedBlockCount + queuedBlocks entries) := by
  induction entries generalizing previousKey queuedBlockCount with
  | nil => rfl
  | cons entry entries ih =>
    obtain ⟨hvalid, hothers⟩ := List.forall_mem_cons.mp hnormal.valid
    obtain ⟨hfirst, hsorted⟩ := List.pairwise_cons.mp hnormal.sorted
    have hrest : NormalQueue entries := ⟨hothers, hsorted, hnormal.disjoint.of_cons,
      fun left hleft right hright => hnormal.coalesced left (List.mem_cons_of_mem _ hleft) right
        (List.mem_cons_of_mem _ hright)⟩
    have hbound : entry.physicalBlock + entry.blockCount ≤ uint64Max := hvalid.bound
    have hpositive := hvalid.blockCount
    have hblock := hvalid.physicalBlock
    have hxidPos := hvalid.xid
    have hentryXid := hxid entry List.mem_cons_self
    have hsum : queuedBlocks (entry :: entries) = entry.blockCount + queuedBlocks entries := rfl
    have hghost : (encodeFreeQueueEntry entry).value ≠ [] → 1 < entry.blockCount := by
      intro hne
      by_contra hle
      exact hne (if_neg (by omega))
    have hkey : (previousKey.any fun key => !(decide (key.1 < entry.xid) ||
        (key.1 == entry.xid && decide (key.2 < entry.physicalBlock)))) = false := by
      cases previousKey with
      | none => rfl
      | some key =>
        have hbefore := hprevious key rfl entry List.mem_cons_self
        simp only [Option.any_some, Bool.not_eq_eq_eq_not, Bool.not_false, Bool.or_eq_true,
          Bool.and_eq_true, decide_eq_true_eq, beq_iff_eq]
        exact hbefore
    rw [List.map_cons, loadRecordsFrom, decodeFreeQueueRecord_encode (by omega) (by omega) (by omega)]
    dsimp only
    rw [hkey, if_neg (by
      rintro (h | h | h | h | ⟨hne, hone⟩ | h | h)
      · omega
      · omega
      · omega
      · omega
      · have := hghost hne
        omega
      · cases h
      · omega)]
    rw [@ih (queuedBlockCount + entry.blockCount) (some (entry.xid, entry.physicalBlock)) hrest
      (fun other hother => hxid other (List.mem_cons_of_mem _ hother)) (by omega)
      (by rintro key ⟨⟩ other hother; exact hfirst other hother)]
    dsimp only
    rw [hsum, Nat.add_assoc]

/-- Entries of different blocks count the blocks they cover. -/
theorem exists_finset_blocks {entries : List FreeQueueEntry}
    (hdisjoint : entries.Pairwise BlocksDisjoint) :
    ∃ blocks : Finset ℕ, blocks.card = queuedBlocks entries ∧
      ∀ block, block ∈ blocks ↔ ∃ entry ∈ entries, block ∈ entry.blocks := by
  induction entries with
  | nil => exact ⟨∅, rfl, by simp⟩
  | cons entry entries ih =>
    obtain ⟨hfirst, hothers⟩ := List.pairwise_cons.mp hdisjoint
    obtain ⟨blocks, hcard, hmem⟩ := ih hothers
    have hapart : Disjoint (Finset.Ico entry.physicalBlock entry.finish) blocks := by
      refine Finset.disjoint_left.mpr fun block hblock hother => ?_
      obtain ⟨other, hotherMem, hinside⟩ := (hmem block).mp hother
      exact Set.disjoint_left.mp (hfirst other hotherMem) (Finset.mem_Ico.mp hblock) hinside
    refine ⟨Finset.Ico entry.physicalBlock entry.finish ∪ blocks, ?_, fun block => ?_⟩
    · rw [Finset.card_union_of_disjoint hapart, hcard, Nat.card_Ico]
      show entry.physicalBlock + entry.blockCount - entry.physicalBlock + queuedBlocks entries = _
      rw [Nat.add_sub_cancel_left]
      rfl
    · rw [Finset.mem_union, hmem, Finset.mem_Ico, List.exists_mem_cons_iff]
      rfl

/-- A normalized queue counts fewer blocks than there are addresses. -/
theorem NormalQueue.queuedBlocks_le {entries : List FreeQueueEntry} (h : NormalQueue entries) :
    queuedBlocks entries ≤ uint64Max := by
  obtain ⟨blocks, hcard, hmem⟩ := exists_finset_blocks h.disjoint
  have hsubset : blocks ⊆ Finset.range uint64Max := by
    intro block hblock
    obtain ⟨entry, hentry, hinside⟩ := (hmem block).mp hblock
    exact Finset.mem_range.mpr (lt_of_lt_of_le hinside.2 (h.valid entry hentry).bound)
  have hle := Finset.card_le_card hsubset
  rwa [hcard, Finset.card_range] at hle

/-- **The loader accepts a normalized queue** whose transactions are not past the checkpoint, and
reads it back. -/
theorem loadFreeQueueEntries_encode {entries : List FreeQueueEntry} {checkpointXid : ℕ}
    (hnormal : NormalQueue entries) (hxid : ∀ entry ∈ entries, entry.xid ≤ checkpointXid)
    (hcheckpoint : checkpointXid ≤ uint64Max) :
    loadFreeQueueEntries checkpointXid (queuedBlocks entries)
      ((entries.head?.map (·.xid)).getD 0) (entries.map encodeFreeQueueEntry) = .ok entries := by
  have hcount := hnormal.queuedBlocks_le
  rw [loadFreeQueueEntries, @loadRecordsFrom_encode entries checkpointXid 0 none hnormal hxid
    hcheckpoint (by omega) (by simp)]
  dsimp only
  rw [Nat.zero_add, if_neg (by simp), if_neg (by simp)]

/-- **Normalizing keeps what a queue means, and the records keep the entries.** -/
theorem normalizeFreeQueueEntries_spec (entries : List FreeQueueEntry)
    (deferredFrees : List DeferredFree) (queueIndex transactionXid : ℕ)
    (result : List FreeQueueEntry)
    (hxid : ∀ entry ∈ queueCandidates entries deferredFrees queueIndex transactionXid,
      entry.xid ≤ uint64Max)
    (h : normalizeFreeQueueEntries entries deferredFrees queueIndex transactionXid = .ok result) :
    NormalQueue result ∧
      (∀ block, xidAt result block =
        xidAt (queueCandidates entries deferredFrees queueIndex transactionXid) block) ∧
      ∀ entry ∈ result, decodeFreeQueueRecord (encodeFreeQueueEntry entry) = .ok entry := by
  obtain ⟨hvalid, hdisjoint, hnormal, hqueued⟩ := normalizeFreeQueueEntries_queued h
  refine ⟨hnormal, fun block => ?_, fun entry hentry => ?_⟩
  · ext xid
    rw [xidAt_eq_some_iff hnormal.disjoint, xidAt_eq_some_iff hdisjoint, hqueued]
  · have hentryValid := hnormal.valid entry hentry
    have hbound : entry.physicalBlock + entry.blockCount ≤ uint64Max := hentryValid.bound
    have hpositive := hentryValid.blockCount
    -- the transaction of an entry is one of the candidates'
    obtain ⟨source, hsource, -, hsame⟩ := (hqueued entry.physicalBlock entry.xid).mp
      ⟨entry, hentry, ⟨le_refl _, Nat.lt_add_of_pos_right hpositive⟩, rfl⟩
    have hle := hxid source hsource
    exact decodeFreeQueueRecord_encode (by omega) (by omega) (by omega)

/-- A queue with an entry of an older transaction, one that meets a release, and a single block. -/
theorem normalizeFreeQueueEntries_spec_sample :
    NormalQueue [⟨5, 100, 2⟩, ⟨9, 40, 1⟩, ⟨9, 102, 5⟩] ∧
      (∀ block, xidAt [⟨5, 100, 2⟩, ⟨9, 40, 1⟩, ⟨9, 102, 5⟩] block =
        xidAt (queueCandidates [⟨9, 102, 3⟩, ⟨5, 100, 2⟩] [⟨1, 105, 2⟩, ⟨0, 7, 1⟩, ⟨1, 40, 1⟩] 1 9)
          block) ∧
      ∀ entry ∈ [(⟨5, 100, 2⟩ : FreeQueueEntry), ⟨9, 40, 1⟩, ⟨9, 102, 5⟩],
        decodeFreeQueueRecord (encodeFreeQueueEntry entry) = .ok entry :=
  normalizeFreeQueueEntries_spec [⟨9, 102, 3⟩, ⟨5, 100, 2⟩] [⟨1, 105, 2⟩, ⟨0, 7, 1⟩, ⟨1, 40, 1⟩] 1 9
    [⟨5, 100, 2⟩, ⟨9, 40, 1⟩, ⟨9, 102, 5⟩] (by decide) (by rfl)

/-! ## Runs of checkpoints -/

/-- A checkpoint: its transaction, and what it releases. -/
structure QueueCheckpoint where
  xid : ℕ
  releases : List DeferredFree
  deriving DecidableEq, Repr

/-- The queue in memory after a checkpoint. -/
def planQueue (queueIndex : ℕ) (entries : List FreeQueueEntry) (checkpoint : QueueCheckpoint) :
    Except String (List FreeQueueEntry) :=
  normalizeFreeQueueEntries entries checkpoint.releases queueIndex checkpoint.xid

/-- The queue after a checkpoint whose records and descriptor are written and loaded again. -/
def reloadQueue (queueIndex : ℕ) (entries : List FreeQueueEntry) (checkpoint : QueueCheckpoint) :
    Except String (List FreeQueueEntry) := do
  let planned ← planQueue queueIndex entries checkpoint
  loadFreeQueueEntries checkpoint.xid (queuedBlocks planned)
    ((planned.head?.map (·.xid)).getD 0) (planned.map encodeFreeQueueEntry)

section Run

variable {queueIndex : ℕ} {entries planned : List FreeQueueEntry} {checkpoint : QueueCheckpoint}
  {checkpoints : List QueueCheckpoint}

/-- The checkpoint releases the block into the queue. -/
def QueueCheckpoint.Releases (checkpoint : QueueCheckpoint) (queueIndex block : ℕ) : Prop :=
  ∃ release ∈ checkpoint.releases, release.queueIndex = queueIndex ∧
    release.physicalBlock ≤ block ∧ block < release.physicalBlock + release.blockCount

theorem queued_queueCandidates {block xid : ℕ} :
    Queued (queueCandidates entries checkpoint.releases queueIndex checkpoint.xid) block xid ↔
      Queued entries block xid ∨ checkpoint.xid = xid ∧ checkpoint.Releases queueIndex block := by
  constructor
  · rintro ⟨entry, hentry, hblock, hxid⟩
    rcases List.mem_append.mp hentry with hold | hnew
    · exact .inl ⟨entry, hold, hblock, hxid⟩
    · obtain ⟨release, hrelease, rfl⟩ := List.mem_map.mp hnew
      obtain ⟨hmem, hqueue⟩ := List.mem_filter.mp hrelease
      exact .inr ⟨hxid, release, hmem, of_decide_eq_true hqueue, hblock⟩
  · rintro (⟨entry, hentry, hqueued⟩ | ⟨hxid, release, hmem, hqueue, hblock⟩)
    · exact ⟨entry, List.mem_append_left _ hentry, hqueued⟩
    · refine ⟨_, List.mem_append_right _ (List.mem_map_of_mem
        (List.mem_filter.mpr ⟨hmem, decide_eq_true hqueue⟩)), hblock, hxid⟩

/-- **One checkpoint**: what is loaded is what was planned. -/
theorem reloadQueue_of_planQueue (hxid : ∀ entry ∈ entries, entry.xid ≤ checkpoint.xid)
    (hlast : checkpoint.xid ≤ uint64Max) (h : planQueue queueIndex entries checkpoint = .ok planned) :
    reloadQueue queueIndex entries checkpoint = .ok planned ∧ NormalQueue planned ∧
      (∀ entry ∈ planned, entry.xid ≤ checkpoint.xid) ∧
      ∀ block xid, Queued planned block xid ↔
        Queued entries block xid ∨ checkpoint.xid = xid ∧ checkpoint.Releases queueIndex block := by
  obtain ⟨-, -, hnormal, hqueued⟩ := normalizeFreeQueueEntries_queued h
  have hmeaning : ∀ block xid, Queued planned block xid ↔ Queued entries block xid ∨
      checkpoint.xid = xid ∧ checkpoint.Releases queueIndex block :=
    fun block xid => (hqueued block xid).trans queued_queueCandidates
  have hbound : ∀ entry ∈ planned, entry.xid ≤ checkpoint.xid := by
    intro entry hentry
    -- the transaction of an entry is that of its first block
    have hfirst : Queued planned entry.physicalBlock entry.xid :=
      ⟨entry, hentry, ⟨le_refl _, Nat.lt_add_of_pos_right (hnormal.valid entry hentry).blockCount⟩,
        rfl⟩
    rcases (hmeaning _ _).mp hfirst with ⟨earlier, hearlier, -, hsame⟩ | ⟨hsame, -⟩
    · exact hsame ▸ hxid earlier hearlier
    · exact hsame.ge
  refine ⟨?_, hnormal, hbound, hmeaning⟩
  rw [reloadQueue, h]
  exact loadFreeQueueEntries_encode hnormal hbound hlast

/-- **A queue that is written and loaded at every checkpoint** is the queue that stays in memory, and it
says of every block under which transaction it was released. -/
theorem reloads_keep_queue {last : List FreeQueueEntry} (hstart : NormalQueue entries)
    (hxid : ∀ entry ∈ entries, ∀ checkpoint ∈ checkpoints, entry.xid ≤ checkpoint.xid)
    (hordered : checkpoints.Pairwise fun earlier later => earlier.xid ≤ later.xid)
    (hbound : ∀ checkpoint ∈ checkpoints, checkpoint.xid ≤ uint64Max)
    (hrun : checkpoints.foldlM (planQueue queueIndex) entries = .ok last) :
    checkpoints.foldlM (reloadQueue queueIndex) entries = .ok last ∧ NormalQueue last ∧
      ∀ block xid, Queued last block xid ↔ Queued entries block xid ∨
        ∃ checkpoint ∈ checkpoints, checkpoint.xid = xid ∧
          checkpoint.Releases queueIndex block := by
  induction checkpoints generalizing entries with
  | nil =>
    obtain rfl := Except.ok.inj hrun
    exact ⟨rfl, hstart, fun block xid => by simp⟩
  | cons checkpoint checkpoints ih =>
    rw [List.foldlM_cons] at hrun ⊢
    cases hplan : planQueue queueIndex entries checkpoint with
    | error text =>
      rw [hplan] at hrun
      cases hrun
    | ok planned =>
      rw [hplan] at hrun
      obtain ⟨hfirst, hothers⟩ := List.pairwise_cons.mp hordered
      obtain ⟨hreload, hnormal, hle, hmeaning⟩ := reloadQueue_of_planQueue
        (fun entry hentry => hxid entry hentry checkpoint List.mem_cons_self)
        (hbound checkpoint List.mem_cons_self) hplan
      obtain ⟨hrest, hlast, hqueued⟩ := ih hnormal
        (fun entry hentry other hother => (hle entry hentry).trans (hfirst other hother)) hothers
        (fun other hother => hbound other (List.mem_cons_of_mem _ hother)) hrun
      rw [hreload]
      refine ⟨hrest, hlast, fun block xid => ?_⟩
      rw [hqueued, hmeaning, List.exists_mem_cons_iff, or_assoc]

/-- Two checkpoints release neighbours of the queue. -/
theorem reloads_keep_queue_sample :
    [QueueCheckpoint.mk 8 [⟨1, 105, 2⟩, ⟨0, 7, 1⟩], ⟨9, [⟨1, 40, 1⟩]⟩].foldlM (reloadQueue 1)
        [⟨8, 102, 3⟩] = .ok [⟨8, 102, 5⟩, ⟨9, 40, 1⟩] := by
  have hstart : NormalQueue [⟨8, 102, 3⟩] :=
    ⟨fun entry hentry => by
      rw [List.mem_singleton.mp hentry]
      exact ⟨by decide, by decide, by decide, by decide⟩,
      List.pairwise_singleton _ _, List.pairwise_singleton _ _, by decide⟩
  exact (reloads_keep_queue hstart (by decide) (by decide) (by decide) rfl).1

end Run

end Spaceman
end ApfsAccess
