import ApfsAccess.Extents.PayloadGraph

/-!
# Carrying the reference tree along

When the file extents of a volume change, `BuildRetainedPhysicalExtentRecords`
rebuilds its reference tree from the old one: it collects what happens at each
block (mappings removed, references added by clones, the owners before and after)
as events, sweeps over every old physical extent and cuts it where an event falls,
and writes each piece back with its new reference count, or releases it when no
reference is left.

* `levelAt_retainedEvents` : what the sweep has counted at a block.
* `retainExtent_ok`, `retainExtents_ok` : one extent, and all of them.
* `retained_exact` : **the retained records and the releases partition the blocks
  of the old extents, and the new reference counts are the numbers of requested
  mappings.**
-/

namespace ApfsAccess
namespace Extents

open Format ByteBuffer Sweep

/-- `AppleSpacemanReleaseRequest`. -/
structure AppleSpacemanReleaseRequest where
  physicalBlock : ℕ
  blockCount : ℕ
  deriving DecidableEq, Repr

/-- The range of blocks of a release. -/
def AppleSpacemanReleaseRequest.Covers (release : AppleSpacemanReleaseRequest) (block : ℕ) : Prop :=
  release.physicalBlock ≤ block ∧ block < release.physicalBlock + release.blockCount

instance (release : AppleSpacemanReleaseRequest) (block : ℕ) : Decidable (release.Covers block) :=
  inferInstanceAs (Decidable (_ ∧ _))

theorem AppleSpacemanReleaseRequest.covers_iff {release : AppleSpacemanReleaseRequest} {block : ℕ} :
    release.Covers block ↔
      release.physicalBlock ≤ block ∧ block < release.physicalBlock + release.blockCount :=
  Iff.rfl

/-! ## Events -/

/-- `Event`: what changes at a block. -/
structure ReferenceEvent where
  removed : ℤ := 0
  affected : ℤ := 0
  owners : List (ℕ × ℤ) := []
  originalOwners : List (ℕ × ℤ) := []
  deriving DecidableEq, Repr

/-- Two changes at one block. -/
def ReferenceEvent.add (event change : ReferenceEvent) : ReferenceEvent :=
  { removed := event.removed + change.removed
    affected := event.affected + change.affected
    owners := event.owners ++ change.owners
    originalOwners := event.originalOwners ++ change.originalOwners }

/-- The change in the number of requested references. -/
def ReferenceEvent.ownerDelta (event : ReferenceEvent) : ℤ := (event.owners.map Prod.snd).sum

/-- Enter a use: its change at the first block, and the opposite one at its end. -/
def addUse (change : FileExtentUse → ℤ → ReferenceEvent) (events : List (ℕ × ReferenceEvent))
    (use : FileExtentUse) : List (ℕ × ReferenceEvent) :=
  if use.extent.physicalBlock = 0 then events
  else
    insertWith {} (fun event => event.add (change use (-1))) use.extentEnd
      (insertWith {} (fun event => event.add (change use 1)) use.extent.physicalBlock events)

/-- The change of a removed use. -/
def removedChange (use : FileExtentUse) (sign : ℤ) : ReferenceEvent :=
  { removed := sign, affected := sign, originalOwners := [(use.physicalOwnerId, sign)] }

/-- The change of a requested use; a reference that a clone adds was no owner
before. -/
def requestedChange (cloneStreams : List (ℕ × ℕ)) (cloneRange : Option AppleCloneRangeMapping)
    (use : FileExtentUse) (sign : ℤ) : ReferenceEvent :=
  if isCloneReference cloneStreams cloneRange use.extent then
    { removed := -sign, affected := sign, owners := [(use.physicalOwnerId, sign)] }
  else
    { owners := [(use.physicalOwnerId, sign)], originalOwners := [(use.physicalOwnerId, sign)] }

/-- `events`. -/
def retainedEvents (cloneStreams : List (ℕ × ℕ)) (cloneRange : Option AppleCloneRangeMapping)
    (removed requested : List FileExtentUse) : List (ℕ × ReferenceEvent) :=
  requested.foldl (addUse (requestedChange cloneStreams cloneRange))
    (removed.foldl (addUse removedChange) [])

/-! ## The sweep -/

/-- `count += delta; if (!count) owners.erase(owner)`. -/
def addOwner (counts : List (ℕ × ℤ)) (change : ℕ × ℤ) : List (ℕ × ℤ) :=
  (insertWith 0 (· + change.2) change.1 counts).filter fun entry =>
    !(entry.1 == change.1 && entry.2 == 0)

/-- The counters of the sweep. -/
structure RetainState where
  removed : ℤ := 0
  affected : ℤ := 0
  ownerCount : ℤ := 0
  owners : List (ℕ × ℤ) := []
  originalOwners : List (ℕ × ℤ) := []
  deriving DecidableEq, Repr

/-- One round of `advance`. -/
def RetainState.absorb (state : RetainState) (event : ReferenceEvent) : RetainState :=
  { removed := state.removed + event.removed
    affected := state.affected + event.affected
    ownerCount := state.ownerCount + event.ownerDelta
    owners := event.owners.foldl addOwner state.owners
    originalOwners := event.originalOwners.foldl addOwner state.originalOwners }

/-- `out_records` and `out_releases`. -/
structure RetainedExtents where
  records : List BtreeRecord := []
  releases : List AppleSpacemanReleaseRequest := []
  deriving DecidableEq, Repr

/-- The owner of a fragment whose references change: the old owner if it keeps a
reference, else the smallest owner that has one. -/
def fragmentOwner (state : RetainState) (owner : ℕ) (nextCount : ℤ) : Except String ℕ :=
  if state.affected = 0 then
    .ok owner
  else if !(state.originalOwners.any fun entry => entry.1 == owner) then
    .error "AppleVolumePhysicalExtentOwnerUnproven"
  else if state.originalOwners.any fun entry => entry.2 != 1 then
    .error "AppleVolumePhysicalSelfReferenceUnsupported"
  else if state.ownerCount ≠ nextCount then
    .error "AppleVolumePhysicalExtentRefcountMismatch"
  else if state.owners.any fun entry => entry.2 != 1 then
    .error "AppleVolumePhysicalSelfReferenceUnsupported"
  else if nextCount ≠ 0 ∧ !(state.owners.any fun entry => entry.1 == owner) then
    .ok ((state.owners.head?.map Prod.fst).getD owner)
  else
    .ok owner

/-- A release, joined to the last one when it follows it. -/
def addRelease (releases : List AppleSpacemanReleaseRequest) (block count : ℕ) :
    List AppleSpacemanReleaseRequest :=
  match releases.getLast? with
  | none => [⟨block, count⟩]
  | some last =>
    if last.physicalBlock + last.blockCount = block then
      releases.dropLast ++ [⟨last.physicalBlock, last.blockCount + count⟩]
    else releases ++ [⟨block, count⟩]

/-- One fragment of a physical extent. -/
def retainFragment (extent : ApplePhysicalExtentRecord) (state : RetainState)
    (cursor finish : ℕ) (out : RetainedExtents) : Except String RetainedExtents :=
  let nextCount := extent.referenceCount - state.removed
  if nextCount < 0 ∨ 2 ^ 31 - 1 < nextCount then
    .error "AppleVolumePhysicalExtentReferenceUnderflow"
  else
    match fragmentOwner state extent.owningObjectId nextCount with
    | .error reason => .error reason
    | .ok owner =>
      if nextCount = 0 then
        .ok { out with releases := addRelease out.releases cursor (finish - cursor) }
      else
        match encodeApplePhysicalExtentRecord
            { extent with
              physicalBlock := cursor
              blockCount := finish - cursor
              referenceCount := nextCount
              owningObjectId := owner } with
        | .error reason => .error reason
        | .ok record => .ok { out with records := out.records ++ [record] }

/-- The loop over the fragments of one physical extent.  An event at or before the
cursor is absorbed; the first one past it ends the fragment. -/
def retainExtent (extent : ApplePhysicalExtentRecord) :
    List (ℕ × ReferenceEvent) → ℕ → RetainState → RetainedExtents →
      Except String (List (ℕ × ReferenceEvent) × RetainState × RetainedExtents)
  | [], cursor, state, out =>
    if cursor < extent.extentEnd then
      (retainFragment extent state cursor extent.extentEnd out).map fun out => ([], state, out)
    else .ok ([], state, out)
  | event :: rest, cursor, state, out =>
    if cursor < extent.extentEnd then
      if event.1 ≤ cursor then
        retainExtent extent rest cursor (state.absorb event.2) out
      else if event.1 < extent.extentEnd then
        match retainFragment extent state cursor event.1 out with
        | .error reason => .error reason
        | .ok out => retainExtent extent rest event.1 (state.absorb event.2) out
      else
        (retainFragment extent state cursor extent.extentEnd out).map fun out =>
          (event :: rest, state, out)
    else .ok (event :: rest, state, out)

/-- The loop over the physical extents. -/
def retainExtents : List ApplePhysicalExtentRecord → List (ℕ × ReferenceEvent) → RetainState →
    RetainedExtents → Except String RetainedExtents
  | [], _, _, out => .ok out
  | extent :: rest, events, state, out =>
    match retainExtent extent events extent.physicalBlock state out with
    | .error reason => .error reason
    | .ok (events, state, out) => retainExtents rest events state out

/-- `BuildRetainedPhysicalExtentRecords`. -/
def buildRetainedPhysicalExtentRecords (extents : List ApplePhysicalExtentRecord)
    (removed : List FileExtentUse) (requestedRecords : List BtreeRecord) (blockSize : ℕ)
    (cloneStreams : List (ℕ × ℕ)) (cloneRange : Option AppleCloneRangeMapping) :
    Except String RetainedExtents :=
  match collectExternalStreamOwners requestedRecords with
  | .error reason => .error reason
  | .ok owners =>
    match decodeFileExtentUses requestedRecords blockSize owners with
    | none => .error "AppleVolumeFileExtentRecordInvalid"
    | some requested =>
      retainExtents extents (retainedEvents cloneStreams cloneRange removed requested) {} {}

/-! ## What the events add up to -/

@[simp] theorem ReferenceEvent.removed_add (event change : ReferenceEvent) :
    (event.add change).removed = event.removed + change.removed := rfl

@[simp] theorem ReferenceEvent.affected_add (event change : ReferenceEvent) :
    (event.add change).affected = event.affected + change.affected := rfl

@[simp] theorem ReferenceEvent.ownerDelta_add (event change : ReferenceEvent) :
    (event.add change).ownerDelta = event.ownerDelta + change.ownerDelta := by
  unfold ReferenceEvent.ownerDelta ReferenceEvent.add
  rw [List.map_append, List.sum_append]

section Levels

variable {measure : ReferenceEvent → ℤ} (hzero : measure {} = 0)
  (hadd : ∀ event change, measure (event.add change) = measure event + measure change)
  {change : FileExtentUse → ℤ → ReferenceEvent}
  (hsign : ∀ use, measure (change use (-1)) = -measure (change use 1))

include hzero hadd hsign

/-- A use that is entered changes the level at the blocks it maps. -/
theorem levelAt_addUse (events : List (ℕ × ReferenceEvent)) (use : FileExtentUse) (block : ℕ) :
    levelAt measure (addUse change events use) block =
      levelAt measure events block + if use.Maps block then measure (change use 1) else 0 := by
  unfold addUse
  by_cases hhole : use.extent.physicalBlock = 0
  · rw [if_pos hhole, if_neg fun h : use.Maps block => h.1 hhole, add_zero]
  · have hmaps : use.Maps block ↔ use.extent.physicalBlock ≤ block ∧ block < use.extentEnd :=
      ⟨fun h => h.2, fun h => ⟨hhole, h⟩⟩
    have hle : use.extent.physicalBlock ≤ use.extentEnd := Nat.le_add_right _ _
    rw [if_neg hhole, levelAt_insertWith hzero fun event => hadd event (change use (-1)),
      levelAt_insertWith hzero fun event => hadd event (change use 1), hsign,
      if_congr hmaps rfl rfl]
    split_ifs <;> omega

theorem levelAt_foldl_addUse (events : List (ℕ × ReferenceEvent)) (uses : List FileExtentUse)
    (block : ℕ) :
    levelAt measure (uses.foldl (addUse change) events) block =
      levelAt measure events block +
        (uses.map fun use => if use.Maps block then measure (change use 1) else 0).sum := by
  induction uses generalizing events with
  | nil => simp
  | cons use rest ih =>
    rw [List.foldl_cons, ih, levelAt_addUse hzero hadd hsign, List.map_cons, List.sum_cons]
    ring

end Levels

theorem pairwise_addUse {change : FileExtentUse → ℤ → ReferenceEvent}
    {events : List (ℕ × ReferenceEvent)} (h : events.Pairwise fun left right => left.1 < right.1)
    (use : FileExtentUse) :
    (addUse change events use).Pairwise fun left right => left.1 < right.1 := by
  unfold addUse
  split
  · exact h
  · exact pairwise_insertWith (pairwise_insertWith h)

theorem pairwise_foldl_addUse {change : FileExtentUse → ℤ → ReferenceEvent}
    {events : List (ℕ × ReferenceEvent)} (h : events.Pairwise fun left right => left.1 < right.1)
    (uses : List FileExtentUse) :
    (uses.foldl (addUse change) events).Pairwise fun left right => left.1 < right.1 := by
  induction uses generalizing events with
  | nil => exact h
  | cons use rest ih => exact ih (pairwise_addUse h use)

theorem pairwise_retainedEvents (cloneStreams : List (ℕ × ℕ))
    (cloneRange : Option AppleCloneRangeMapping) (removed requested : List FileExtentUse) :
    (retainedEvents cloneStreams cloneRange removed requested).Pairwise
      fun left right => left.1 < right.1 :=
  pairwise_foldl_addUse (pairwise_foldl_addUse List.Pairwise.nil removed) requested

theorem sum_map_ite_eq_countP {α : Type*} (p : α → Prop) [DecidablePred p] (c : ℤ) (xs : List α) :
    (xs.map fun x => if p x then c else 0).sum = c * (xs.countP fun x => p x : ℕ) := by
  induction xs with
  | nil => simp
  | cons x xs ih =>
    rw [List.map_cons, List.sum_cons, ih, List.countP_cons]
    by_cases hp : p x
    · simp only [hp, if_true, decide_true]
      push_cast
      ring
    · simp [hp]

/-- The number of requested mappings of a block that clones add. -/
def cloneCount (cloneStreams : List (ℕ × ℕ)) (cloneRange : Option AppleCloneRangeMapping)
    (requested : List FileExtentUse) (block : ℕ) : ℕ :=
  requested.countP fun use =>
    use.Maps block ∧ isCloneReference cloneStreams cloneRange use.extent = true

/-- **What the sweep has counted at a block**: the removed mappings less the clones'
references, the two together, and the requested mappings. -/
theorem levelAt_retainedEvents (cloneStreams : List (ℕ × ℕ))
    (cloneRange : Option AppleCloneRangeMapping) (removed requested : List FileExtentUse)
    (block : ℕ) :
    levelAt ReferenceEvent.removed (retainedEvents cloneStreams cloneRange removed requested)
        block =
      (removed.countP fun use => use.Maps block : ℕ) -
        cloneCount cloneStreams cloneRange requested block ∧
    levelAt ReferenceEvent.affected (retainedEvents cloneStreams cloneRange removed requested)
        block =
      (removed.countP fun use => use.Maps block : ℕ) +
        cloneCount cloneStreams cloneRange requested block ∧
    levelAt ReferenceEvent.ownerDelta (retainedEvents cloneStreams cloneRange removed requested)
        block = (requested.countP fun use => use.Maps block : ℕ) := by
  have hsplit : ∀ (c : ℤ) (use : FileExtentUse),
      (if use.Maps block then
        if isCloneReference cloneStreams cloneRange use.extent = true then c else 0 else 0) =
      if use.Maps block ∧ isCloneReference cloneStreams cloneRange use.extent = true then c
        else 0 := by
    intro c use
    rw [ite_and]
  unfold retainedEvents cloneCount
  refine ⟨?_, ?_, ?_⟩
  · rw [levelAt_foldl_addUse rfl ReferenceEvent.removed_add
        (fun use => by unfold requestedChange; split <;> simp),
      levelAt_foldl_addUse rfl ReferenceEvent.removed_add (fun use => rfl)]
    simp only [removedChange, requestedChange, apply_ite ReferenceEvent.removed, hsplit,
      sum_map_ite_eq_countP, levelAt_nil]
    ring
  · rw [levelAt_foldl_addUse rfl ReferenceEvent.affected_add
        (fun use => by unfold requestedChange; split <;> simp),
      levelAt_foldl_addUse rfl ReferenceEvent.affected_add (fun use => rfl)]
    simp only [removedChange, requestedChange, apply_ite ReferenceEvent.affected, hsplit,
      sum_map_ite_eq_countP, levelAt_nil]
    ring
  · rw [levelAt_foldl_addUse rfl ReferenceEvent.ownerDelta_add
        (fun use => by unfold requestedChange ReferenceEvent.ownerDelta; split <;> simp),
      levelAt_foldl_addUse rfl ReferenceEvent.ownerDelta_add (fun use => rfl)]
    simp only [removedChange, requestedChange, ReferenceEvent.ownerDelta,
      apply_ite ReferenceEvent.owners, ite_self, sum_map_ite_eq_countP, levelAt_nil,
      List.map_nil, List.map_cons, List.sum_cons, List.sum_nil, List.map_const', List.sum_replicate,
      smul_zero]
    ring

/-! ## One fragment -/

section Sweep

/-- What is known of the output so far: every block in range has been put into a
record or a release `done` times, with the number of requested mappings `wanted` as
its reference count. -/
structure RetainedExtents.Exact (wanted : ℕ → ℕ) (done : ℕ → ℕ) (out : RetainedExtents) : Prop where
  records : ∃ retained, PhysicalExtentsDecode out.records retained ∧
    (∀ block, (retained.countP fun extent => extent.Covers block) +
      (out.releases.countP fun release => release.Covers block) = done block) ∧
    ∀ extent ∈ retained, ∀ block, extent.Covers block →
      extent.referenceCount = wanted block ∧ wanted block ≠ 0
  releases : ∀ release ∈ out.releases, ∀ block, release.Covers block → wanted block = 0

variable {wanted : ℕ → ℕ}

/-- A release adds its blocks and nothing else. -/
theorem countP_addRelease (releases : List AppleSpacemanReleaseRequest) (start count block : ℕ) :
    ((addRelease releases start count).countP fun release => release.Covers block) =
      (releases.countP fun release => release.Covers block) +
        if start ≤ block ∧ block < start + count then 1 else 0 := by
  unfold addRelease
  cases hlast : releases.getLast? with
  | none =>
    rw [List.getLast?_eq_none_iff] at hlast
    subst hlast
    simp only [List.countP_singleton, List.countP_nil, zero_add,
      AppleSpacemanReleaseRequest.covers_iff, decide_eq_true_eq]
  | some last =>
    obtain ⟨front, rfl⟩ := List.getLast?_eq_some_iff.mp hlast
    simp only [List.dropLast_concat]
    by_cases htouch : last.physicalBlock + last.blockCount = start
    · rw [if_pos htouch, List.countP_append, List.countP_append, List.countP_singleton,
        List.countP_singleton]
      simp only [AppleSpacemanReleaseRequest.covers_iff, decide_eq_true_eq]
      split_ifs <;> omega
    · rw [if_neg htouch, List.countP_append, List.countP_singleton]
      simp only [AppleSpacemanReleaseRequest.covers_iff, decide_eq_true_eq]

theorem covers_of_mem_addRelease {releases : List AppleSpacemanReleaseRequest} {start count : ℕ}
    {release : AppleSpacemanReleaseRequest} (h : release ∈ addRelease releases start count)
    {block : ℕ} (hcovers : release.Covers block) :
    (∃ other ∈ releases, other.Covers block) ∨ start ≤ block ∧ block < start + count := by
  have hpositive : 0 < (addRelease releases start count).countP fun other => other.Covers block :=
    List.countP_pos_iff.mpr ⟨release, h, decide_eq_true hcovers⟩
  rw [countP_addRelease] at hpositive
  by_cases hnew : start ≤ block ∧ block < start + count
  · exact .inr hnew
  · rw [if_neg hnew, add_zero] at hpositive
    obtain ⟨other, hother, hcovers⟩ := List.countP_pos_iff.mp hpositive
    exact .inl ⟨other, hother, of_decide_eq_true hcovers⟩

/-- A fragment whose references change carries the number of its requested owners. -/
theorem fragmentOwner_ok {state : RetainState} {owner owner' : ℕ} {nextCount : ℤ}
    (h : fragmentOwner state owner nextCount = .ok owner') :
    state.affected = 0 ∨ state.ownerCount = nextCount := by
  unfold fragmentOwner at h
  split at h
  · exact .inl ‹_›
  · split at h
    · cases h
    · split at h
      · cases h
      · split at h
        · cases h
        · rename_i hcount
          exact .inr (not_not.mp hcount)

/-- **One fragment is recorded with its number of requested mappings, or released
when there are none.** -/
theorem retainFragment_ok {extent : ApplePhysicalExtentRecord} {state : RetainState}
    {cursor finish : ℕ} {out out' : RetainedExtents} {done : ℕ → ℕ}
    (hinv : out.Exact wanted done) (hle : cursor ≤ finish)
    (hwanted : ∀ block, cursor ≤ block → block < finish →
      (state.affected = 0 → extent.referenceCount - state.removed = wanted block) ∧
        state.ownerCount = wanted block)
    (h : retainFragment extent state cursor finish out = .ok out') :
    out'.Exact wanted
      fun block => done block + if cursor ≤ block ∧ block < finish then 1 else 0 := by
  unfold retainFragment at h
  simp only at h
  split at h
  · cases h
  · rename_i hrange
    split at h
    · cases h
    · rename_i owner howner
      have hcount : ∀ block, cursor ≤ block → block < finish →
          extent.referenceCount - state.removed = wanted block := by
        intro block hfrom hto
        obtain ⟨hsame, howners⟩ := hwanted block hfrom hto
        rcases fragmentOwner_ok howner with hzero | hnext
        · exact hsame hzero
        · exact hnext.symm.trans howners
      obtain ⟨retained, hdecode, hdone, hretained⟩ := hinv.records
      have hend : cursor + (finish - cursor) = finish := by omega
      split at h
      · rename_i hzero
        obtain rfl := Except.ok.inj h
        constructor
        · refine ⟨retained, hdecode, fun block => ?_, hretained⟩
          rw [countP_addRelease, hend, ← add_assoc, hdone]
        · intro release hrelease block hcovers
          rcases covers_of_mem_addRelease hrelease hcovers with ⟨other, hother, hcovers⟩ | hnew
          · exact hinv.releases other hother block hcovers
          · rw [hend] at hnew
            have := hcount block hnew.1 hnew.2
            rw [hzero] at this
            exact_mod_cast this.symm
      · rename_i hnonzero
        split at h
        · cases h
        · rename_i record hencode
          obtain rfl := Except.ok.inj h
          have hint : IsInt32 (extent.referenceCount - state.removed) := by
            unfold IsInt32
            omega
          have hround := decode_encodeApplePhysicalExtentRecord hencode hint
          refine ⟨⟨retained ++ [_], List.rel_append hdecode (List.Forall₂.cons hround
            List.Forall₂.nil), fun block => ?_, fun piece hpiece block hcovers => ?_⟩,
            hinv.releases⟩
          · rw [List.countP_append, List.countP_singleton, ← hdone block]
            simp only [ApplePhysicalExtentRecord.covers_iff, hend, decide_eq_true_eq]
            omega
          · rcases List.mem_append.mp hpiece with hpiece | hpiece
            · exact hretained piece hpiece block hcovers
            · obtain rfl := List.mem_singleton.mp hpiece
              simp only [ApplePhysicalExtentRecord.covers_iff, hend] at hcovers
              have hblock := hcount block hcovers.1 hcovers.2
              refine ⟨hblock, fun hzero => hnonzero ?_⟩
              rw [hblock, hzero, Nat.cast_zero]

/-! ## The whole sweep -/

/-- The levels the sweep has to reach. -/
structure RetainLevels where
  removed : ℕ → ℤ
  affected : ℕ → ℤ
  ownerCount : ℕ → ℤ

/-- From the cursor on, the counters and the events that are left make up the
levels. -/
structure RetainState.Carries (levels : RetainLevels) (state : RetainState)
    (events : List (ℕ × ReferenceEvent)) (cursor : ℕ) : Prop where
  sorted : events.Pairwise fun left right => left.1 < right.1
  removed : ∀ block, cursor ≤ block →
    state.removed + levelAt ReferenceEvent.removed events block = levels.removed block
  affected : ∀ block, cursor ≤ block →
    state.affected + levelAt ReferenceEvent.affected events block = levels.affected block
  ownerCount : ∀ block, cursor ≤ block →
    state.ownerCount + levelAt ReferenceEvent.ownerDelta events block = levels.ownerCount block

variable {levels : RetainLevels}

theorem RetainState.Carries.mono {state : RetainState} {events : List (ℕ × ReferenceEvent)}
    {cursor later : ℕ} (h : state.Carries levels events cursor) (hle : cursor ≤ later) :
    state.Carries levels events later :=
  ⟨h.sorted, fun block hblock => h.removed block (hle.trans hblock),
    fun block hblock => h.affected block (hle.trans hblock),
    fun block hblock => h.ownerCount block (hle.trans hblock)⟩

/-- An event at or before the cursor may be absorbed. -/
theorem RetainState.Carries.absorb {state : RetainState} {event : ℕ × ReferenceEvent}
    {rest : List (ℕ × ReferenceEvent)} {cursor : ℕ}
    (h : state.Carries levels (event :: rest) cursor) (hle : event.1 ≤ cursor) :
    (state.absorb event.2).Carries levels rest cursor := by
  refine ⟨h.sorted.of_cons, fun block hblock => ?_, fun block hblock => ?_, fun block hblock => ?_⟩
  · rw [← h.removed block hblock, levelAt_cons, if_pos (hle.trans hblock)]
    exact add_assoc _ _ _
  · rw [← h.affected block hblock, levelAt_cons, if_pos (hle.trans hblock)]
    exact add_assoc _ _ _
  · rw [← h.ownerCount block hblock, levelAt_cons, if_pos (hle.trans hblock)]
    exact add_assoc _ _ _

/-- Before the next event the counters are the levels. -/
theorem RetainState.Carries.eq_levels {state : RetainState} {events : List (ℕ × ReferenceEvent)}
    {cursor block : ℕ} (h : state.Carries levels events cursor) (hle : cursor ≤ block)
    (hbefore : ∀ event ∈ events, block < event.1) :
    state.removed = levels.removed block ∧ state.affected = levels.affected block ∧
      state.ownerCount = levels.ownerCount block := by
  refine ⟨?_, ?_, ?_⟩
  · rw [← h.removed block hle, levelAt_eq_zero hbefore, add_zero]
  · rw [← h.affected block hle, levelAt_eq_zero hbefore, add_zero]
  · rw [← h.ownerCount block hle, levelAt_eq_zero hbefore, add_zero]

/-- The levels account for the references of an extent. -/
def RetainLevels.Account (levels : RetainLevels) (wanted : ℕ → ℕ)
    (extent : ApplePhysicalExtentRecord) : Prop :=
  ∀ block, extent.Covers block →
    (levels.affected block = 0 → extent.referenceCount - levels.removed block = wanted block) ∧
      levels.ownerCount block = wanted block

/-- A fragment before the next event. -/
theorem retainFragment_carries {extent : ApplePhysicalExtentRecord}
    (haccount : levels.Account wanted extent) {state : RetainState}
    {events : List (ℕ × ReferenceEvent)} {cursor finish : ℕ} {out out' : RetainedExtents}
    {done : ℕ → ℕ} (hcarries : state.Carries levels events cursor) (hinv : out.Exact wanted done)
    (hstart : extent.physicalBlock ≤ cursor) (hle : cursor ≤ finish)
    (hend : finish ≤ extent.extentEnd) (hbefore : ∀ event ∈ events, finish ≤ event.1)
    (h : retainFragment extent state cursor finish out = .ok out') :
    out'.Exact wanted
      fun block => done block + if cursor ≤ block ∧ block < finish then 1 else 0 := by
  refine retainFragment_ok hinv hle (fun block hfrom hto => ?_) h
  obtain ⟨hremoved, haffected, howners⟩ := hcarries.eq_levels hfrom fun event hevent =>
    hto.trans_le (hbefore event hevent)
  rw [hremoved, haffected, howners]
  exact haccount block ⟨hstart.trans hfrom, hto.trans_le hend⟩

/-- **One extent**: from the cursor to its end every block is put out once. -/
theorem retainExtent_ok {extent : ApplePhysicalExtentRecord}
    (haccount : levels.Account wanted extent) {events : List (ℕ × ReferenceEvent)} {cursor : ℕ}
    {state state' : RetainState} {events' : List (ℕ × ReferenceEvent)}
    {out out' : RetainedExtents} {done : ℕ → ℕ}
    (hcarries : state.Carries levels events cursor) (hinv : out.Exact wanted done)
    (hstart : extent.physicalBlock ≤ cursor) (hcursor : cursor ≤ extent.extentEnd)
    (h : retainExtent extent events cursor state out = .ok (events', state', out')) :
    state'.Carries levels events' extent.extentEnd ∧
      out'.Exact wanted fun block =>
        done block + if cursor ≤ block ∧ block < extent.extentEnd then 1 else 0 := by
  have hfinished : ¬ cursor < extent.extentEnd → out.Exact wanted fun block =>
      done block + if cursor ≤ block ∧ block < extent.extentEnd then 1 else 0 := by
    intro hnot
    have hempty : (fun block => done block +
        if cursor ≤ block ∧ block < extent.extentEnd then 1 else 0) = done := by
      funext block
      rw [if_neg (by omega), add_zero]
    rwa [hempty]
  induction events generalizing cursor state out done with
  | nil =>
    rw [retainExtent] at h
    split at h
    · obtain ⟨next, hnext, heq⟩ := map_eq_ok_iff.mp h
      obtain ⟨rfl, rfl, rfl⟩ : [] = events' ∧ state = state' ∧ next = out' := by simpa using heq
      exact ⟨hcarries.mono hcursor, retainFragment_carries haccount hcarries hinv hstart hcursor
        (le_refl _) (by simp) hnext⟩
    · rename_i hnot
      obtain ⟨rfl, rfl, rfl⟩ : [] = events' ∧ state = state' ∧ out = out' := by
        simpa using Except.ok.inj h
      exact ⟨hcarries.mono hcursor, hfinished hnot⟩
  | cons event rest ih =>
    rw [retainExtent] at h
    split at h
    · split at h
      · exact ih (hcarries.absorb ‹_›) hinv hstart hcursor h hfinished
      · rename_i hpast
        have hafter : ∀ other ∈ event :: rest, event.1 ≤ other.1 := by
          intro other hother
          rcases List.mem_cons.mp hother with rfl | hother
          · exact le_refl _
          · exact (List.rel_of_pairwise_cons hcarries.sorted hother).le
        split at h
        · rename_i hinside
          split at h
          · cases h
          · rename_i next hnext
            have hfirst := retainFragment_carries haccount hcarries hinv hstart
              (not_le.mp hpast).le hinside.le hafter hnext
            obtain ⟨hstate, hout⟩ := ih
              ((hcarries.mono (not_le.mp hpast).le).absorb (le_refl _)) hfirst
              (hstart.trans (not_le.mp hpast).le) hinside.le h fun hnot => absurd hinside hnot
            refine ⟨hstate, ?_⟩
            have hsum : (fun block => done block +
                (if cursor ≤ block ∧ block < event.1 then 1 else 0) +
                if event.1 ≤ block ∧ block < extent.extentEnd then 1 else 0) =
                fun block => done block +
                  if cursor ≤ block ∧ block < extent.extentEnd then 1 else 0 := by
              funext block
              split_ifs <;> omega
            rwa [hsum] at hout
        · rename_i hbeyond
          obtain ⟨next, hnext, heq⟩ := map_eq_ok_iff.mp h
          obtain ⟨rfl, rfl, rfl⟩ : event :: rest = events' ∧ state = state' ∧ next = out' := by
            simpa using heq
          exact ⟨hcarries.mono hcursor, retainFragment_carries haccount hcarries hinv hstart
            hcursor (le_refl _) (fun other hother => (not_lt.mp hbeyond).trans (hafter other hother))
            hnext⟩
    · rename_i hnot
      obtain ⟨rfl, rfl, rfl⟩ : event :: rest = events' ∧ state = state' ∧ out = out' := by
        simpa using Except.ok.inj h
      exact ⟨hcarries.mono hcursor, hfinished hnot⟩

/-- **All extents**, in block order. -/
theorem retainExtents_ok {extents : List ApplePhysicalExtentRecord} (hsorted : BlockSorted extents)
    (haccount : ∀ extent ∈ extents, levels.Account wanted extent)
    {events : List (ℕ × ReferenceEvent)} {state : RetainState} {out out' : RetainedExtents}
    {done : ℕ → ℕ} {cursor : ℕ} (hcursor : ∀ extent ∈ extents, cursor ≤ extent.physicalBlock)
    (hcarries : state.Carries levels events cursor) (hinv : out.Exact wanted done)
    (h : retainExtents extents events state out = .ok out') :
    out'.Exact wanted fun block =>
      done block + extents.countP fun extent => extent.Covers block := by
  induction extents generalizing events state out done cursor with
  | nil =>
    obtain rfl := Except.ok.inj h
    exact hinv
  | cons extent rest ih =>
    obtain ⟨hbefore, hrest⟩ := List.pairwise_cons.mp hsorted
    rw [retainExtents] at h
    split at h
    · cases h
    · rename_i events' state' next hnext
      obtain ⟨hstate, hout⟩ := retainExtent_ok (haccount extent List.mem_cons_self)
        (hcarries.mono (hcursor extent List.mem_cons_self)) hinv (le_refl _) (Nat.le_add_right _ _)
        hnext
      have hall := ih hrest (fun other hother => haccount other (List.mem_cons_of_mem extent hother))
        hbefore hstate hout h
      have hsum : (fun block => done block +
          (if extent.physicalBlock ≤ block ∧ block < extent.extentEnd then 1 else 0) +
          rest.countP fun extent => extent.Covers block) =
          fun block => done block +
            (extent :: rest).countP fun extent => extent.Covers block := by
        funext block
        rw [List.countP_cons]
        simp only [ApplePhysicalExtentRecord.covers_iff, decide_eq_true_eq]
        unfold ApplePhysicalExtentRecord.extentEnd
        omega
      rwa [hsum] at hall

end Sweep

/-! ## The exactness of the update -/

/-- Disjoint extents cover a block at most once. -/
theorem countP_covers_eq_ite {extents : List ApplePhysicalExtentRecord}
    (h : extents.Pairwise PhysicallyDisjoint) (block : ℕ) :
    (extents.countP fun extent => extent.Covers block) =
      if ∃ extent ∈ extents, extent.Covers block then 1 else 0 := by
  induction extents with
  | nil => simp
  | cons first rest ih =>
    obtain ⟨hfirst, hrest⟩ := List.pairwise_cons.mp h
    rw [List.countP_cons, ih hrest]
    by_cases hcovers : first.Covers block
    · have hnone : ¬ ∃ extent ∈ rest, extent.Covers block := by
        rintro ⟨extent, hextent, hcovers'⟩
        have hdisjoint := hfirst extent hextent
        unfold PhysicallyDisjoint at hdisjoint
        have := hcovers.1
        have := hcovers.2
        have := hcovers'.1
        have := hcovers'.2
        omega
      simp [hcovers, hnone]
    · simp [hcovers]

/-- The levels of the events. -/
def retainLevels (events : List (ℕ × ReferenceEvent)) : RetainLevels where
  removed := levelAt ReferenceEvent.removed events
  affected := levelAt ReferenceEvent.affected events
  ownerCount := levelAt ReferenceEvent.ownerDelta events

/-- **The update of the reference tree is exact.** -/
theorem buildRetainedPhysicalExtentRecords_exact
    {filesystemRecords extentrefRecords requestedRecords : List BtreeRecord}
    {blockSize containerBlocks : ℕ} {cloneStreams : List (ℕ × ℕ)}
    {cloneRange : Option AppleCloneRangeMapping} {physical : List ApplePhysicalExtentRecord}
    {oldUses removed : List FileExtentUse} {out : RetainedExtents}
    (hgraph : validateApplePayloadExtentGraph filesystemRecords extentrefRecords blockSize
      containerBlocks = .ok physical)
    (hchanges : collectFileExtentChanges filesystemRecords requestedRecords blockSize cloneStreams
      false cloneRange = .ok (oldUses, removed))
    (hretained : buildRetainedPhysicalExtentRecords physical removed requestedRecords blockSize
      cloneStreams cloneRange = .ok out) :
    ∃ retained requested, PhysicalExtentsDecode out.records retained ∧
      FileExtentsDecode requestedRecords blockSize requested ∧
      (∀ block, (retained.countP fun extent => extent.Covers block) +
          (out.releases.countP fun release => release.Covers block) =
        if ∃ extent ∈ physical, extent.Covers block then 1 else 0) ∧
      (∀ block, (∃ release ∈ out.releases, release.Covers block) ↔
        (∃ use ∈ oldUses, use.Maps block) ∧ ¬ ∃ use ∈ requested, use.Maps block) ∧
      ∀ extent ∈ retained, ∀ block, extent.Covers block →
        extent.referenceCount = (requested.countP fun use => use.Maps block : ℕ) := by
  -- the two sides of the old graph
  unfold validateApplePayloadExtentGraph at hgraph
  obtain ⟨-, -, uses, extents, hkind, hmatches, rfl⟩ :=
    validateApplePayloadExtentGraphImpl_eq_ok_iff.mp hgraph
  have hmem := fun extent => (sortByBlock_perm extents).mem_iff (a := extent)
  have hpos : ∀ extent ∈ extents, 0 < extent.blockCount := fun extent hextent =>
    (hmatches.physicalExtents.valid extent hextent).1.count_pos
  have hsorted := (blockSorted_sortByBlock_iff hpos).mpr hmatches.disjoint
  obtain ⟨oldOwners, -, -, -, holdOwners, -, holdUses, -⟩ :=
    collectFileExtentChanges_eq_ok_iff.mp hchanges
  obtain rfl : uses = oldUses :=
    Option.some.inj (((fileExtentsDecode_iff holdOwners).mpr hmatches.fileExtents).symm.trans
      holdUses)
  -- the requested mappings
  obtain ⟨owners, requested, howners, hrequested, haccounting⟩ :=
    countP_requested_add_removed hchanges
  unfold buildRetainedPhysicalExtentRecords at hretained
  simp only [howners, hrequested] at hretained
  have hlevels := levelAt_retainedEvents cloneStreams cloneRange removed requested
  have haccount : ∀ extent ∈ sortByBlock extents,
      (retainLevels (retainedEvents cloneStreams cloneRange removed requested)).Account
        (fun block => requested.countP fun use => use.Maps block) extent := by
    intro extent hextent block hcovers
    obtain ⟨hremoved, haffected, hcount⟩ := hlevels block
    refine ⟨fun hzero => ?_, hcount⟩
    -- nothing was removed here and no clone adds a reference
    have hzero : ((removed.countP fun use => use.Maps block : ℕ) : ℤ) +
        cloneCount cloneStreams cloneRange requested block = 0 := haffected.symm.trans hzero
    have hclones : cloneCount cloneStreams cloneRange requested block = 0 := by omega
    have hsum := haccounting block fun use huse hmaps => by
      have hnot := List.countP_eq_zero.mp hclones use huse
      simpa [hmaps] using hnot
    have hreference := hmatches.counted extent ((hmem extent).mp hextent) block hcovers
    show extent.referenceCount - levelAt ReferenceEvent.removed _ block = _
    rw [hremoved]
    push_cast
    omega
  have hstart : RetainState.Carries
      (retainLevels (retainedEvents cloneStreams cloneRange removed requested)) {}
      (retainedEvents cloneStreams cloneRange removed requested) 0 :=
    ⟨pairwise_retainedEvents _ _ _ _, fun block _ => zero_add _, fun block _ => zero_add _,
      fun block _ => zero_add _⟩
  have hempty : RetainedExtents.Exact (fun block => requested.countP fun use => use.Maps block)
      (fun _ => 0) {} :=
    ⟨⟨[], List.Forall₂.nil, fun _ => rfl, by simp⟩, by simp⟩
  have hexact := retainExtents_ok hsorted haccount (fun _ _ => Nat.zero_le _) hstart hempty
    hretained
  obtain ⟨retained, hdecode, hdone, hcounts⟩ := hexact.records
  have hpartition : ∀ block, (retained.countP fun extent => extent.Covers block) +
      (out.releases.countP fun release => release.Covers block) =
        if ∃ extent ∈ sortByBlock extents, extent.Covers block then 1 else 0 := by
    intro block
    rw [hdone, zero_add]
    exact countP_covers_eq_ite (hsorted.imp fun hle => .inl hle) block
  refine ⟨retained, requested, hdecode, (fileExtentsDecode_iff howners).mp hrequested, hpartition,
    fun block => ⟨?_, ?_⟩, fun extent hextent block hcovers =>
      (hcounts extent hextent block hcovers).1⟩
  · rintro ⟨release, hrelease, hcovers⟩
    have hnone := hexact.releases release hrelease block hcovers
    constructor
    · -- a released block was covered, with a positive reference count
      have hpositive : 0 < out.releases.countP fun release => release.Covers block :=
        List.countP_pos_iff.mpr ⟨release, hrelease, decide_eq_true hcovers⟩
      have hblock := hpartition block
      by_cases hcovered : ∃ extent ∈ sortByBlock extents, extent.Covers block
      · obtain ⟨extent, hextent, hcovers⟩ := hcovered
        have hextent := (hmem extent).mp hextent
        have hreference := hmatches.counted extent hextent block hcovers
        have := (hmatches.physicalExtents.valid extent hextent).1.referenced
          (hkind extent hextent)
        have hcount : 0 < uses.countP fun use => use.Maps block := by omega
        obtain ⟨use, huse, hmaps⟩ := List.countP_pos_iff.mp hcount
        exact ⟨use, huse, of_decide_eq_true hmaps⟩
      · rw [if_neg hcovered] at hblock
        omega
    · rintro ⟨use, huse, hmaps⟩
      exact List.countP_eq_zero.mp hnone use huse (decide_eq_true hmaps)
  · rintro ⟨⟨use, huse, hmaps⟩, hunmapped⟩
    obtain ⟨extent, hextent, hcovers⟩ := hmatches.covered use huse block hmaps
    have hblock := hpartition block
    rw [if_pos ⟨extent, (hmem extent).mpr hextent, hcovers⟩] at hblock
    have hretainedNone : (retained.countP fun extent => extent.Covers block) = 0 := by
      rw [List.countP_eq_zero]
      intro piece hpiece hcovers
      refine (hcounts piece hpiece block (of_decide_eq_true hcovers)).2 ?_
      rw [List.countP_eq_zero]
      exact fun use huse hmaps => hunmapped ⟨use, huse, of_decide_eq_true hmaps⟩
    have hpositive : 0 < out.releases.countP fun release => release.Covers block := by omega
    obtain ⟨release, hrelease, hcovers⟩ := List.countP_pos_iff.mp hpositive
    exact ⟨release, hrelease, of_decide_eq_true hcovers⟩

/-- The use the record stands for. -/
def sampleUse (object block count : ℕ) : FileExtentUse :=
  ⟨⟨object, 0, count * 4096, block, 0, 4096⟩, some (sampleMapping object block count), object⟩

/-- Two streams share blocks 5 and 6 and a third has block 9; the first and the third
are removed, so the shared blocks change their owner and block 9 is released. -/
theorem buildRetainedPhysicalExtentRecords_exact_sample :
    ∃ retained requested,
      PhysicalExtentsDecode [sampleReference 5 2 17 1] retained ∧
      FileExtentsDecode [sampleMapping 17 5 2] 4096 requested ∧
      (∀ block, (retained.countP fun extent => extent.Covers block) +
          ([⟨9, 1⟩].countP fun release : AppleSpacemanReleaseRequest => release.Covers block) =
        if ∃ extent ∈ ([⟨5, 2, 1, 16, 2⟩, ⟨9, 1, 1, 18, 1⟩] : List ApplePhysicalExtentRecord),
          extent.Covers block then 1 else 0) ∧
      (∀ block, (∃ release ∈ ([⟨9, 1⟩] : List AppleSpacemanReleaseRequest),
          release.Covers block) ↔
        (∃ use ∈ [sampleUse 16 5 2, sampleUse 17 5 2, sampleUse 18 9 1], use.Maps block) ∧
          ¬ ∃ use ∈ requested, use.Maps block) ∧
      ∀ extent ∈ retained, ∀ block, extent.Covers block →
        extent.referenceCount = (requested.countP fun use => use.Maps block : ℕ) := by
  have hgraph : validateApplePayloadExtentGraph
      [sampleMapping 16 5 2, sampleMapping 17 5 2, sampleMapping 18 9 1]
      [sampleReference 5 2 16 2, sampleReference 9 1 18 1] 4096 100 =
        .ok [⟨5, 2, 1, 16, 2⟩, ⟨9, 1, 1, 18, 1⟩] := by decide +kernel
  have hchanges : collectFileExtentChanges
      [sampleMapping 16 5 2, sampleMapping 17 5 2, sampleMapping 18 9 1] [sampleMapping 17 5 2]
      4096 [] false none =
        .ok ([sampleUse 16 5 2, sampleUse 17 5 2, sampleUse 18 9 1],
          [sampleUse 16 5 2, sampleUse 18 9 1]) := by decide +kernel
  have hretained : buildRetainedPhysicalExtentRecords [⟨5, 2, 1, 16, 2⟩, ⟨9, 1, 1, 18, 1⟩]
      [sampleUse 16 5 2, sampleUse 18 9 1] [sampleMapping 17 5 2] 4096 [] none =
        .ok ⟨[sampleReference 5 2 17 1], [⟨9, 1⟩]⟩ := by decide +kernel
  exact buildRetainedPhysicalExtentRecords_exact hgraph hchanges hretained

end Extents
end ApfsAccess
