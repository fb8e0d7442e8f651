import ApfsAccess.Library.LinkedSlots
import ApfsAccess.Spaceman.View

/-!
# Rotating the bitmaps of the internal pool

Every bitmap of the internal pool is kept in one of many slots, so that a checkpoint can write the
next version without touching the last one.  The slots that hold no active bitmap form a list
through `bitmap_free_next`.  `RotateInternalPoolBitmap` takes the first slot of that list that is
not protected, moves the bitmap there and puts the slot the bitmap had at the end of the list.

* `FreeListWellFormed` : the list runs from head to tail through all slots that are not active.
* `rotateInternalPoolBitmap_moves`, `rotateInternalPoolBitmap_exhausted` : what a rotation does, and
  when it refuses.
* `rotations_wellFormed` : what every run of rotations keeps.
* `checkInternalPoolFreeList_iff` : the lists that the loader accepts are the well-formed ones.
* `rotations_reload` : the loader accepts the list after a run of rotations.
-/

namespace ApfsAccess
namespace Spaceman

open LinkedSlots

/-- `kInvalidBitmapIndex`. -/
def invalidBitmapIndex : ℕ := 0xFFFF

/-- `std::binary_search` on a list in order. -/
def binarySearch (sorted : List ℕ) (value : ℕ) : Bool :=
  (sorted.dropWhile (· < value)).head?.any fun found => !decide (value < found)

/-- The free list of a pool. -/
def InternalPoolView.chain (pool : InternalPoolView) : Chain :=
  ⟨pool.bitmapFreeHead, pool.bitmapFreeTail, pool.bitmapFreeNext⟩

/-- `RotateInternalPoolBitmap`.  The caller's index is that of a bitmap. -/
def rotateInternalPoolBitmap (pool : InternalPoolView) (bitmapIndex transactionXid : ℕ)
    (protectedBitmapIndices : List ℕ) : Except String (InternalPoolView × PlannedWrite) :=
  match pool.activeBitmaps[bitmapIndex]? with
  | none => .error "bitmap index out of range"
  | some bitmap =>
    match findFrom invalidBitmapIndex pool.bitmapBlockCount pool.bitmapFreeNext
        (fun index => !binarySearch protectedBitmapIndices index) 0 invalidBitmapIndex
        pool.bitmapFreeHead with
    | none => .error "AppleSpacemanBitmapRotationStateInvalid"
    | some (previousIndex, newIndex) =>
      if newIndex = invalidBitmapIndex then
        .error (if previousIndex = invalidBitmapIndex then "AppleSpacemanBitmapRotationExhausted"
          else "AppleSpacemanBitmapRetentionExhausted")
      else
        let oldIndex := bitmap.rotationIndex
        if pool.bitmapBlockCount ≤ oldIndex ∨ pool.bitmapFreeNext.length ≤ oldIndex ∨
            pool.bitmapFreeNext.getD oldIndex 0 ≠ invalidBitmapIndex then
          .error "AppleSpacemanBitmapRotationStateInvalid"
        else
          match (pool.chain.unlink invalidBitmapIndex previousIndex newIndex).append
              invalidBitmapIndex oldIndex with
          | none => .error "AppleSpacemanBitmapRotationStateInvalid"
          | some chain =>
            let moved := { bitmap with
              rotationIndex := newIndex
              physicalBlock := pool.bitmapBaseBlock + newIndex
              xid := transactionXid }
            .ok ({ pool with
              bitmapFreeHead := chain.head
              bitmapFreeTail := chain.tail
              bitmapFreeNext := chain.next
              activeBitmaps := pool.activeBitmaps.set bitmapIndex moved },
              ⟨.internalPoolBitmap, moved.physicalBlock, none, bitmap.bytes⟩)

/-- The slots that hold active bitmaps. -/
def InternalPoolView.activeSlots (pool : InternalPoolView) : List ℕ :=
  pool.activeBitmaps.map (·.rotationIndex)

/-- **A well-formed free list**: it runs from head to tail through the slots without an active
bitmap, each of them once. -/
structure FreeListWellFormed (pool : InternalPoolView) (slots : List ℕ) : Prop where
  length : pool.bitmapFreeNext.length = pool.bitmapBlockCount
  small : pool.bitmapBlockCount < invalidBitmapIndex
  represents : Represents invalidBitmapIndex pool.chain slots
  unlinked : ∀ slot ∈ pool.activeSlots, pool.bitmapFreeNext[slot]? = some invalidBitmapIndex
  nodup : (slots ++ pool.activeSlots).Nodup
  cover : ∀ slot, slot ∈ slots ++ pool.activeSlots ↔ slot < pool.bitmapBlockCount

/-! ## One rotation -/

theorem binarySearch_iff {sorted : List ℕ} {value : ℕ} (h : sorted.Pairwise (· ≤ ·)) :
    binarySearch sorted value = true ↔ value ∈ sorted := by
  induction sorted with
  | nil => simp [binarySearch]
  | cons first rest ih =>
    obtain ⟨hfirst, hrest⟩ := List.pairwise_cons.mp h
    by_cases hless : first < value
    · have hsame : binarySearch (first :: rest) value = binarySearch rest value := by
        rw [binarySearch, List.dropWhile_cons_of_pos (by simpa using hless)]
        rfl
      rw [hsame, ih hrest, List.mem_cons, or_iff_right (by omega)]
    · have hfound : binarySearch (first :: rest) value = !decide (value < first) := by
        rw [binarySearch, List.dropWhile_cons_of_neg (by simpa using hless)]
        rfl
      rw [hfound, Bool.not_eq_true', decide_eq_false_iff_not, List.mem_cons]
      constructor
      · intro hle
        exact Or.inl (by omega)
      · rintro (rfl | hmem)
        · exact lt_irrefl _
        · have := hfirst value hmem
          omega

/-- What a rotation does to the pool: the bitmap moves to `slot`, and the slot it leaves goes to
the end of the free list. -/
structure Moved (pool : InternalPoolView) (bitmapIndex transactionXid : ℕ)
    (bitmap : InternalPoolBitmapView) (front back : List ℕ) (slot : ℕ) (after : InternalPoolView) :
    Prop where
  wellFormed : FreeListWellFormed after (front ++ back ++ [bitmap.rotationIndex])
  activeBitmaps : after.activeBitmaps = pool.activeBitmaps.set bitmapIndex
    ⟨transactionXid, pool.bitmapBaseBlock + slot, slot, bitmap.bytes⟩
  blockCount : after.bitmapBlockCount = pool.bitmapBlockCount

section Rotation

variable {pool : InternalPoolView} {slots protectedBitmapIndices : List ℕ}
  {bitmapIndex transactionXid : ℕ} {bitmap : InternalPoolBitmapView}

theorem FreeListWellFormed.slot_lt (h : FreeListWellFormed pool slots) {slot : ℕ}
    (hslot : slot ∈ slots) : slot < pool.bitmapBlockCount :=
  (h.cover slot).mp (List.mem_append_left _ hslot)

theorem FreeListWellFormed.active_lt (h : FreeListWellFormed pool slots) {slot : ℕ}
    (hslot : slot ∈ pool.activeSlots) : slot < pool.bitmapBlockCount :=
  (h.cover slot).mp (List.mem_append_right _ hslot)

theorem rotationIndex_mem_activeSlots (h : pool.activeBitmaps[bitmapIndex]? = some bitmap) :
    bitmap.rotationIndex ∈ pool.activeSlots :=
  List.mem_map_of_mem (List.mem_of_getElem? h)

/-- The walk of a rotation ends at the first slot that is not protected. -/
theorem FreeListWellFormed.find (h : FreeListWellFormed pool slots)
    (hsorted : protectedBitmapIndices.Pairwise (· ≤ ·)) :
    findFrom invalidBitmapIndex pool.bitmapBlockCount pool.bitmapFreeNext
        (fun index => !binarySearch protectedBitmapIndices index) 0 invalidBitmapIndex
        pool.bitmapFreeHead =
      some ((slots.takeWhile (protectedBitmapIndices.contains ·)).getLast?.getD invalidBitmapIndex,
        (slots.dropWhile (protectedBitmapIndices.contains ·)).head?.getD invalidBitmapIndex) := by
  have hsame : (fun index => !!binarySearch protectedBitmapIndices index) =
      fun index => protectedBitmapIndices.contains index := by
    funext index
    rw [Bool.not_not, Bool.eq_iff_iff, binarySearch_iff hsorted, List.contains_iff_mem]
  have hfind := h.represents.findFrom (fun index => !binarySearch protectedBitmapIndices index)
    fun slot hslot => h.slot_lt hslot
  rw [hsame] at hfind
  exact hfind

/-- Replacing one bitmap. -/
theorem exists_set_eq (moved : InternalPoolBitmapView)
    (h : pool.activeBitmaps[bitmapIndex]? = some bitmap) :
    ∃ before after, pool.activeBitmaps = before ++ bitmap :: after ∧
      pool.activeBitmaps.set bitmapIndex moved = before ++ moved :: after := by
  obtain ⟨hindex, hget⟩ := List.getElem?_eq_some_iff.mp h
  refine ⟨pool.activeBitmaps.take bitmapIndex, pool.activeBitmaps.drop (bitmapIndex + 1), ?_, ?_⟩
  · conv_lhs => rw [← List.take_append_drop bitmapIndex pool.activeBitmaps,
      List.drop_eq_getElem_cons hindex, hget]
  · rw [List.set_eq_take_append_cons_drop, if_pos hindex]

/-- The free slot and the old one change places. -/
theorem slots_perm (front back before after : List ℕ) (slot old : ℕ) :
    (front ++ back ++ [old] ++ (before ++ slot :: after)).Perm
      (front ++ slot :: back ++ (before ++ old :: after)) := by
  rw [List.perm_iff_count]
  intro value
  simp only [List.count_append, List.count_cons, List.count_nil]
  omega

/-- **A rotation that finds a slot.** -/
theorem rotateInternalPoolBitmap_moves (transactionXid : ℕ) {front back : List ℕ} {slot : ℕ}
    (h : FreeListWellFormed pool (front ++ slot :: back))
    (hsorted : protectedBitmapIndices.Pairwise (· ≤ ·))
    (hbitmap : pool.activeBitmaps[bitmapIndex]? = some bitmap)
    (hfront : ∀ other ∈ front, other ∈ protectedBitmapIndices)
    (hslot : slot ∉ protectedBitmapIndices) :
    ∃ after, rotateInternalPoolBitmap pool bitmapIndex transactionXid protectedBitmapIndices =
        .ok (after, ⟨.internalPoolBitmap, pool.bitmapBaseBlock + slot, none, bitmap.bytes⟩) ∧
      Moved pool bitmapIndex transactionXid bitmap front back slot after := by
  have hold := rotationIndex_mem_activeSlots hbitmap
  have holdLt := h.active_lt hold
  have hsmall := h.small
  have hslotLt : slot < pool.bitmapBlockCount := h.slot_lt (by simp)
  have hlengthEq := h.length
  -- the walk stops at the slot
  have hwalk := h.find hsorted
  have htake : (front ++ slot :: back).takeWhile (protectedBitmapIndices.contains ·) = front := by
    rw [List.takeWhile_append_of_pos (fun other hother =>
      List.contains_iff_mem.mpr (hfront other hother)),
      List.takeWhile_cons_of_neg (by simpa using hslot), List.append_nil]
  have hdrop : (front ++ slot :: back).dropWhile (protectedBitmapIndices.contains ·) =
      slot :: back := by
    rw [List.dropWhile_append_of_pos (fun other hother =>
      List.contains_iff_mem.mpr (hfront other hother)),
      List.dropWhile_cons_of_neg (by simpa using hslot)]
  rw [htake, hdrop, List.head?_cons, Option.getD_some] at hwalk
  -- the slots change places
  obtain ⟨before, rest, hsplit, hset⟩ := exists_set_eq
    ⟨transactionXid, pool.bitmapBaseBlock + slot, slot, bitmap.bytes⟩ hbitmap
  have hactive : pool.activeSlots =
      before.map (·.rotationIndex) ++ bitmap.rotationIndex :: rest.map (·.rotationIndex) := by
    rw [InternalPoolView.activeSlots, hsplit, List.map_append, List.map_cons]
  have hperm := slots_perm front back (before.map (·.rotationIndex)) (rest.map (·.rotationIndex))
    slot bitmap.rotationIndex
  rw [← hactive] at hperm
  have hnodup := hperm.nodup_iff.mpr h.nodup
  obtain ⟨hslotsNodup, hactiveNodup, hapart⟩ := List.nodup_append.mp hnodup
  -- the chain without the slot, and with the old one at its end
  obtain ⟨hremaining, hslotNext, hlength, hothers⟩ := h.represents.unlink
  have holdRemaining : bitmap.rotationIndex ∉ front ++ back := fun hmem =>
    (List.nodup_append.mp hslotsNodup).2.2 _ hmem _ (List.mem_singleton_self _) rfl
  obtain ⟨chain, hchain, hrepresents, hchainLength, hchainOthers⟩ := hremaining.append
    (by rw [hlength]; show bitmap.rotationIndex < pool.bitmapFreeNext.length; omega)
    holdRemaining (by omega)
  have hgetD : pool.bitmapFreeNext.getD bitmap.rotationIndex 0 = invalidBitmapIndex := by
    rw [List.getD_eq_getElem?_getD, h.unlinked _ hold, Option.getD_some]
  refine ⟨{ pool with
    bitmapFreeHead := chain.head
    bitmapFreeTail := chain.tail
    bitmapFreeNext := chain.next
    activeBitmaps := pool.activeBitmaps.set bitmapIndex
      ⟨transactionXid, pool.bitmapBaseBlock + slot, slot, bitmap.bytes⟩ }, ?_, ?_, rfl, rfl⟩
  · rw [rotateInternalPoolBitmap, hbitmap]
    dsimp only
    rw [hwalk]
    dsimp only
    rw [if_neg (by omega), if_neg (by rw [hgetD]; omega), hchain]
  have hactiveAfter : (pool.activeBitmaps.set bitmapIndex
      ⟨transactionXid, pool.bitmapBaseBlock + slot, slot, bitmap.bytes⟩).map (·.rotationIndex) =
      before.map (·.rotationIndex) ++ slot :: rest.map (·.rotationIndex) := by
    rw [hset, List.map_append, List.map_cons]
  refine ⟨?_, h.small, hrepresents, ?_, ?_, ?_⟩
  · show chain.next.length = pool.bitmapBlockCount
    rw [hchainLength, hlength, ← h.length]
    rfl
  · intro other hother
    change other ∈ (pool.activeBitmaps.set bitmapIndex _).map (·.rotationIndex) at hother
    rw [hactiveAfter] at hother
    show chain.next[other]? = some invalidBitmapIndex
    have houtside : other ∉ front ++ back ++ [bitmap.rotationIndex] := fun hmem =>
      hapart other hmem other hother rfl
    rw [hchainOthers other houtside]
    by_cases hsame : other = slot
    · rw [hsame, hslotNext]
    · have hwas : other ∈ pool.activeSlots := by
        rw [hactive]
        simp only [List.mem_append, List.mem_cons] at hother ⊢
        tauto
      have hnotSlot : other ∉ front ++ slot :: back := fun hmem =>
        (List.nodup_append.mp h.nodup).2.2 other hmem other hwas rfl
      rw [hothers other hnotSlot]
      exact h.unlinked other hwas
  · show (_ ++ (pool.activeBitmaps.set bitmapIndex _).map (·.rotationIndex)).Nodup
    rwa [hactiveAfter]
  · intro other
    show other ∈ _ ++ (pool.activeBitmaps.set bitmapIndex _).map (·.rotationIndex) ↔ _
    rw [hactiveAfter, hperm.mem_iff]
    exact h.cover other

/-- **A rotation that finds no slot** refuses. -/
theorem rotateInternalPoolBitmap_exhausted (h : FreeListWellFormed pool slots)
    (hsorted : protectedBitmapIndices.Pairwise (· ≤ ·))
    (hbitmap : pool.activeBitmaps[bitmapIndex]? = some bitmap)
    (hall : ∀ slot ∈ slots, slot ∈ protectedBitmapIndices) :
    rotateInternalPoolBitmap pool bitmapIndex transactionXid protectedBitmapIndices =
      .error (if slots = [] then "AppleSpacemanBitmapRotationExhausted"
        else "AppleSpacemanBitmapRetentionExhausted") := by
  have hwalk := h.find hsorted
  have htake : slots.takeWhile (protectedBitmapIndices.contains ·) = slots :=
    List.takeWhile_eq_self_iff.mpr fun slot hslot => List.contains_iff_mem.mpr (hall slot hslot)
  have hdrop : slots.dropWhile (protectedBitmapIndices.contains ·) = [] :=
    List.dropWhile_eq_nil_iff.mpr fun slot hslot => List.contains_iff_mem.mpr (hall slot hslot)
  rw [htake, hdrop, List.head?_nil, Option.getD_none] at hwalk
  rw [rotateInternalPoolBitmap, hbitmap]
  dsimp only
  rw [hwalk]
  dsimp only
  rw [if_pos rfl]
  have hlast : slots.getLast?.getD invalidBitmapIndex = invalidBitmapIndex ↔ slots = [] := by
    rcases List.eq_nil_or_concat slots with rfl | ⟨init, last, rfl⟩
    · exact ⟨fun _ => rfl, fun _ => rfl⟩
    · rw [List.concat_eq_append] at *
      have hne : last ≠ invalidBitmapIndex := fun heq => h.represents.null_notMem (by simp [heq])
      rw [List.getLast?_concat, Option.getD_some]
      exact ⟨fun heq => absurd heq hne, fun heq => by simp at heq⟩
  by_cases hempty : slots = []
  · rw [if_pos hempty, if_pos (hlast.mpr hempty)]
  · rw [if_neg hempty, if_neg (fun heq => hempty (hlast.mp heq))]

end Rotation

/-! ## Runs of rotations -/

/-- What a rotation is asked: the bitmap, the number of the checkpoint and the protected slots. -/
structure RotationRequest where
  bitmapIndex : ℕ
  transactionXid : ℕ
  protectedBitmapIndices : List ℕ
  deriving DecidableEq, Repr

/-- `RotateInternalPoolBitmap` on a request. -/
def RotationRequest.rotate (request : RotationRequest) (pool : InternalPoolView) :
    Except String (InternalPoolView × PlannedWrite) :=
  rotateInternalPoolBitmap pool request.bitmapIndex request.transactionXid
    request.protectedBitmapIndices

/-- A request the planner can make: its index is that of a bitmap, and its protected slots are in
order. -/
structure RotationRequest.Admissible (request : RotationRequest) (pool : InternalPoolView) :
    Prop where
  index : request.bitmapIndex < pool.activeBitmaps.length
  sorted : request.protectedBitmapIndices.Pairwise (· ≤ ·)

/-- The pool after a run of rotations; none of them may refuse. -/
def rotations (pool : InternalPoolView) (requests : List RotationRequest) :
    Except String InternalPoolView :=
  requests.foldlM (fun pool request => Prod.fst <$> request.rotate pool) pool

/-- **What one rotation may do** to a pool whose free slots are `slots`. -/
inductive RotationOutcome (pool : InternalPoolView) (slots : List ℕ) (request : RotationRequest) :
    Except String (InternalPoolView × PlannedWrite) → Prop
  /-- It refuses, and every free slot is protected. -/
  | refused (error : String) (hall : ∀ slot ∈ slots, slot ∈ request.protectedBitmapIndices) :
      RotationOutcome pool slots request (.error error)
  /-- It takes a free slot that is neither active nor protected, and the slot that the bitmap
  leaves is free once. -/
  | moved (bitmap : InternalPoolBitmapView) (front back : List ℕ) (slot : ℕ)
      (after : InternalPoolView) (write : PlannedWrite)
      (hslots : slots = front ++ slot :: back)
      (hfree : slot ∉ pool.activeSlots)
      (hunprotected : slot ∉ request.protectedBitmapIndices)
      (hbitmap : pool.activeBitmaps[request.bitmapIndex]? = some bitmap)
      (hmoved : Moved pool request.bitmapIndex request.transactionXid bitmap front back slot after)
      (hreusable : (front ++ back ++ [bitmap.rotationIndex]).count bitmap.rotationIndex = 1)
      (hreleased : bitmap.rotationIndex ∉ after.activeSlots)
      (hwrite : write.physicalBlock = pool.bitmapBaseBlock + slot) :
      RotationOutcome pool slots request (.ok (after, write))

section Runs

variable {pool after : InternalPoolView} {slots : List ℕ} {request : RotationRequest}

/-- **Every admissible rotation of a well-formed pool** has one of the outcomes. -/
theorem RotationRequest.Admissible.outcome (hadmissible : request.Admissible pool)
    (h : FreeListWellFormed pool slots) : RotationOutcome pool slots request (request.rotate pool) := by
  obtain ⟨bitmap, hbitmap⟩ : ∃ bitmap, pool.activeBitmaps[request.bitmapIndex]? = some bitmap :=
    ⟨_, List.getElem?_eq_getElem hadmissible.index⟩
  rw [RotationRequest.rotate]
  rcases hdrop : slots.dropWhile (request.protectedBitmapIndices.contains ·) with _ | ⟨slot, back⟩
  · have hall : ∀ slot ∈ slots, slot ∈ request.protectedBitmapIndices := fun slot hslot =>
      List.contains_iff_mem.mp (List.dropWhile_eq_nil_iff.mp hdrop slot hslot)
    rw [rotateInternalPoolBitmap_exhausted h hadmissible.sorted hbitmap hall]
    exact .refused _ hall
  · have hsplit := List.takeWhile_append_dropWhile
      (p := (request.protectedBitmapIndices.contains ·)) (l := slots)
    rw [hdrop] at hsplit
    have hunprotected : slot ∉ request.protectedBitmapIndices := fun hmem => by
      have hhead := List.head?_dropWhile_not (request.protectedBitmapIndices.contains ·) slots
      rw [hdrop, List.head?_cons] at hhead
      exact absurd (List.contains_iff_mem.mpr hmem) (by simpa using hhead)
    obtain ⟨next, hrotate, hmoved⟩ := rotateInternalPoolBitmap_moves
      request.transactionXid (by rwa [hsplit]) hadmissible.sorted hbitmap
      (fun other hother => List.contains_iff_mem.mp (List.mem_takeWhile_imp hother)) hunprotected
    rw [hrotate]
    have hfree : slot ∉ pool.activeSlots := fun hmem =>
      (List.nodup_append.mp h.nodup).2.2 slot (hsplit ▸ by simp) slot hmem rfl
    obtain ⟨hnodup, -, hapart⟩ := List.nodup_append.mp hmoved.wellFormed.nodup
    have hmem : bitmap.rotationIndex ∈
        slots.takeWhile (request.protectedBitmapIndices.contains ·) ++ back ++
          [bitmap.rotationIndex] := List.mem_append_right _ (List.mem_singleton_self _)
    exact .moved _ _ back slot next _ hsplit.symm hfree hunprotected hbitmap hmoved
      (List.count_eq_one_of_mem hnodup hmem) (fun hactive => hapart _ hmem _ hactive rfl) rfl

/-- One rotation keeps the pool well formed. -/
theorem RotationRequest.Admissible.step {write : PlannedWrite}
    (hadmissible : request.Admissible pool) (h : FreeListWellFormed pool slots)
    (hstep : request.rotate pool = .ok (after, write)) :
    (∃ slots, FreeListWellFormed after slots) ∧
      after.activeBitmaps.length = pool.activeBitmaps.length := by
  have houtcome := hadmissible.outcome h
  rw [hstep] at houtcome
  cases houtcome with
  | moved bitmap front back slot _ _ _ _ _ _ hmoved =>
    exact ⟨⟨_, hmoved.wellFormed⟩, by rw [hmoved.activeBitmaps, List.length_set]⟩

theorem rotations_cons {requests : List RotationRequest} :
    rotations pool (request :: requests) =
      (do let next ← Prod.fst <$> request.rotate pool; rotations next requests) := by
  rw [rotations, List.foldlM_cons]
  rfl

theorem rotations_keep {requests : List RotationRequest} (h : FreeListWellFormed pool slots)
    (hadmissible : ∀ request ∈ requests, request.Admissible pool)
    (hrun : rotations pool requests = .ok after) :
    (∃ slots, FreeListWellFormed after slots) ∧
      after.activeBitmaps.length = pool.activeBitmaps.length := by
  induction requests generalizing pool slots with
  | nil =>
    obtain rfl : pool = after := Except.ok.inj hrun
    exact ⟨⟨slots, h⟩, rfl⟩
  | cons request requests ih =>
    obtain ⟨hfirst, hrest⟩ := List.forall_mem_cons.mp hadmissible
    rw [rotations_cons] at hrun
    cases hstep : request.rotate pool with
    | error error =>
      rw [hstep] at hrun
      cases hrun
    | ok result =>
      obtain ⟨next, write⟩ := result
      rw [hstep] at hrun
      obtain ⟨⟨slots, hnext⟩, hlength⟩ := hfirst.step h hstep
      obtain ⟨hafter, hafterLength⟩ := ih hnext
        (fun request hmem => ⟨hlength ▸ (hrest request hmem).index, (hrest request hmem).sorted⟩)
        hrun
      exact ⟨hafter, hafterLength.trans hlength⟩

/-- **Every run of rotations** leaves a well-formed free list, on which the walk of the next
rotation ends and its outcome is one of those named. -/
theorem rotations_wellFormed {requests : List RotationRequest} (h : FreeListWellFormed pool slots)
    (hadmissible : ∀ request ∈ requests, request.Admissible pool)
    (hrun : rotations pool requests = .ok after) :
    ∃ slotsAfter, FreeListWellFormed after slotsAfter ∧
      ∀ request : RotationRequest, request.Admissible pool →
        (findFrom invalidBitmapIndex after.bitmapBlockCount after.bitmapFreeNext
          (fun index => !binarySearch request.protectedBitmapIndices index) 0 invalidBitmapIndex
          after.bitmapFreeHead).isSome ∧
        RotationOutcome after slotsAfter request (request.rotate after) := by
  obtain ⟨⟨slotsAfter, hafter⟩, hlength⟩ := rotations_keep h hadmissible hrun
  refine ⟨slotsAfter, hafter, fun request hrequest => ⟨?_, ?_⟩⟩
  · rw [hafter.find hrequest.sorted]
    rfl
  · exact RotationRequest.Admissible.outcome ⟨hlength ▸ hrequest.index, hrequest.sorted⟩ hafter

/-- Four slots: the bitmap in slot 0, the others free. -/
def samplePool : InternalPoolView where
  blockCount := 3
  bitmapBlockCount := 4
  bitmapBaseBlock := 100
  baseBlock := 200
  bitmapFreeHead := 1
  bitmapFreeTail := 3
  bitmapXidOffset := 0x150
  bitmapIndexOffset := 0x158
  bitmapFreeNextOffset := 0x160
  bitmapFreeNext := [invalidBitmapIndex, 2, 3, invalidBitmapIndex]
  activeBitmaps := [⟨7, 100, 0, [0x07]⟩]

/-- The first free slot is protected, so the second is taken from the middle of the list. -/
def sampleRotation (transactionXid : ℕ) : RotationRequest := ⟨0, transactionXid, [0, 1]⟩

theorem samplePool_wellFormed : FreeListWellFormed samplePool [1, 2, 3] where
  length := rfl
  small := by decide
  represents := ⟨rfl, rfl, ⟨rfl, rfl, rfl, trivial⟩, by decide, by decide⟩
  unlinked := by decide
  nodup := by decide
  cover := fun slot => by
    show slot ∈ [1, 2, 3, 0] ↔ slot < 4
    simp only [List.mem_cons, List.not_mem_nil, or_false]
    omega

theorem rotations_wellFormed_middle :
    ∃ after slotsAfter, rotations samplePool [sampleRotation 8] = .ok after ∧
      after.bitmapFreeNext = [invalidBitmapIndex, 3, invalidBitmapIndex, 0] ∧
      FreeListWellFormed after slotsAfter ∧
      RotationOutcome after slotsAfter (sampleRotation 9) ((sampleRotation 9).rotate after) := by
  have hadmissible : ∀ transactionXid, (sampleRotation transactionXid).Admissible samplePool :=
    fun transactionXid => ⟨Nat.zero_lt_one, by show [0, 1].Pairwise (· ≤ ·); decide⟩
  have hlinks : (rotations samplePool [sampleRotation 8]).toOption.map (·.bitmapFreeNext) =
      some [invalidBitmapIndex, 3, invalidBitmapIndex, 0] := by decide +kernel
  obtain ⟨after, hrun, hnext⟩ : ∃ after, rotations samplePool [sampleRotation 8] = .ok after ∧
      after.bitmapFreeNext = [invalidBitmapIndex, 3, invalidBitmapIndex, 0] := by
    cases hrun : rotations samplePool [sampleRotation 8] with
    | error error =>
      rw [hrun] at hlinks
      cases hlinks
    | ok after =>
      rw [hrun] at hlinks
      exact ⟨after, rfl, Option.some.inj hlinks⟩
  obtain ⟨slotsAfter, hafter, houtcome⟩ := rotations_wellFormed samplePool_wellFormed
    (fun request hmem => by rw [List.mem_singleton.mp hmem]; exact hadmissible 8) hrun
  exact ⟨after, slotsAfter, hrun, hnext, hafter, (houtcome _ (hadmissible 9)).2⟩

end Runs

/-! ## What the loader accepts -/

/-- The walk of the ownership loader along the free list: the last slot and all of them. -/
def walkFreeList (pool : InternalPoolView) (cursor last : ℕ) (free : List ℕ) :
    Except String (ℕ × List ℕ) :=
  if cursor = invalidBitmapIndex then .ok (last, free)
  else if _hinvalid : pool.bitmapBlockCount ≤ cursor ∨ cursor ∈ pool.activeSlots ∨
      cursor ∈ free then
    .error "AppleSpacemanInternalPoolFreeListInvalid"
  else walkFreeList pool (pool.bitmapFreeNext.getD cursor 0) cursor (free ++ [cursor])
termination_by (Finset.range pool.bitmapBlockCount \ free.toFinset).card
decreasing_by
  refine Finset.card_lt_card (Finset.ssubset_iff_of_subset ?_ |>.mpr ⟨cursor, ?_, ?_⟩)
  · intro slot hslot
    simp only [Finset.mem_sdiff, List.mem_toFinset, List.mem_append, not_or] at hslot ⊢
    exact ⟨hslot.1, hslot.2.1⟩
  · simp only [Finset.mem_sdiff, Finset.mem_range, List.mem_toFinset]
    exact ⟨by omega, fun hmem => _hinvalid (Or.inr (Or.inr hmem))⟩
  · simp

/-- What the ownership loader checks of the free list once it has read the active bitmaps. -/
def checkInternalPoolFreeList (pool : InternalPoolView) : Except String Unit :=
  if pool.activeSlots.any (fun index => pool.bitmapFreeNext.getD index 0 != invalidBitmapIndex) then
    .error "AppleSpacemanInternalPoolActiveBitmapLinked"
  else do
    let (last, free) ← walkFreeList pool pool.bitmapFreeHead invalidBitmapIndex []
    if free = [] ∧ (pool.bitmapFreeHead ≠ invalidBitmapIndex ∨
          pool.bitmapFreeTail ≠ invalidBitmapIndex) ∨
        free ≠ [] ∧ last ≠ pool.bitmapFreeTail ∨
        free.length + pool.activeSlots.length ≠ pool.bitmapBlockCount then
      .error "AppleSpacemanInternalPoolFreeListIncomplete"
    else .ok ()

section Loader

variable {pool : InternalPoolView}

theorem walkFreeList_ok {cursor last final : ℕ} {free all : List ℕ} (hfree : free.Nodup)
    (hlength : pool.bitmapFreeNext.length = pool.bitmapBlockCount)
    (hwalk : walkFreeList pool cursor last free = .ok (final, all)) :
    ∃ slots, all = free ++ slots ∧ cursor = slots.head?.getD invalidBitmapIndex ∧
      final = slots.getLast?.getD last ∧ Linked pool.bitmapFreeNext slots invalidBitmapIndex ∧
      all.Nodup ∧ ∀ slot ∈ slots, slot < pool.bitmapBlockCount ∧ slot ∉ pool.activeSlots := by
  induction cursor, last, free using walkFreeList.induct pool with
  | case1 last free =>
    rw [walkFreeList, if_pos rfl] at hwalk
    obtain ⟨rfl, rfl⟩ := Prod.mk.inj (Except.ok.inj hwalk)
    exact ⟨[], (List.append_nil _).symm, rfl, rfl, trivial, hfree, by simp⟩
  | case2 cursor last free hnull hinvalid =>
    rw [walkFreeList, if_neg hnull, dif_pos hinvalid] at hwalk
    cases hwalk
  | case3 cursor last free hnull hvalid ih =>
    rw [walkFreeList, if_neg hnull, dif_neg hvalid] at hwalk
    simp only [not_or, not_le] at hvalid
    obtain ⟨hlt, hactive, hnew⟩ := hvalid
    have hnodup : (free ++ [cursor]).Nodup := List.nodup_append.mpr
      ⟨hfree, List.nodup_singleton _, fun left hleft right hright heq =>
        hnew (List.mem_singleton.mp hright ▸ heq ▸ hleft)⟩
    obtain ⟨slots, rfl, hnext, rfl, hlinked, hall, hslots⟩ := ih hnodup hwalk
    refine ⟨cursor :: slots, by rw [List.append_assoc]; rfl, rfl, ?_, ⟨?_, hlinked⟩, hall,
      List.forall_mem_cons.mpr ⟨⟨hlt, hactive⟩, hslots⟩⟩
    · rw [List.getLast?_cons]
      rfl
    · have hget := List.getElem?_eq_getElem (l := pool.bitmapFreeNext) (i := cursor) (by omega)
      rw [List.getD_eq_getElem?_getD, hget, Option.getD_some] at hnext
      rw [hget, hnext]

theorem walkFreeList_linked {slots free : List ℕ} {last : ℕ}
    (hlinked : Linked pool.bitmapFreeNext slots invalidBitmapIndex)
    (hsmall : pool.bitmapBlockCount < invalidBitmapIndex) (hnodup : (free ++ slots).Nodup)
    (hslots : ∀ slot ∈ slots, slot < pool.bitmapBlockCount ∧ slot ∉ pool.activeSlots) :
    walkFreeList pool (slots.head?.getD invalidBitmapIndex) last free =
      .ok (slots.getLast?.getD last, free ++ slots) := by
  induction slots generalizing free last with
  | nil =>
    show walkFreeList pool invalidBitmapIndex last free = _
    rw [walkFreeList, if_pos rfl, List.append_nil]
    rfl
  | cons first slots ih =>
    obtain ⟨hfirst, hrest⟩ := hlinked
    obtain ⟨⟨hlt, hactive⟩, hslots⟩ := List.forall_mem_cons.mp hslots
    have hnew : first ∉ free := fun hmem =>
      (List.nodup_append.mp hnodup).2.2 first hmem first List.mem_cons_self rfl
    have hstep : pool.bitmapFreeNext.getD first 0 = slots.head?.getD invalidBitmapIndex := by
      rw [List.getD_eq_getElem?_getD, hfirst, Option.getD_some]
    rw [List.head?_cons, Option.getD_some, walkFreeList, if_neg (by omega),
      dif_neg (by rintro (h | h | h); exacts [absurd hlt (by omega), hactive h, hnew h]), hstep,
      ih hrest (by rwa [List.append_assoc]) hslots, List.append_assoc, List.getLast?_cons]
    rfl

/-- **The loader accepts the well-formed free lists and no others**: given what it has checked of
the active bitmaps before. -/
theorem checkInternalPoolFreeList_iff
    (hlength : pool.bitmapFreeNext.length = pool.bitmapBlockCount)
    (hsmall : pool.bitmapBlockCount < invalidBitmapIndex) (hactive : pool.activeSlots.Nodup)
    (hbounds : ∀ slot ∈ pool.activeSlots, slot < pool.bitmapBlockCount) :
    checkInternalPoolFreeList pool = .ok () ↔ ∃ slots, FreeListWellFormed pool slots := by
  have hlink : ∀ slot ∈ pool.activeSlots, (pool.bitmapFreeNext.getD slot 0 = invalidBitmapIndex ↔
      pool.bitmapFreeNext[slot]? = some invalidBitmapIndex) := by
    intro slot hslot
    have hlt := hbounds slot hslot
    rw [List.getD_eq_getElem?_getD, List.getElem?_eq_getElem (by omega), Option.getD_some,
      Option.some.injEq]
  have hany : pool.activeSlots.any (fun index => pool.bitmapFreeNext.getD index 0 !=
      invalidBitmapIndex) = false ↔
      ∀ slot ∈ pool.activeSlots, pool.bitmapFreeNext[slot]? = some invalidBitmapIndex := by
    rw [List.any_eq_false]
    refine forall₂_congr fun slot hslot => ?_
    rw [← hlink slot hslot, bne_iff_ne, not_not]
  have hcheck : checkInternalPoolFreeList pool = .ok () ↔
      (∀ slot ∈ pool.activeSlots, pool.bitmapFreeNext[slot]? = some invalidBitmapIndex) ∧
        ∃ last free, walkFreeList pool pool.bitmapFreeHead invalidBitmapIndex [] =
            .ok (last, free) ∧
          (free = [] → pool.bitmapFreeHead = invalidBitmapIndex ∧
            pool.bitmapFreeTail = invalidBitmapIndex) ∧
          (free ≠ [] → last = pool.bitmapFreeTail) ∧
          free.length + pool.activeSlots.length = pool.bitmapBlockCount := by
    rw [checkInternalPoolFreeList, ← hany]
    cases pool.activeSlots.any _ with
    | true => simp
    | false =>
      rw [if_neg Bool.false_ne_true, eq_self_iff_true, true_and]
      cases walkFreeList pool pool.bitmapFreeHead invalidBitmapIndex [] with
      | error error => simp [bind, Except.bind]
      | ok result =>
        obtain ⟨last, free⟩ := result
        show (if _ then _ else _) = _ ↔ _
        split_ifs with hincomplete <;> grind
  rw [hcheck]
  constructor
  · rintro ⟨hunlinked, last, slots, hwalk, hempty, htail, hcount⟩
    obtain ⟨_, rfl, hhead, hlast, hlinked, hnodup, hslots⟩ :=
      walkFreeList_ok List.nodup_nil hlength hwalk
    have hall : (slots ++ pool.activeSlots).Nodup := List.nodup_append.mpr
      ⟨hnodup, hactive, fun left hleft right hright heq => (hslots left hleft).2 (heq ▸ hright)⟩
    have hsubset : slots ++ pool.activeSlots ⊆ List.range pool.bitmapBlockCount := fun slot hslot =>
      List.mem_range.mpr ((List.mem_append.mp hslot).elim (fun h => (hslots slot h).1)
        (hbounds slot))
    -- as many slots as there are, each of them once
    have hperm := (hall.subperm hsubset).perm_of_length_le (by
      rw [List.length_range, List.length_append, hcount])
    refine ⟨slots, hlength, hsmall, ⟨hhead, ?_, hlinked, hnodup, fun hmem =>
      absurd (hslots _ hmem).1 (by omega)⟩, hunlinked, hall, fun slot => ?_⟩
    · by_cases hslotsEmpty : slots = []
      · rw [hslotsEmpty]
        exact (hempty hslotsEmpty).2
      · rw [InternalPoolView.chain, ← htail hslotsEmpty, hlast]
    · rw [hperm.mem_iff, List.mem_range]
  · rintro ⟨slots, h⟩
    have hapart := (List.nodup_append.mp h.nodup).2.2
    have hwalk : walkFreeList pool (slots.head?.getD invalidBitmapIndex) invalidBitmapIndex [] =
        .ok (slots.getLast?.getD invalidBitmapIndex, [] ++ slots) :=
      walkFreeList_linked h.represents.linked h.small h.represents.nodup
        fun slot hslot => ⟨h.slot_lt hslot, fun hmem => hapart slot hslot slot hmem rfl⟩
    have hhead : pool.bitmapFreeHead = slots.head?.getD invalidBitmapIndex := h.represents.head
    have htail : pool.bitmapFreeTail = slots.getLast?.getD invalidBitmapIndex := h.represents.tail
    have hperm : (slots ++ pool.activeSlots).Perm (List.range pool.bitmapBlockCount) :=
      (List.perm_ext_iff_of_nodup h.nodup List.nodup_range).mpr fun slot => by
        rw [h.cover, List.mem_range]
    refine ⟨h.unlinked, _, _, hhead ▸ hwalk, ?_, fun _ => htail.symm, ?_⟩
    · rw [List.nil_append]
      rintro rfl
      exact ⟨hhead, htail⟩
    · rw [List.nil_append, ← List.length_append, hperm.length_eq, List.length_range]

/-- **A pool that was loaded can be loaded after any run of rotations.** -/
theorem rotations_reload {after : InternalPoolView} {requests : List RotationRequest}
    (hlength : pool.bitmapFreeNext.length = pool.bitmapBlockCount)
    (hsmall : pool.bitmapBlockCount < invalidBitmapIndex) (hactive : pool.activeSlots.Nodup)
    (hbounds : ∀ slot ∈ pool.activeSlots, slot < pool.bitmapBlockCount)
    (hloaded : checkInternalPoolFreeList pool = .ok ())
    (hadmissible : ∀ request ∈ requests, request.Admissible pool)
    (hrun : rotations pool requests = .ok after) :
    checkInternalPoolFreeList after = .ok () ∧ after.activeSlots.Nodup ∧
      (∀ slot ∈ after.activeSlots, slot < after.bitmapBlockCount) ∧
      after.activeBitmaps.length = pool.activeBitmaps.length := by
  obtain ⟨slots, hslots⟩ := (checkInternalPoolFreeList_iff hlength hsmall hactive hbounds).mp hloaded
  obtain ⟨⟨slotsAfter, hafter⟩, hcount⟩ := rotations_keep hslots hadmissible hrun
  have hnodup := (List.nodup_append.mp hafter.nodup).2.1
  have hinside : ∀ slot ∈ after.activeSlots, slot < after.bitmapBlockCount := fun slot hslot =>
    hafter.active_lt hslot
  exact ⟨(checkInternalPoolFreeList_iff hafter.length hafter.small hnodup hinside).mpr
    ⟨slotsAfter, hafter⟩, hnodup, hinside, hcount⟩

theorem rotations_reload_twice : ∃ after,
    rotations samplePool [sampleRotation 8, sampleRotation 9] = .ok after ∧
      checkInternalPoolFreeList after = .ok () := by
  have hadmissible : ∀ transactionXid, (sampleRotation transactionXid).Admissible samplePool :=
    fun transactionXid => ⟨Nat.zero_lt_one, by show [0, 1].Pairwise (· ≤ ·); decide⟩
  obtain ⟨after, hrun⟩ :
      ∃ after, rotations samplePool [sampleRotation 8, sampleRotation 9] = .ok after := by
    cases hrun : rotations samplePool [sampleRotation 8, sampleRotation 9] with
    | error text =>
      have hok : (rotations samplePool [sampleRotation 8, sampleRotation 9]).isOk = true := by
        decide +kernel
      rw [hrun] at hok
      cases hok
    | ok after => exact ⟨after, rfl⟩
  have hloaded : checkInternalPoolFreeList samplePool = .ok () :=
    (checkInternalPoolFreeList_iff rfl (by decide) (by decide) (by decide)).mpr
      ⟨_, samplePool_wellFormed⟩
  refine ⟨after, hrun, (rotations_reload rfl (by decide) (by decide) (by decide) hloaded
    (fun request hmem => ?_) hrun).1⟩
  rcases List.mem_pair.mp hmem with rfl | rfl
  · exact hadmissible 8
  · exact hadmissible 9

end Loader

end Spaceman
end ApfsAccess
