import ApfsAccess.Btree.Reader

/-!
# Reading a tree that cannot be trusted

`Btree.Reader` says what a walk returns.  Here is what it does on the way, for any bytes at all:
which bytes of a block it touches, which blocks it reads, and what it leaves in the lists of its
caller.  A pass of the entry loop names the area it touches and stops with `outOfBounds` outside of
it; the walk keeps its lists also when it stops.

The areas of a node are enforced by `require_complete_traversal` only.  Without it a key may lie in
any part of the block, and so may a value or the table; then the area is the block.

* `touch` : bytes of a block that are in an area, or a stop.
* `walkInto`, `readBtreeLeafRecordsInto` : the walk with its lists.
* `readBtreeLeafRecordsInto_safe` : no touch leaves its area, no block is read twice, nothing is
  left behind on failure, and the result is that of `readBtreeLeafRecords`.
-/

namespace ApfsAccess
namespace Btree

open Format ByteBuffer

/-- Why a call stops early. -/
inductive Stop
  | failed (error : String)
  | outOfBounds
  deriving DecidableEq, Repr

/-- A part of a block. -/
structure Area where
  first : ℕ
  past : ℕ
  deriving DecidableEq, Repr

/-- The bytes from `start` on, which have to lie in the area, and the area in the block. -/
def touch (block : Bytes) (area : Area) (start length : ℕ) : Except Stop Bytes :=
  if area.first ≤ start ∧ start + length ≤ area.past ∧ area.past ≤ block.length then
    .ok (slice block start length)
  else .error .outOfBounds

/-- The areas that the accesses to a node are held to. -/
structure NodeAreas where
  table : Area
  keys : Area
  values : Area

/-- The areas of a node as its header gives them, or the block where `areas` is not set. -/
def nodeAreasOf (areas : Bool) (block : Bytes) (view : NodeView) : NodeAreas :=
  if areas then
    { table := ⟨view.tableStart, view.keyAreaStart⟩
      keys := ⟨view.keyAreaStart, view.freeStart⟩
      values := ⟨view.valueAreaStart, view.valueAreaEnd⟩ }
  else ⟨⟨0, block.length⟩, ⟨0, block.length⟩, ⟨0, block.length⟩⟩

/-- An error of the reader is a stop. -/
def failedWith {α : Type} : Except String α → Except Stop α
  | .ok value => .ok value
  | .error error => .error (.failed error)

/-! ## The walk with its lists -/

/-- One pass of the entry loop, with the bytes it touches. -/
def readEntryTouching (areas : Bool) (request : BtreeRead) (layout : TreeLayout)
    (current : PendingNode) (view : NodeView) (block : Bytes) (index : ℕ) (state : EntryState) :
    Except Stop EntryState := do
  let policy := request.policy
  let nodeAreas := nodeAreasOf areas block view
  let _ ← touch block nodeAreas.table (view.tableStart + index * view.entrySize) view.entrySize
  let row ← failedWith (readEntryRow layout view block index)
  let ghost : Bool := view.level = 0 ∧ row.valueOffset = 0xFFFF
  failedWith (rejectIf (policy.requireCompleteTraversal ∧ (row.keyOffset = 0xFFFF ∨
      (ghost ∧ ¬(request.compareKeys.isSome ∧ policy.includeGhostRecords)) ∨ row.keyLength = 0))
    "CatalogBtreeMissingEntry")
  if row.keyOffset = 0xFFFF ∨ (ghost ∧ policy.includeGhostRecords = false) then .ok state
  else
    let keyStart := view.keyAreaStart + row.keyOffset
    let valueStart :=
      if ghost then view.valueAreaEnd else view.valueAreaEnd - row.valueOffset
    failedWith (rejectIf ((ghost = false ∧ row.valueOffset = 0xFFFF) ∨ block.length < keyStart ∨
        block.length - keyStart < row.keyLength ∨
        (ghost = false ∧ (view.valueAreaEnd < row.valueOffset ∨
          view.valueAreaEnd < row.valueLength ∨
          block.length < view.valueAreaEnd - row.valueOffset ∨
          block.length - (view.valueAreaEnd - row.valueOffset) < row.valueLength)))
      "CatalogBtreeEntryInvalid")
    failedWith (rejectIf (policy.requireCompleteTraversal ∧
        (view.freeStart < keyStart ∨ view.freeStart - keyStart < row.keyLength ∨
          (ghost = false ∧ (valueStart < view.valueAreaStart ∨
            view.valueAreaEnd - valueStart < row.valueLength))))
      "CatalogBtreeEntryRegionInvalid")
    let key ← touch block nodeAreas.keys keyStart row.keyLength
    let value ← if ghost then .ok [] else touch block nodeAreas.values valueStart row.valueLength
    failedWith
      (match request.compareKeys with
      | none => takeEntry request current view key value row.valueLength state
      | some compare => do
        checkRouting compare current view.level index state.previousKey key
        takeEntry request current view key value row.valueLength
          { previousKey := key
            children := setLastUpper state.children key
            records := state.records })

/-- The entry loop.  What it has collected stays when a pass stops. -/
def readEntriesTouching (areas : Bool) (request : BtreeRead) (layout : TreeLayout)
    (current : PendingNode) (view : NodeView) (block : Bytes) :
    ℕ → ℕ → EntryState → EntryState × Option Stop
  | 0, _, state => (state, none)
  | remaining + 1, index, state =>
    match readEntryTouching areas request layout current view block index state with
    | .error stop => (state, some stop)
    | .ok state =>
      readEntriesTouching areas request layout current view block remaining (index + 1) state

/-- Reading a node up to its entries. -/
def readNodeHeader (request : BtreeRead) (layout : TreeLayout) (current : PendingNode) :
    Except String (TreeLayout × Bytes) := do
  let block ← readNodeBlock request current
  checkIdentity request current block
  checkHeader request current block
  let layout ← readLayout request layout block
  checkAreas request layout current block (nodeViewOf block)
  return (layout, block)

/-- The two lists of the caller: `out_records` and `visited_physical_blocks`. -/
structure ReadOutput where
  records : List BtreeRecord
  visitedPhysicalBlocks : List ℕ
  deriving DecidableEq, Repr

/-- `clear` on both lists. -/
def ReadOutput.clear (_ : ReadOutput) : ReadOutput := ⟨[], []⟩

/-- The state of a walk that fills the lists of its caller. -/
structure CallState where
  pending : List PendingNode
  visited : List ℕ
  layout : TreeLayout
  output : ReadOutput

/-- Putting a block on the list of visited ones. -/
def CallState.visit (state : CallState) (pending : List PendingNode) (block : ℕ) : CallState where
  pending := pending
  visited := block :: state.visited
  layout := state.layout
  output := state.output

/-- The records of a node, and its block, put on the lists. -/
def CallState.collect (state : CallState) (layout : TreeLayout) (block : ℕ) (entries : EntryState) :
    CallState where
  pending := state.pending ++ entries.children
  visited := state.visited
  layout := layout
  output :=
    { records := state.output.records ++ entries.records
      visitedPhysicalBlocks := state.output.visitedPhysicalBlocks ++ [block] }

/-- The loop of the walk. -/
def walkInto (areas : Bool) (request : BtreeRead) (state : CallState) : CallState × Option Stop :=
  match _hpending : state.pending with
  | [] => (state, none)
  | current :: pending =>
    if current.physicalBlock ∈ state.visited then
      if request.policy.requireCompleteTraversal then
        (state, some (.failed "CatalogBtreeRepeatedNode"))
      else walkInto areas request { state with pending := pending }
    else if _hbound : maxVisitedBlocks < state.visited.length + 1 then
      (state, some (.failed "CatalogBtreeCycle"))
    else
      match readNodeHeader request state.layout current with
      | .error error => (state.visit pending current.physicalBlock, some (.failed error))
      | .ok (layout, block) =>
        match readEntriesTouching areas request layout current (nodeViewOf block) block
            (nodeViewOf block).keyCount 0 ⟨[], [], []⟩ with
        | (entries, some stop) =>
          ((state.visit pending current.physicalBlock).collect layout current.physicalBlock entries,
            some stop)
        | (entries, none) =>
          walkInto areas request
            ((state.visit pending current.physicalBlock).collect layout current.physicalBlock entries)
termination_by (maxVisitedBlocks - state.visited.length, state.pending.length)
decreasing_by
  · rw [_hpending]
    exact Prod.Lex.right _ (Nat.lt_succ_self _)
  · refine Prod.Lex.left _ _ ?_
    show maxVisitedBlocks - (state.visited.length + 1) < maxVisitedBlocks - state.visited.length
    omega

/-- What a call leaves: the lists of its caller, the blocks it read, newest first, and why it
stopped. -/
structure ReadCall where
  output : ReadOutput
  blocksRead : List ℕ
  stop : Option Stop
  deriving DecidableEq, Repr

/-- The state in which a walk starts. -/
def CallState.start (request : BtreeRead) (lists : ReadOutput) : CallState where
  pending :=
    [{ physicalBlock := request.rootBlock
       objectId := request.policy.rootObjectId
       root := true
       expectedLevel := none
       mappingXid := request.rootMappingXid
       lower := []
       upper := [] }]
  visited := []
  layout := ⟨false, 0, 0, 0, 0⟩
  output := lists

/-- The end of a call: the counts that the root declares, where the walk came to its end. -/
def finishCall (request : BtreeRead) (final : CallState) (stop : Option Stop) : ReadCall :=
  if stop = none ∧ request.policy.rejectUnsupportedFlags ∧
      (final.layout.declaredKeyCount ≠ final.output.records.length ∨
        final.layout.declaredNodeCount ≠ final.visited.length) then
    ⟨final.output, final.visited, some (.failed "CatalogBtreeDeclaredCountsMismatch")⟩
  else ⟨final.output, final.visited, stop⟩

/-- The body of `ReadBtreeLeafRecords` on cleared lists, up to the destructor of
`ClearIncomplete`. -/
def readBtreeLeafRecordsBody (areas : Bool) (request : BtreeRead) (lists : ReadOutput) : ReadCall :=
  if request.compareKeys.isSome ∧ request.policy.requireCompleteTraversal = false then
    ⟨lists, [], some (.failed "CatalogBtreeRoutingRequiresCompleteTraversal")⟩
  else if request.blockSize = 0 ∨ request.rootBlock = 0 then
    ⟨lists, [], some (.failed "CatalogBtreeRootInvalid")⟩
  else
    let (final, stop) := walkInto areas request (.start request lists)
    finishCall request final stop

/-- `ReadBtreeLeafRecords` on the lists of its caller: they are cleared before the walk, and again
when it does not complete. -/
def readBtreeLeafRecordsInto (areas : Bool) (request : BtreeRead) (lists : ReadOutput) : ReadCall :=
  let call := readBtreeLeafRecordsBody areas request lists.clear
  if call.stop.isSome then ⟨call.output.clear, call.blocksRead, call.stop⟩ else call

/-! ## No touch leaves its area -/

/-- A guard stops both readers, or neither. -/
theorem failedWith_rejectIf_bind {condition : Prop} [Decidable condition] {α : Type}
    {error : String} {next : Unit → Except Stop α} {next' : Unit → Except String α}
    (h : ¬condition → next () = failedWith (next' ())) :
    (failedWith (rejectIf condition error) >>= next) =
      failedWith (rejectIf condition error >>= next') := by
  by_cases hcondition : condition
  · rw [rejectIf, if_pos hcondition]
    rfl
  · rw [rejectIf, if_neg hcondition]
    exact h hcondition

/-- **What the areas of a node satisfy** once they are checked. -/
structure AreasChecked (request : BtreeRead) (block : Bytes) (view : NodeView) : Prop where
  table_le : view.tableStart + view.keyCount * view.entrySize ≤ block.length
  table_complete : request.policy.requireCompleteTraversal = true →
    view.tableStart + view.keyCount * view.entrySize ≤ view.keyAreaStart
  keys_le : view.keyAreaStart ≤ block.length
  free_le : view.freeStart ≤ block.length
  values_le : view.valueAreaEnd ≤ block.length

theorem nodeViewOf_ordered (block : Bytes) :
    (nodeViewOf block).tableStart ≤ (nodeViewOf block).keyAreaStart ∧
      (nodeViewOf block).keyAreaStart ≤ (nodeViewOf block).freeStart ∧
      (nodeViewOf block).freeStart ≤ (nodeViewOf block).valueAreaStart :=
  ⟨Nat.le_add_right _ _, Nat.le_add_right _ _, Nat.le_add_right _ _⟩

theorem areasChecked_of_checkAreas {request : BtreeRead} {layout : TreeLayout}
    {current : PendingNode} {block : Bytes}
    (h : checkAreas request layout current block (nodeViewOf block) = .ok ()) :
    AreasChecked request block (nodeViewOf block) := by
  obtain ⟨htable, hkeys, hfree⟩ := nodeViewOf_ordered block
  unfold checkAreas at h
  rw [rejectIf_bind_eq_ok_iff, rejectIf_bind_eq_ok_iff, rejectIf_bind_eq_ok_iff] at h
  obtain ⟨-, hbounds, hcomplete, -⟩ := h
  simp only [not_or, not_lt] at hbounds
  obtain ⟨-, -, hkeysLe, hvaluesLe, hendLe, -, htableLe⟩ := hbounds
  refine ⟨by omega, fun hpolicy => ?_, hkeysLe, by omega, hendLe⟩
  have hlong := not_and.mp hcomplete hpolicy
  omega

section Touching

variable {request : BtreeRead} {layout : TreeLayout} {current : PendingNode} {view : NodeView}
  {block : Bytes} {index : ℕ} {state : EntryState}

theorem touch_eq {area : Area} {start length : ℕ} (hfirst : area.first ≤ start)
    (hpast : start + length ≤ area.past) (hblock : area.past ≤ block.length) :
    touch block area start length = .ok (slice block start length) :=
  if_pos ⟨hfirst, hpast, hblock⟩

/-- The key of an entry is in its area. -/
theorem touch_key (h : AreasChecked request block view) {start length : ℕ}
    (hfirst : view.keyAreaStart ≤ start) (hblock : start + length ≤ block.length)
    (hcomplete : request.policy.requireCompleteTraversal = true →
      start + length ≤ view.freeStart) :
    touch block (nodeAreasOf request.policy.requireCompleteTraversal block view).keys start length =
      .ok (slice block start length) := by
  have hfree := h.free_le
  cases hpolicy : request.policy.requireCompleteTraversal with
  | true => exact touch_eq hfirst (hcomplete hpolicy) hfree
  | false => exact touch_eq (Nat.zero_le _) hblock le_rfl

/-- The value of an entry is in its area. -/
theorem touch_value (h : AreasChecked request block view) {start length : ℕ}
    (hblock : start + length ≤ block.length)
    (hcomplete : request.policy.requireCompleteTraversal = true →
      view.valueAreaStart ≤ start ∧ start + length ≤ view.valueAreaEnd) :
    touch block (nodeAreasOf request.policy.requireCompleteTraversal block view).values start
        length = .ok (slice block start length) := by
  have hvalues := h.values_le
  cases hpolicy : request.policy.requireCompleteTraversal with
  | true => exact touch_eq (hcomplete hpolicy).1 (hcomplete hpolicy).2 hvalues
  | false => exact touch_eq (Nat.zero_le _) hblock le_rfl

/-- **A pass touches its areas only**, and does what the reader does. -/
theorem readEntryTouching_eq (h : AreasChecked request block view) (hindex : index < view.keyCount) :
    readEntryTouching request.policy.requireCompleteTraversal request layout current view block
        index state =
      failedWith (readEntry request layout current view block index state) := by
  have hrowEnd : view.tableStart + index * view.entrySize + view.entrySize ≤
      view.tableStart + view.keyCount * view.entrySize := by
    have := Nat.mul_le_mul_right view.entrySize hindex
    rw [Nat.succ_mul] at this
    omega
  have htable : touch block (nodeAreasOf request.policy.requireCompleteTraversal block view).table
      (view.tableStart + index * view.entrySize) view.entrySize =
      .ok (slice block (view.tableStart + index * view.entrySize) view.entrySize) := by
    have hle := h.table_le
    have hkeysLe := h.keys_le
    cases hpolicy : request.policy.requireCompleteTraversal with
    | true =>
      have hcomplete := h.table_complete hpolicy
      exact touch_eq (Nat.le_add_right _ _) (by show _ ≤ view.keyAreaStart; omega) hkeysLe
    | false => exact touch_eq (Nat.zero_le _) (by show _ ≤ block.length; omega) le_rfl
  unfold readEntryTouching readEntry
  dsimp only
  rw [htable]
  cases hrow : readEntryRow layout view block index with
  | error error => rfl
  | ok row =>
    refine failedWith_rejectIf_bind fun _ => ?_
    by_cases hskip : row.keyOffset = 0xFFFF ∨
        (decide (view.level = 0 ∧ row.valueOffset = 0xFFFF) = true ∧
          request.policy.includeGhostRecords = false)
    · rw [if_pos hskip, if_pos hskip]
      rfl
    rw [if_neg hskip, if_neg hskip]
    refine failedWith_rejectIf_bind fun hentry => ?_
    refine failedWith_rejectIf_bind fun hregion => ?_
    simp only [not_or, not_lt] at hentry
    rw [touch_key h (by omega) (by omega) fun hpolicy => by
      have := not_and.mp hregion hpolicy
      omega]
    cases hghost : decide (view.level = 0 ∧ row.valueOffset = 0xFFFF) with
    | true =>
      rw [if_pos rfl, if_pos rfl]
      cases request.compareKeys with
      | none => rfl
      | some compare => rfl
    | false =>
      rw [hghost] at hentry hregion
      rw [if_neg Bool.false_ne_true, if_neg Bool.false_ne_true]
      have hvalue := not_and.mp hentry.2.2.2 rfl
      rw [touch_value h (by omega) fun hpolicy => by
        have hinside := not_and.mp (not_or.mp (not_or.mp (not_and.mp hregion hpolicy)).2).2 rfl
        rw [if_neg Bool.false_ne_true] at hinside
        omega]
      cases request.compareKeys with
      | none => rfl
      | some compare => rfl

/-- **The entry loop stops where the reader fails**, and otherwise collects what it reads. -/
theorem readEntriesTouching_spec (h : AreasChecked request block view) {remaining : ℕ}
    (hremaining : index + remaining ≤ view.keyCount) :
    (∃ entries, readEntries request layout current view block remaining index state =
        .ok entries ∧
      readEntriesTouching request.policy.requireCompleteTraversal request layout current view block
        remaining index state = (entries, none)) ∨
    ∃ error collected, readEntries request layout current view block remaining index state =
        .error error ∧
      readEntriesTouching request.policy.requireCompleteTraversal request layout current view block
        remaining index state = (collected, some (.failed error)) := by
  induction remaining generalizing index state with
  | zero => exact Or.inl ⟨state, rfl, rfl⟩
  | succ remaining ih =>
    rw [readEntries, readEntriesTouching, readEntryTouching_eq h (by omega)]
    cases hentry : readEntry request layout current view block index state with
    | error error => exact Or.inr ⟨error, state, rfl, rfl⟩
    | ok next => exact ih (by omega)

end Touching

/-! ## The walk -/

section Walk

variable {request : BtreeRead}

/-- The reader of a node is its header and its entries. -/
theorem readNode_eq (layout : TreeLayout) (current : PendingNode) :
    readNode request layout current = (do
      let (layout, block) ← readNodeHeader request layout current
      let entries ← readEntries request layout current (nodeViewOf block) block
        (nodeViewOf block).keyCount 0 ⟨[], [], []⟩
      return (layout, entries)) := by
  rw [readNode, readNodeHeader]
  simp only [bind_assoc, pure_bind]

theorem readNodeHeader_areas {layout layout' : TreeLayout} {current : PendingNode} {block : Bytes}
    (h : readNodeHeader request layout current = .ok (layout', block)) :
    AreasChecked request block (nodeViewOf block) := by
  rw [readNodeHeader, bind_eq_ok_iff] at h
  obtain ⟨found, -, h⟩ := h
  obtain ⟨_, -, h⟩ := bind_eq_ok_iff.mp h
  obtain ⟨_, -, h⟩ := bind_eq_ok_iff.mp h
  obtain ⟨_, -, h⟩ := bind_eq_ok_iff.mp h
  obtain ⟨_, hareas, h⟩ := bind_eq_ok_iff.mp h
  obtain ⟨-, rfl⟩ := Prod.mk.inj (Except.ok.inj h)
  exact areasChecked_of_checkAreas hareas

/-- **What holds of the lists of a walk**: no block is on them twice, they are not too long, and
the caller's list has the blocks in the order they were read. -/
structure WalkInvariant (state : CallState) : Prop where
  nodup : state.visited.Nodup
  bounded : state.visited.length ≤ maxVisitedBlocks

/-- What the walk of the reader works on. -/
def CallState.toWalkState (state : CallState) : WalkState :=
  ⟨state.pending, state.visited, state.layout, state.output.records⟩

theorem WalkInvariant.visit {state : CallState} (h : WalkInvariant state) {block : ℕ}
    (hnew : block ∉ state.visited) (hbound : ¬maxVisitedBlocks < state.visited.length + 1)
    (pending : List PendingNode) : WalkInvariant (state.visit pending block) :=
  ⟨List.nodup_cons.mpr ⟨hnew, h.nodup⟩, not_lt.mp hbound⟩

theorem walkInto_nil (areas : Bool) (visited : List ℕ) (layout : TreeLayout)
    (output : ReadOutput) :
    walkInto areas request ⟨[], visited, layout, output⟩ = (⟨[], visited, layout, output⟩, none) := by
  rw [walkInto]

/-- One turn of both walks: the same nodes, the same failures. -/
theorem walkInto_turn (areas : Bool) (current : PendingNode) (pending : List PendingNode)
    (visited : List ℕ) (layout : TreeLayout) (output : ReadOutput) :
    walkInto areas request ⟨current :: pending, visited, layout, output⟩ =
      if current.physicalBlock ∈ visited then
        if request.policy.requireCompleteTraversal then
          (⟨current :: pending, visited, layout, output⟩,
            some (.failed "CatalogBtreeRepeatedNode"))
        else walkInto areas request ⟨pending, visited, layout, output⟩
      else if maxVisitedBlocks < visited.length + 1 then
        (⟨current :: pending, visited, layout, output⟩, some (.failed "CatalogBtreeCycle"))
      else
        match readNodeHeader request layout current with
        | .error error =>
          (⟨pending, current.physicalBlock :: visited, layout, output⟩, some (.failed error))
        | .ok (found, block) =>
          match readEntriesTouching areas request found current (nodeViewOf block) block
              (nodeViewOf block).keyCount 0 ⟨[], [], []⟩ with
          | (entries, some stop) =>
            ((CallState.mk pending (current.physicalBlock :: visited) layout output).collect found
              current.physicalBlock entries, some stop)
          | (entries, none) =>
            walkInto areas request
              ((CallState.mk pending (current.physicalBlock :: visited) layout output).collect found
                current.physicalBlock entries) := by
  rw [walkInto]
  rfl

theorem walk_turn (current : PendingNode) (pending : List PendingNode) (visited : List ℕ)
    (layout : TreeLayout) (records : List BtreeRecord) :
    walk request ⟨current :: pending, visited, layout, records⟩ =
      if current.physicalBlock ∈ visited then
        if request.policy.requireCompleteTraversal then .error "CatalogBtreeRepeatedNode"
        else walk request ⟨pending, visited, layout, records⟩
      else if maxVisitedBlocks < visited.length + 1 then .error "CatalogBtreeCycle"
      else
        match readNode request layout current with
        | .error text => .error text
        | .ok (layout, entries) =>
          walk request ⟨pending ++ entries.children, current.physicalBlock :: visited, layout,
            records ++ entries.records⟩ := by
  rw [walk]
  rfl

/-- **The walk with its lists** keeps the invariant, fails where the reader fails, and otherwise
ends in the same state. -/
theorem walkInto_spec {state : CallState} (h : WalkInvariant state) :
    WalkInvariant (walkInto request.policy.requireCompleteTraversal request state).1 ∧
      ((∃ final, walkInto request.policy.requireCompleteTraversal request state = (final, none) ∧
          walk request state.toWalkState = .ok final.toWalkState ∧
          (state.output.visitedPhysicalBlocks = state.visited.reverse →
            final.output.visitedPhysicalBlocks = final.visited.reverse)) ∨
        ∃ error, (walkInto request.policy.requireCompleteTraversal request state).2 =
            some (.failed error) ∧
          walk request state.toWalkState = .error error) := by
  induction state using walkInto.induct request.policy.requireCompleteTraversal request with
  | case1 state hempty =>
    obtain ⟨_, visited, layout, output⟩ := state
    dsimp only at hempty
    subst hempty
    rw [walkInto_nil, CallState.toWalkState, walk]
    exact ⟨h, Or.inl ⟨_, rfl, rfl, id⟩⟩
  | case2 state current pending hpending hrepeated hcomplete =>
    obtain ⟨_, visited, layout, output⟩ := state
    dsimp only at hpending hrepeated
    subst hpending
    rw [CallState.toWalkState, walkInto_turn, walk_turn, if_pos hrepeated, if_pos hcomplete,
      if_pos hrepeated, if_pos hcomplete]
    exact ⟨h, Or.inr ⟨_, rfl, rfl⟩⟩
  | case3 state current pending hpending hrepeated hordinary ih =>
    obtain ⟨_, visited, layout, output⟩ := state
    dsimp only at hpending hrepeated
    subst hpending
    rw [CallState.toWalkState, walkInto_turn, walk_turn, if_pos hrepeated, if_neg hordinary,
      if_pos hrepeated, if_neg hordinary]
    exact ih ⟨h.nodup, h.bounded⟩
  | case4 state current pending hpending hnew hbound =>
    obtain ⟨_, visited, layout, output⟩ := state
    dsimp only at hpending hnew hbound
    subst hpending
    rw [CallState.toWalkState, walkInto_turn, walk_turn, if_neg hnew, if_pos hbound, if_neg hnew,
      if_pos hbound]
    exact ⟨h, Or.inr ⟨_, rfl, rfl⟩⟩
  | case5 state current pending hpending hnew hbound error hheader =>
    obtain ⟨_, visited, layout, output⟩ := state
    dsimp only at hpending hnew hbound hheader
    subst hpending
    rw [CallState.toWalkState, walkInto_turn, walk_turn, if_neg hnew, if_neg hbound, if_neg hnew,
      if_neg hbound, readNode_eq, hheader]
    exact ⟨h.visit hnew hbound pending, Or.inr ⟨error, rfl, rfl⟩⟩
  | case6 state current pending hpending hnew hbound found block hheader entries stop hentries =>
    obtain ⟨_, visited, layout, output⟩ := state
    dsimp only at hpending hnew hbound hheader
    subst hpending
    rw [CallState.toWalkState, walkInto_turn, walk_turn, if_neg hnew, if_neg hbound, if_neg hnew,
      if_neg hbound, readNode_eq, hheader]
    obtain ⟨_, -, hloop⟩ | ⟨error, collected, hread, hloop⟩ :=
      @readEntriesTouching_spec request found current (nodeViewOf block) block 0 ⟨[], [], []⟩
        (readNodeHeader_areas hheader) (nodeViewOf block).keyCount (Nat.zero_add _).le
    · rw [hentries] at hloop
      cases hloop
    · dsimp only
      rw [hloop]
      have hvisit := h.visit hnew hbound pending
      refine ⟨⟨hvisit.nodup, hvisit.bounded⟩, Or.inr ⟨error, rfl, ?_⟩⟩
      simp only [bind, Except.bind, hread]
  | case7 state current pending hpending hnew hbound found block hheader entries hentries ih =>
    obtain ⟨_, visited, layout, output⟩ := state
    dsimp only at hpending hnew hbound hheader
    subst hpending
    rw [CallState.toWalkState, walkInto_turn, walk_turn, if_neg hnew, if_neg hbound, if_neg hnew,
      if_neg hbound, readNode_eq, hheader]
    obtain ⟨collected, hread, hloop⟩ | ⟨error, collected, -, hloop⟩ :=
      @readEntriesTouching_spec request found current (nodeViewOf block) block 0 ⟨[], [], []⟩
        (readNodeHeader_areas hheader) (nodeViewOf block).keyCount (Nat.zero_add _).le
    · rw [hentries] at hloop
      obtain rfl : entries = collected := (Prod.mk.inj hloop).1
      dsimp only
      rw [hentries]
      simp only [bind, Except.bind, hread, pure, Except.pure]
      have hvisit := h.visit hnew hbound pending
      obtain ⟨hinvariant, hresult⟩ := ih ⟨hvisit.nodup, hvisit.bounded⟩
      refine ⟨hinvariant, hresult.imp_left fun ⟨final, hinto, hwalk, hlist⟩ =>
        ⟨final, hinto, hwalk, fun hsame => hlist ?_⟩⟩
      show output.visitedPhysicalBlocks ++ [current.physicalBlock] =
        (current.physicalBlock :: visited).reverse
      rw [show output.visitedPhysicalBlocks = visited.reverse from hsame, List.reverse_cons]
    · rw [hentries] at hloop
      cases hloop

/-- What a call answers. -/
def ReadCall.result (call : ReadCall) : Except Stop (List BtreeRecord) :=
  match call.stop with
  | none => .ok call.output.records
  | some stop => .error stop

/-- The body answers what the reader answers. -/
theorem readBtreeLeafRecordsBody_spec (request : BtreeRead) :
    let call := readBtreeLeafRecordsBody request.policy.requireCompleteTraversal request ⟨[], []⟩
    call.result = failedWith (readBtreeLeafRecords request) ∧ call.blocksRead.Nodup ∧
      call.blocksRead.length ≤ maxVisitedBlocks ∧
      (call.stop = none → call.output.visitedPhysicalBlocks = call.blocksRead.reverse) := by
  rw [readBtreeLeafRecordsBody, readBtreeLeafRecords]
  by_cases hrouting : request.compareKeys.isSome ∧ request.policy.requireCompleteTraversal = false
  · rw [if_pos hrouting, rejectIf, if_pos hrouting]
    exact ⟨rfl, List.nodup_nil, Nat.zero_le _, nofun⟩
  rw [if_neg hrouting, rejectIf_bind_of_not _ _ hrouting]
  by_cases hroot : request.blockSize = 0 ∨ request.rootBlock = 0
  · rw [if_pos hroot, rejectIf, if_pos hroot]
    exact ⟨rfl, List.nodup_nil, Nat.zero_le _, nofun⟩
  rw [if_neg hroot, rejectIf_bind_of_not _ _ hroot]
  obtain ⟨hinvariant, hwalk⟩ := @walkInto_spec request (.start request ⟨[], []⟩)
    ⟨List.nodup_nil, Nat.zero_le _⟩
  obtain ⟨final, hinto, hread, hlist⟩ | ⟨error, hstop, hread⟩ := hwalk
  · rw [hinto] at hinvariant
    rw [CallState.start, CallState.toWalkState] at hread
    rw [hinto, hread]
    dsimp only
    rw [finishCall]
    by_cases hcounts : request.policy.rejectUnsupportedFlags ∧
        (final.toWalkState.layout.declaredKeyCount ≠ final.toWalkState.records.length ∨
          final.toWalkState.layout.declaredNodeCount ≠ final.toWalkState.visited.length)
    · rw [if_pos ⟨rfl, hcounts⟩]
      refine ⟨?_, hinvariant.nodup, hinvariant.bounded, nofun⟩
      show _ = failedWith (rejectIf _ _ >>= _)
      rw [rejectIf, if_pos hcounts]
      rfl
    · rw [if_neg fun hall => hcounts hall.2]
      refine ⟨?_, hinvariant.nodup, hinvariant.bounded, fun _ => hlist rfl⟩
      show _ = failedWith (rejectIf _ _ >>= _)
      rw [rejectIf_bind_of_not _ _ hcounts]
      rfl
  · rw [CallState.start, CallState.toWalkState] at hread
    rw [hread]
    generalize walkInto request.policy.requireCompleteTraversal request
      (.start request ⟨[], []⟩) = ended at hinvariant hstop ⊢
    obtain ⟨final, stop⟩ := ended
    obtain rfl : stop = some (.failed error) := hstop
    dsimp only
    rw [finishCall, if_neg (fun hall => by cases hall.1)]
    exact ⟨rfl, hinvariant.nodup, hinvariant.bounded, nofun⟩

/-- **The reader on bytes that cannot be trusted.**  For every source, root and policy a call ends;
it touches nothing outside of a block, and where the policy requires a complete traversal nothing
outside of the table, the keys and the values of a node; it reads no block twice; it leaves
nothing behind when it fails. -/
theorem readBtreeLeafRecordsInto_safe (request : BtreeRead) (lists : ReadOutput) :
    let call := readBtreeLeafRecordsInto request.policy.requireCompleteTraversal request lists
    call.result = failedWith (readBtreeLeafRecords request) ∧
      call.stop ≠ some .outOfBounds ∧ call.blocksRead.Nodup ∧
      call.blocksRead.length ≤ maxVisitedBlocks ∧
      (call.stop ≠ none → call.output = ⟨[], []⟩) ∧
      (call.stop = none → call.output.visitedPhysicalBlocks = call.blocksRead.reverse) := by
  obtain ⟨hresult, hnodup, hbounded, hlist⟩ := readBtreeLeafRecordsBody_spec request
  rw [readBtreeLeafRecordsInto, ReadOutput.clear]
  generalize readBtreeLeafRecordsBody request.policy.requireCompleteTraversal request ⟨[], []⟩ =
    call at hresult hnodup hbounded hlist ⊢
  obtain ⟨output, blocksRead, stop⟩ := call
  have hinside : stop ≠ some .outOfBounds := by
    rintro rfl
    cases hread : readBtreeLeafRecords request with
    | error error =>
      rw [hread] at hresult
      cases hresult
    | ok records =>
      rw [hread] at hresult
      cases hresult
  cases stop with
  | none => exact ⟨hresult, hinside, hnodup, hbounded, fun hstop => absurd rfl hstop, hlist⟩
  | some stop => exact ⟨hresult, hinside, hnodup, hbounded, fun _ => rfl, nofun⟩

end Walk

/-! ## A key outside of its area -/

/-- A root with one record, behind its checksum: the area of the keys is empty, and the key lies in
the free space. -/
def strayBody : Bytes :=
  leBytes 8 1 ++ leBytes 8 1 ++ leBytes 4 (objectPhysical + objectTypeBtree) ++ leBytes 4 0 ++
    -- flags, level, number of keys, table, free space, free lists
    leBytes 2 3 ++ leBytes 2 0 ++ leBytes 4 1 ++ leBytes 2 0 ++ leBytes 2 8 ++ leBytes 2 0 ++
    leBytes 2 0 ++ leBytes 8 0 ++
    -- the row of the record, its key and its value
    leBytes 2 0 ++ leBytes 2 4 ++ leBytes 2 4 ++ leBytes 2 4 ++ leBytes 4 0x2A ++ leBytes 4 7 ++
    -- the footer
    leBytes 4 0 ++ leBytes 4 112 ++ leBytes 32 0

/-- The root, sealed. -/
def strayRoot : Bytes :=
  leBytes 8 ((fletcher64 strayBody).getD 0) ++ strayBody

/-- The device: an empty block, and the root. -/
def strayImage : Bytes := List.replicate 112 0 ++ strayRoot

theorem length_strayImage : strayImage.length < 2 ^ 64 := by
  decide +kernel

/-- A walk that enforces nothing. -/
def strayRead : BtreeRead where
  source :=
    { sizeBytes := strayImage.length
      sizeBytes_lt := length_strayImage
      read := fun offset size =>
        if offset + size ≤ strayImage.length then some (slice strayImage offset size) else none
      length_of_read := fun h => by
        split_ifs at h with hle
        rw [← Option.some.inj h, length_slice_of_le hle]
      le_of_read := fun h => by
        split_ifs at h with hle
        exact hle }
  blockSize := 112
  rootBlock := 1
  childAddressesArePhysical := true
  childObjectMap := .error ""
  maxXidHint := 0
  policy := ⟨false, 0, 0, 0, false, none, false, false, none⟩
  compareKeys := none
  rootMappingXid := none

deriving instance DecidableEq for TreeLayout, PendingNode, EntryState

/-- The root of the walk. -/
def strayNode : PendingNode := ⟨1, 0, true, none, none, [], []⟩

theorem readNodeHeader_stray :
    readNodeHeader strayRead ⟨false, 0, 0, 0, 0⟩ strayNode = .ok (⟨true, 0, 0, 0, 0⟩, strayRoot) := by
  decide +kernel

theorem readBtreeLeafRecordsBody_stray (areas : Bool) :
    readBtreeLeafRecordsBody areas strayRead ⟨[], []⟩ =
      match readEntriesTouching areas strayRead ⟨true, 0, 0, 0, 0⟩ strayNode (nodeViewOf strayRoot)
          strayRoot (nodeViewOf strayRoot).keyCount 0 ⟨[], [], []⟩ with
      | (entries, some stop) => ⟨⟨entries.records, [1]⟩, [1], some stop⟩
      | (entries, none) =>
        let (final, stop) := walkInto areas strayRead
          ⟨entries.children, [1], ⟨true, 0, 0, 0, 0⟩, ⟨entries.records, [1]⟩⟩
        finishCall strayRead final stop := by
  have hturn := @walkInto_turn strayRead areas strayNode [] [] ⟨false, 0, 0, 0, 0⟩ ⟨[], []⟩
  rw [if_neg List.not_mem_nil, if_neg (by decide), readNodeHeader_stray] at hturn
  have hwalk : walkInto areas strayRead (.start strayRead ⟨[], []⟩) = _ := hturn
  rw [readBtreeLeafRecordsBody, if_neg (by decide), if_neg (by decide), hwalk]
  dsimp only
  rcases readEntriesTouching areas strayRead ⟨true, 0, 0, 0, 0⟩ strayNode (nodeViewOf strayRoot)
    strayRoot (nodeViewOf strayRoot).keyCount 0 ⟨[], [], []⟩ with ⟨entries, stop⟩
  cases stop with
  | none => rfl
  | some stop => rfl

/-- Without a complete traversal the reader leaves the area of the keys, and succeeds. -/
theorem readBtreeLeafRecordsInto_stray :
    strayRead.policy.requireCompleteTraversal = false ∧
      readBtreeLeafRecordsInto false strayRead ⟨[], []⟩ =
        ⟨⟨[⟨[0x2A, 0, 0, 0], [7, 0, 0, 0]⟩], [1]⟩, [1], none⟩ ∧
      (readBtreeLeafRecordsInto true strayRead ⟨[], []⟩).stop = some .outOfBounds := by
  have hinside : readEntriesTouching false strayRead ⟨true, 0, 0, 0, 0⟩ strayNode
      (nodeViewOf strayRoot) strayRoot (nodeViewOf strayRoot).keyCount 0 ⟨[], [], []⟩ =
      (⟨[], [], [⟨[0x2A, 0, 0, 0], [7, 0, 0, 0]⟩]⟩, none) := by decide +kernel
  have hstray : readEntriesTouching true strayRead ⟨true, 0, 0, 0, 0⟩ strayNode
      (nodeViewOf strayRoot) strayRoot (nodeViewOf strayRoot).keyCount 0 ⟨[], [], []⟩ =
      (⟨[], [], []⟩, some .outOfBounds) := by decide +kernel
  refine ⟨rfl, ?_, ?_⟩
  · rw [readBtreeLeafRecordsInto, ReadOutput.clear, readBtreeLeafRecordsBody_stray, hinside]
    simp only [walkInto_nil]
    rfl
  · rw [readBtreeLeafRecordsInto, ReadOutput.clear, readBtreeLeafRecordsBody_stray, hstray]
    rfl

end Btree
end ApfsAccess
