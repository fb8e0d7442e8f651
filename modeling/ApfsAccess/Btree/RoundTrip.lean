import ApfsAccess.Btree.Levels
import ApfsAccess.Btree.NodeRead

/-!
# Reading a tree back

The walk reads a tree breadth first, so it meets the levels from the root down.  At
the beginning of a level its queue holds the pending children of the parent records
of that level, and after the level it holds the children of all records of the level
one below: the parent records are cut into nodes, and the children of a list of
records do not depend on where it is cut.

* `walk_level` : one level, by induction over its nodes.
* `walk_levels` : all levels, by induction over the loop of the writer.
* `readBtreeLeafRecords_serialize` : the round trip.
-/

namespace ApfsAccess
namespace Btree

open Format ByteBuffer Extents Sorting

variable {request : BtreeRead} {options : AppleBtreeOptions} {totals : TreeTotals}

/-! ## The walk -/

theorem walk_nil (visited : List ℕ) (layout : TreeLayout) (records : List BtreeRecord) :
    walk request ⟨[], visited, layout, records⟩ = .ok ⟨[], visited, layout, records⟩ := by
  rw [walk]

/-- One step of the walk onto a new node. -/
theorem walk_cons {current : PendingNode} {pending : List PendingNode} {visited : List ℕ}
    {layout layout' : TreeLayout} {records : List BtreeRecord} {entries : EntryState}
    (hnew : current.physicalBlock ∉ visited) (hbound : visited.length + 1 ≤ maxVisitedBlocks)
    (hread : readNode request layout current = .ok (layout', entries)) :
    walk request ⟨current :: pending, visited, layout, records⟩ =
      walk request ⟨pending ++ entries.children, current.physicalBlock :: visited, layout',
        records ++ entries.records⟩ := by
  rw [walk]
  simp only
  rw [if_neg hnew, dif_neg (by omega), hread]

/-! ## Parent records -/

theorem childrenPending_cons (level : ℕ) (record : BtreeRecord) (records : List BtreeRecord)
    (upper : Bytes) :
    childrenPending request level (record :: records) upper =
      childPending request level record ((records.head?.map BtreeRecord.key).getD upper) ::
        childrenPending request level records upper := by
  cases records with
  | nil => rfl
  | cons next records => rfl

theorem childrenPending_append (level : ℕ) (front back : List BtreeRecord) (upper : Bytes) :
    childrenPending request level (front ++ back) upper =
      childrenPending request level front ((back.head?.map BtreeRecord.key).getD upper) ++
        childrenPending request level back upper := by
  cases back with
  | nil => simp [childrenPending]
  | cons record back => exact childrenPending_append_cons level front record back upper

/-- The first key of a level is the key of its first parent record. -/
theorem head?_flatMap_records {nodes : List PendingTreeNode}
    (h : ∀ node ∈ nodes, node.records ≠ []) :
    (nodes.flatMap PendingTreeNode.records).head?.map BtreeRecord.key =
      (nodes.map parentRecord).head?.map BtreeRecord.key := by
  cases nodes with
  | nil => rfl
  | cons node nodes =>
    obtain ⟨record, records, hrecords⟩ :=
      List.exists_cons_of_ne_nil (h node (List.mem_cons_self ..))
    rw [List.flatMap_cons, hrecords]
    simp [parentRecord, hrecords]

/-- A node below the root that is where its parent says. -/
structure ChildPlaced (request : BtreeRead) (options : AppleBtreeOptions) (totals : TreeTotals)
    (node : PendingTreeNode) : Prop where
  built : ∃ bytes, BuiltNode options totals node false bytes ∧
    request.source.Holds options.blockSize node.physicalBlock bytes
  identity : ChildIdentity options node.objectId node.physicalBlock
  resolves : (resolved request node.objectId).1 = node.physicalBlock
  mappingXid : ∀ xid ∈ (resolved request node.objectId).2, options.xid ≤ xid

theorem ChildPlaced.leValue_parentRecord {node : PendingTreeNode}
    (h : ChildPlaced request options totals node) :
    leValue (parentRecord node).value = node.objectId :=
  leValue_leBytes h.identity.oid_lt

theorem ChildPlaced.childResolves {node : PendingTreeNode}
    (h : ChildPlaced request options totals node) : ChildResolves request (parentRecord node) := by
  unfold ChildResolves
  rw [h.leValue_parentRecord, h.resolves]
  exact ⟨h.identity.oid_ne, h.identity.block_ne⟩

/-- What holds of the records of every level. -/
structure LevelRecords (request : BtreeRead) (options : AppleBtreeOptions) (level : ℕ)
    (records : List BtreeRecord) : Prop where
  keys : ∀ record ∈ records, record.key ≠ [] ∧ KeyValid options.keyOrder record.key
  sorted : records.Pairwise
    fun a b => keyRank options.keyOrder a.key < keyRank options.keyOrder b.key
  ghosts : level = 0 → GhostsFixed options records
  children : level ≠ 0 → ∀ record ∈ records, ChildResolves request record

theorem LevelRecords.sublist {level : ℕ} {records records' : List BtreeRecord}
    (h : LevelRecords request options level records) (hsub : records'.Sublist records) :
    LevelRecords request options level records' :=
  ⟨fun record hrecord => h.keys record (hsub.subset hrecord), h.sorted.sublist hsub,
    fun hlevel record hrecord => h.ghosts hlevel record (hsub.subset hrecord),
    fun hlevel record hrecord => h.children hlevel record (hsub.subset hrecord)⟩

/-- The keys of the parent records are keys of the level. -/
theorem parentRecord_keys_sublist {nodes : List PendingTreeNode}
    (h : ∀ node ∈ nodes, node.records ≠ []) :
    ((nodes.map parentRecord).map BtreeRecord.key).Sublist
      ((nodes.flatMap PendingTreeNode.records).map BtreeRecord.key) := by
  induction nodes with
  | nil => exact List.Sublist.refl _
  | cons node nodes ih =>
    obtain ⟨hnode, hnodes⟩ := List.forall_mem_cons.mp h
    obtain ⟨record, records, hrecords⟩ := List.exists_cons_of_ne_nil hnode
    have hkey : (parentRecord node).key = record.key := by
      simp [parentRecord, hrecords]
    rw [List.map_cons, List.map_cons, List.flatMap_cons, List.map_append, hrecords,
      List.map_cons, hkey, List.cons_append]
    exact ((ih hnodes).trans (List.sublist_append_right _ _)).cons_cons _

/-- The parent records of a level are again the records of a level. -/
theorem LevelRecords.parents {level : ℕ} {nodes : List PendingTreeNode}
    (h : LevelRecords request options level (nodes.flatMap PendingTreeNode.records))
    (hnonempty : ∀ node ∈ nodes, node.records ≠ [])
    (hplaced : ∀ node ∈ nodes, ChildPlaced request options totals node) :
    LevelRecords request options (level + 1) (nodes.map parentRecord) := by
  have hsub := parentRecord_keys_sublist hnonempty
  refine ⟨fun record hrecord => ?_, ?_, fun hzero => by omega, fun _ record hrecord => ?_⟩
  · have hkey := hsub.subset (List.mem_map_of_mem hrecord)
    obtain ⟨other, hother, heq⟩ := List.mem_map.mp hkey
    rw [← heq]
    exact h.keys other hother
  · have hsorted : ((nodes.flatMap PendingTreeNode.records).map BtreeRecord.key).Pairwise
        fun a b => keyRank options.keyOrder a < keyRank options.keyOrder b :=
      List.pairwise_map.mpr h.sorted
    have hparents : ((nodes.map parentRecord).map BtreeRecord.key).Pairwise
        fun a b => keyRank options.keyOrder a < keyRank options.keyOrder b :=
      hsorted.sublist hsub
    rwa [List.pairwise_map] at hparents
  · obtain ⟨node, hnode, rfl⟩ := List.mem_map.mp hrecord
    exact (hplaced node hnode).childResolves

/-! ## One level -/

/-- An upper bound of some records, where there is one. -/
def BoundedBy (options : AppleBtreeOptions) (upper : Bytes) (records : List BtreeRecord) : Prop :=
  upper = [] ∨ (KeyValid options.keyOrder upper ∧
    ∀ record ∈ records, keyRank options.keyOrder record.key < keyRank options.keyOrder upper)

/-- The first of two adjacent parts of a level is bounded by the first key of the second. -/
theorem LevelRecords.boundedBy {level : ℕ} {front back : List BtreeRecord} {upper : Bytes}
    (h : LevelRecords request options level (front ++ back))
    (hupper : BoundedBy options upper (front ++ back)) :
    BoundedBy options ((back.head?.map BtreeRecord.key).getD upper) front := by
  cases back with
  | nil => simpa using hupper
  | cons record back =>
    have hkeys := h.keys record (by simp)
    refine .inr ⟨hkeys.2, fun other hother => ?_⟩
    exact (List.pairwise_append.mp h.sorted).2.2 other hother record (List.mem_cons_self ..)

/-- The first node of a level, as the walk meets it. -/
theorem readNode_child (hreads : ReadsTree request options) (hoptions : OptionsValid options)
    (hkeys : totals.leafKeyCount < 2 ^ 64) (hnodes : totals.nodeCount < 2 ^ 64)
    {node : PendingTreeNode} {upper : Bytes}
    (hplaced : ChildPlaced request options totals node) (hlevel : node.level < 0xFFFF)
    (hnonempty : node.records ≠ [])
    (hrecords : LevelRecords request options node.level node.records)
    (hupper : BoundedBy options upper node.records) :
    readNode request (layoutOf options totals)
        (childPending request (node.level + 1) (parentRecord node) upper) =
      .ok (layoutOf options totals, entriesState request node.level upper node.records) := by
  obtain ⟨bytes, hbuilt, hholds⟩ := hplaced.built
  obtain ⟨record, records, hcons⟩ := List.exists_cons_of_ne_nil hnonempty
  have hid := hplaced.leValue_parentRecord
  refine readNode_built hreads hoptions hbuilt hholds
    ⟨hrecords.keys, hrecords.sorted, .inr ?_, hupper, hrecords.ghosts, hrecords.children⟩
    hplaced.identity.oid_lt hlevel ?_ hid rfl ?_ ?_ (fun _ => hnonempty) (fun _ => rfl) hkeys hnodes
  · simp [childPending, parentRecord, hcons]
  · show (resolved request (leValue (parentRecord node).value)).1 = _
    rw [hid, hplaced.resolves]
  · rintro expected hexpected
    simpa [childPending] using hexpected.symm
  · show ∀ xid ∈ (resolved request (leValue (parentRecord node).value)).2, _
    rw [hid]
    exact hplaced.mappingXid

/-- **One level.**  The queue that held the nodes of a level holds the children of its
records afterwards. -/
theorem walk_level (hreads : ReadsTree request options) (hoptions : OptionsValid options)
    (hkeys : totals.leafKeyCount < 2 ^ 64) (hnodeCount : totals.nodeCount < 2 ^ 64) {level : ℕ}
    (hlevel : level < 0xFFFF) (nodes : List PendingTreeNode) :
    ∀ (upper : Bytes) (pending : List PendingNode) (visited : List ℕ) (out : List BtreeRecord),
      (∀ node ∈ nodes, ChildPlaced request options totals node) →
      (∀ node ∈ nodes, node.records ≠ []) → (∀ node ∈ nodes, node.level = level) →
      LevelRecords request options level (nodes.flatMap PendingTreeNode.records) →
      BoundedBy options upper (nodes.flatMap PendingTreeNode.records) →
      (nodes.map PendingTreeNode.physicalBlock).Nodup →
      (∀ node ∈ nodes, node.physicalBlock ∉ visited) →
      visited.length + nodes.length ≤ maxVisitedBlocks →
      walk request ⟨childrenPending request (level + 1) (nodes.map parentRecord) upper ++ pending,
          visited, layoutOf options totals, out⟩ =
        walk request
          ⟨pending ++ (entriesState request level upper
              (nodes.flatMap PendingTreeNode.records)).children,
            (nodes.map PendingTreeNode.physicalBlock).reverse ++ visited, layoutOf options totals,
            out ++ (entriesState request level upper
              (nodes.flatMap PendingTreeNode.records)).records⟩ := by
  induction nodes with
  | nil =>
    intro upper pending visited out _ _ _ _ _ _ _ _
    simp [childrenPending, entriesState]
  | cons node nodes ih =>
    intro upper pending visited out hplaced hnonempty hlevels hrecords hupper hnodup hfresh hbound
    obtain ⟨hplacedNode, hplacedNodes⟩ := List.forall_mem_cons.mp hplaced
    obtain ⟨hnonemptyNode, hnonemptyNodes⟩ := List.forall_mem_cons.mp hnonempty
    obtain ⟨rfl, hlevelNodes⟩ := List.forall_mem_cons.mp hlevels
    obtain ⟨hfreshNode, hfreshNodes⟩ := List.forall_mem_cons.mp hfresh
    obtain ⟨hnotMem, hnodupNodes⟩ := List.nodup_cons.mp hnodup
    rw [List.flatMap_cons] at hrecords hupper
    rw [List.length_cons] at hbound
    set rest := nodes.flatMap PendingTreeNode.records with hrest
    set next := (rest.head?.map BtreeRecord.key).getD upper with hnext
    have hhead : ((nodes.map parentRecord).head?.map BtreeRecord.key).getD upper = next := by
      rw [hnext, hrest, head?_flatMap_records hnonemptyNodes]
    have hread : readNode request (layoutOf options totals)
        (childPending request (node.level + 1) (parentRecord node) next) =
        .ok (layoutOf options totals, entriesState request node.level next node.records) :=
      readNode_child hreads hoptions hkeys hnodeCount hplacedNode hlevel hnonemptyNode
        (hrecords.sublist (List.sublist_append_left _ _)) (hrecords.boundedBy hupper)
    have hblock : (childPending request (node.level + 1) (parentRecord node) next).physicalBlock =
        node.physicalBlock := by
      show (resolved request (leValue (parentRecord node).value)).1 = _
      rw [hplacedNode.leValue_parentRecord, hplacedNode.resolves]
    rw [List.map_cons, childrenPending_cons, hhead, List.cons_append,
      walk_cons (by rw [hblock]; exact hfreshNode) (by omega) hread, hblock, List.append_assoc]
    rw [ih upper _ _ _ hplacedNodes hnonemptyNodes hlevelNodes
      (hrecords.sublist (List.sublist_append_right _ _))
      (hupper.imp_right fun h => ⟨h.1, fun record hrecord =>
        h.2 record (List.mem_append_right _ hrecord)⟩) hnodupNodes ?_ (by rw [List.length_cons]; omega)]
    · -- the children and the records of the two parts are those of the whole
      have hchildren : (entriesState request node.level next node.records).children ++
          (entriesState request node.level upper rest).children =
          (entriesState request node.level upper (node.records ++ rest)).children := by
        unfold entriesState
        dsimp only
        split
        · rfl
        · rw [childrenPending_append, ← hnext]
      have hout : (entriesState request node.level next node.records).records ++
          (entriesState request node.level upper rest).records =
          (entriesState request node.level upper (node.records ++ rest)).records := by
        unfold entriesState
        dsimp only
        split <;> rfl
      rw [List.append_assoc, hchildren, List.append_assoc, hout, List.flatMap_cons, List.map_cons,
        List.reverse_cons, List.append_assoc]
      rfl
    · intro other hother hmem
      rcases List.mem_cons.mp hmem with heq | hvisited
      · exact hnotMem (heq ▸ List.mem_map_of_mem hother)
      · exact hfreshNodes other hother hvisited

/-! ## All levels -/

/-- One level of the chain, with the queue that its parents left. -/
theorem walk_packedLevel (hreads : ReadsTree request options) (hoptions : OptionsValid options)
    (hkeys : totals.leafKeyCount < 2 ^ 64) (hnodeCount : totals.nodeCount < 2 ^ 64)
    {nonrootNodes levelNodes : List PendingTreeNode} {level : ℕ} {records : List BtreeRecord}
    (hpacked : PackedLevel options level nonrootNodes.length records levelNodes)
    (hplaced : ∀ node ∈ nonrootNodes ++ levelNodes, ChildPlaced request options totals node)
    (hnodup : ((nonrootNodes ++ levelNodes).map PendingTreeNode.physicalBlock).Nodup)
    (hlevel : level < 0xFFFF) (hrecords : LevelRecords request options level records) :
    LevelRecords request options (level + 1) (levelNodes.map parentRecord) ∧
      ∀ (visited : List ℕ) (out : List BtreeRecord),
        (∀ node ∈ nonrootNodes ++ levelNodes, node.physicalBlock ∉ visited) →
        visited.length + levelNodes.length ≤ maxVisitedBlocks →
        ∃ visited', visited'.length = visited.length + levelNodes.length ∧
          (∀ node ∈ nonrootNodes, node.physicalBlock ∉ visited') ∧
          walk request ⟨childrenPending request (level + 1) (levelNodes.map parentRecord) [],
              visited, layoutOf options totals, out⟩ =
            walk request ⟨(entriesState request level [] records).children, visited',
              layoutOf options totals, out ++ (entriesState request level [] records).records⟩ := by
  have hplacedLevel : ∀ node ∈ levelNodes, ChildPlaced request options totals node :=
    fun node hnode => hplaced node (List.mem_append_right _ hnode)
  rw [← hpacked.records] at hrecords ⊢
  refine ⟨hrecords.parents hpacked.nonempty hplacedLevel, fun visited out hfresh hbound => ?_⟩
  rw [List.map_append, List.nodup_append] at hnodup
  have hwalk := walk_level hreads hoptions hkeys hnodeCount hlevel levelNodes [] [] visited out
    hplacedLevel hpacked.nonempty hpacked.level hrecords (.inl rfl) hnodup.2.1
    (fun node hnode => hfresh node (List.mem_append_right _ hnode)) hbound
  refine ⟨_, ?_, ?_, by simpa using hwalk⟩
  · rw [List.length_append, List.length_reverse, List.length_map]
    omega
  · intro node hnode hmem
    rcases List.mem_append.mp hmem with hlevelMem | hvisited
    · exact hnodup.2.2 _ (List.mem_map_of_mem hnode) _ (List.mem_reverse.mp hlevelMem) rfl
    · exact hfresh node (List.mem_append_left _ hnode) hvisited

/-- **All levels.**  By induction over the levels of the writer: the walk comes down from
the root to the records of the level the chain starts at. -/
theorem walk_levels (hreads : ReadsTree request options) (hoptions : OptionsValid options)
    (hkeys : totals.leafKeyCount < 2 ^ 64) (hnodeCount : totals.nodeCount < 2 ^ 64)
    {nonrootNodes nodes : List PendingTreeNode} {level rootLevel : ℕ}
    {records rootRecords : List BtreeRecord}
    (hchain : LevelChain options nonrootNodes level records nodes rootLevel rootRecords)
    (hplaced : ∀ node ∈ nodes, ChildPlaced request options totals node)
    (hnodup : (nodes.map PendingTreeNode.physicalBlock).Nodup)
    (hne : records ≠ []) (hlevel : level ≤ nonrootNodes.length) (hheight : nodes.length < 0xFFFF)
    (hrecords : LevelRecords request options level records) :
    LevelRecords request options rootLevel rootRecords ∧
      ∀ (visited : List ℕ) (out : List BtreeRecord),
        (∀ node ∈ nodes, node.physicalBlock ∉ visited) →
        visited.length + nodes.length ≤ maxVisitedBlocks + nonrootNodes.length →
        ∃ visited', visited'.length + nonrootNodes.length = visited.length + nodes.length ∧
          (∀ node ∈ nonrootNodes, node.physicalBlock ∉ visited') ∧
          walk request ⟨childrenPending request rootLevel rootRecords [], visited,
              layoutOf options totals, out⟩ =
            walk request ⟨(entriesState request level [] records).children, visited',
              layoutOf options totals, out ++ (entriesState request level [] records).records⟩ := by
  induction hchain with
  | @top nonrootNodes levelNodes level records hpacked =>
    rw [List.length_append] at hheight
    obtain ⟨hroot, hwalk⟩ := walk_packedLevel hreads hoptions hkeys hnodeCount hpacked hplaced
      hnodup (by omega) hrecords
    refine ⟨hroot, fun visited out hfresh hbound => ?_⟩
    rw [List.length_append] at hbound
    obtain ⟨visited', hlength, hnot, heq⟩ := hwalk visited out hfresh (by omega)
    exact ⟨visited', by rw [List.length_append]; omega, hnot, heq⟩
  | @up nonrootNodes levelNodes nodes level rootLevel records rootRecords hpacked hrest ih =>
    have hinitial : (nonrootNodes ++ levelNodes).IsPrefix nodes := by
      obtain ⟨_, _, hinitial⟩ := hrest.exists_levelNodes
      exact (List.prefix_append _ _).trans hinitial
    have hle := hinitial.length_le
    rw [List.length_append] at hle
    have hpos := List.length_pos_iff.mpr (hpacked.ne_nil hne)
    obtain ⟨hparents, hwalk⟩ := walk_packedLevel hreads hoptions hkeys hnodeCount hpacked
      (fun node hnode => hplaced node (hinitial.subset hnode))
      (hnodup.sublist (hinitial.sublist.map _)) (by omega) hrecords
    obtain ⟨hroot, hwalkAbove⟩ := ih hplaced hnodup
      (by simpa using hpacked.ne_nil hne) (by rw [List.length_append]; omega) hheight hparents
    refine ⟨hroot, fun visited out hfresh hbound => ?_⟩
    rw [List.length_append] at hwalkAbove
    obtain ⟨visited₁, hlength₁, hnot₁, heq₁⟩ := hwalkAbove visited out hfresh (by omega)
    have hstate : (entriesState request (level + 1) [] (levelNodes.map parentRecord)).children =
        childrenPending request (level + 1) (levelNodes.map parentRecord) [] ∧
        (entriesState request (level + 1) [] (levelNodes.map parentRecord)).records = [] :=
      ⟨rfl, rfl⟩
    rw [hstate.1, hstate.2, List.append_nil] at heq₁
    obtain ⟨visited₂, hlength₂, hnot₂, heq₂⟩ := hwalk visited₁ out hnot₁ (by omega)
    exact ⟨visited₂, by omega, hnot₂, heq₁.trans heq₂⟩

/-! ## The tree -/

theorem buildNodes_spec {nodes : List PendingTreeNode} {objects : List AppleSerializedObject}
    (h : buildNodes options totals nodes = .ok objects) :
    ∀ node ∈ nodes, ∃ object ∈ objects, buildNode node false options totals = .ok object := by
  induction nodes generalizing objects with
  | nil => simp
  | cons node nodes ih =>
    unfold buildNodes at h
    split at h
    · cases h
    · rename_i object hobject
      cases hrest : buildNodes options totals nodes with
      | error text =>
        rw [hrest] at h
        cases h
      | ok rest =>
        rw [hrest] at h
        obtain rfl := Except.ok.inj h
        refine List.forall_mem_cons.mpr ⟨⟨object, List.mem_cons_self .., hobject⟩, ?_⟩
        intro other hother
        obtain ⟨object', hmem, hbuilt⟩ := ih hrest other hother
        exact ⟨object', List.mem_cons_of_mem _ hmem, hbuilt⟩

/-- The root of a tree. -/
def rootNode (options : AppleBtreeOptions) (level : ℕ) (records : List BtreeRecord) :
    PendingTreeNode :=
  ⟨options.rootObjectId, options.rootPhysicalBlock, level, records⟩

/-- The parts of a serialized tree: all nodes below the root, none if the root is a leaf, and
the root's level and records. -/
structure SerializedParts (options : AppleBtreeOptions) (sorted : List BtreeRecord)
    (tree : AppleSerializedBtree) (nodes : List PendingTreeNode) (rootLevel : ℕ)
    (rootRecords : List BtreeRecord) (root : AppleSerializedObject) : Prop where
  shape : (nodes = [] ∧ rootLevel = 0 ∧ rootRecords = sorted) ∨
    (sorted ≠ [] ∧ LevelChain options [] 0 sorted nodes rootLevel rootRecords)
  rootObjectId : tree.rootObjectId = options.rootObjectId
  root_mem : root ∈ tree.objects
  rootBuilt : buildNode (rootNode options rootLevel rootRecords) true options
    (treeTotals options sorted (nodes.length + 1)) = .ok root
  nodesBuilt : ∀ node ∈ nodes, ∃ object ∈ tree.objects,
    buildNode node false options (treeTotals options sorted (nodes.length + 1)) = .ok object

/-- An empty leaf fits in a root. -/
theorem nodeFits_nil (hoptions : OptionsValid options) : nodeFits [] true true options = true := by
  have hblock := hoptions.blockSize_ge
  have htable : tableBytes options true 0 = 0 := by
    unfold tableBytes
    rw [Nat.zero_mul, storedLength_zero]
  unfold nodeFits nodeFitsFrom
  rw [List.length_nil, htable]
  simp only [if_true, btreeNodeHeaderBytes, btreeInfoBytes, decide_eq_true_eq]
  omega

theorem serializeAppleBtree_parts {records : List BtreeRecord} {tree : AppleSerializedBtree}
    (h : serializeAppleBtree records options = .ok tree) :
    OptionsValid options ∧ ∃ sorted, sortAppleBtreeRecords records options.keyOrder = .ok sorted ∧
      ∃ nodes rootLevel rootRecords root,
        SerializedParts options sorted tree nodes rootLevel rootRecords root := by
  unfold serializeAppleBtree at h
  obtain ⟨⟨⟩, hvalidate, h⟩ := bind_eq_ok_iff.mp h
  obtain ⟨sorted, hsort, h⟩ := bind_eq_ok_iff.mp h
  have hoptions := validateOptions_spec hvalidate
  refine ⟨hoptions, sorted, hsort, ?_⟩
  split at h
  · obtain ⟨root, hroot, h⟩ := bind_eq_ok_iff.mp h
    obtain rfl := Except.ok.inj h
    exact ⟨[], 0, sorted, root, .inl ⟨rfl, rfl, rfl⟩, rfl, List.mem_singleton_self root, hroot,
      by simp⟩
  · rename_i hfits
    obtain ⟨⟨nodes, rootLevel, rootRecords⟩, hlevels, h⟩ := bind_eq_ok_iff.mp h
    obtain ⟨objects, hobjects, h⟩ := bind_eq_ok_iff.mp h
    obtain ⟨root, hroot, h⟩ := bind_eq_ok_iff.mp h
    obtain rfl := Except.ok.inj h
    refine ⟨nodes, rootLevel, rootRecords, root, .inr ⟨?_, buildLevels_levelChain hlevels⟩, rfl,
      by simp, hroot, fun node hnode => ?_⟩
    · rintro rfl
      exact hfits (nodeFits_nil hoptions)
    · obtain ⟨object, hmem, hbuilt⟩ := buildNodes_spec hobjects node hnode
      exact ⟨object, List.mem_append_left _ hmem, hbuilt⟩

/-- Every emitted object is where it belongs, and the walk finds every child there. -/
structure TreePlaced (request : BtreeRead) (options : AppleBtreeOptions)
    (tree : AppleSerializedBtree) : Prop where
  holds : ∀ object ∈ tree.objects,
    request.source.Holds options.blockSize object.location.physicalBlock object.bytes
  resolves : ∀ object ∈ tree.objects, object.location.objectId ≠ tree.rootObjectId →
    ∃ mappingXid, resolveChild request object.location.objectId =
        .ok (object.location.physicalBlock, mappingXid) ∧
      ∀ xid ∈ mappingXid, options.xid ≤ xid

theorem TreePlaced.childPlaced {tree : AppleSerializedBtree}
    (h : TreePlaced request options tree) (hroot : tree.rootObjectId = options.rootObjectId)
    {node : PendingTreeNode} {object : AppleSerializedObject} (hmem : object ∈ tree.objects)
    (hbuilt : buildNode node false options totals = .ok object)
    (hidentity : ChildIdentity options node.objectId node.physicalBlock) :
    ChildPlaced request options totals node := by
  obtain ⟨hlocation, hspec⟩ := buildNode_spec hbuilt
  have hholds := h.holds object hmem
  have hresolves := h.resolves object hmem
  rw [hlocation] at hholds hresolves
  obtain ⟨mappingXid, hresolve, hxid⟩ := hresolves (by rw [hroot]; exact hidentity.oid_ne_root)
  have hresolved : resolved request node.objectId = (node.physicalBlock, mappingXid) := by
    unfold resolved
    rw [show resolveChild request node.objectId = .ok (node.physicalBlock, mappingXid) from hresolve]
  exact ⟨⟨object.bytes, hspec, hholds⟩, hidentity, by rw [hresolved], by rw [hresolved]; exact hxid⟩

/-- The node the walk starts with. -/
def rootPending (request : BtreeRead) : PendingNode :=
  { physicalBlock := request.rootBlock
    objectId := request.policy.rootObjectId
    root := true
    expectedLevel := none
    mappingXid := request.rootMappingXid
    lower := []
    upper := [] }

/-- Reading the root. -/
theorem readNode_root (hreads : ReadsTree request options) (hoptions : OptionsValid options)
    (hkeys : totals.leafKeyCount < 2 ^ 64) (hnodeCount : totals.nodeCount < 2 ^ 64)
    {layout : TreeLayout} {rootLevel : ℕ} {rootRecords : List BtreeRecord} {bytes : Bytes}
    (hbuilt : BuiltNode options totals (rootNode options rootLevel rootRecords) true bytes)
    (hholds : request.source.Holds options.blockSize options.rootPhysicalBlock bytes)
    (hlevel : rootLevel < 0xFFFF) (hnonempty : rootLevel ≠ 0 → rootRecords ≠ [])
    (hrecords : LevelRecords request options rootLevel rootRecords) :
    readNode request layout (rootPending request) =
      .ok (layoutOf options totals, entriesState request rootLevel [] rootRecords) :=
  readNode_built hreads hoptions hbuilt hholds
    ⟨hrecords.keys, hrecords.sorted, .inl rfl, .inl rfl, hrecords.ghosts, hrecords.children⟩
    options.rootObjectId_lt hlevel hreads.rootBlock hreads.rootObjectId rfl
    (by simp [rootPending]) hreads.rootMappingXid
    (fun h => hnonempty (h.resolve_left (by decide))) (fun h => by cases h) hkeys hnodeCount

/-- The totals of a tree that was built are stored as they are. -/
theorem SerializedParts.totals_lt {sorted : List BtreeRecord} {tree : AppleSerializedBtree}
    {nodes : List PendingTreeNode} {rootLevel : ℕ} {rootRecords : List BtreeRecord}
    {root : AppleSerializedObject}
    (h : SerializedParts options sorted tree nodes rootLevel rootRecords root)
    (hoptions : OptionsValid options) (hnodes : nodes.length < 4096) : sorted.length < 2 ^ 64 := by
  rcases h.shape with ⟨rfl, rfl, rfl⟩ | ⟨-, hchain⟩
  · have hcount : rootRecords.length ≤ 65536 :=
      ((buildNode_spec h.rootBuilt).2.bounds hoptions).2.2.2
    omega
  · have hcount : sorted.length ≤ nodes.length * 65536 := by
      refine hchain.length_records_le fun node hnode => ?_
      obtain ⟨object, -, hbuilt⟩ := h.nodesBuilt node hnode
      exact ((buildNode_spec hbuilt).2.bounds hoptions).2.2.2
    omega

theorem SerializedParts.identified {sorted : List BtreeRecord} {tree : AppleSerializedBtree}
    {nodes : List PendingTreeNode} {rootLevel : ℕ} {rootRecords : List BtreeRecord}
    {root : AppleSerializedObject}
    (h : SerializedParts options sorted tree nodes rootLevel rootRecords root) :
    Identified options 0 nodes := by
  rcases h.shape with ⟨rfl, -, -⟩ | ⟨-, hchain⟩
  · exact identified_nil 0
  · exact hchain.identified (identified_nil 0)

/-- The walk of a tree that is in place: the root first, then all levels below it. -/
theorem walk_parts (hreads : ReadsTree request options) (hoptions : OptionsValid options)
    {sorted : List BtreeRecord} {tree : AppleSerializedBtree} {nodes : List PendingTreeNode}
    {rootLevel : ℕ} {rootRecords : List BtreeRecord} {root : AppleSerializedObject}
    (hparts : SerializedParts options sorted tree nodes rootLevel rootRecords root)
    (hplaced : TreePlaced request options tree)
    (hsorted : LevelRecords request options 0 sorted) (layout : TreeLayout) :
    ∃ visited, visited.length = nodes.length + 1 ∧
      walk request ⟨[rootPending request], [], layout, []⟩ =
        .ok ⟨[], visited, layoutOf options (treeTotals options sorted (nodes.length + 1)),
          sorted⟩ := by
  have hidentified := hparts.identified
  have hnodesLe := hidentified.length_le (Nat.zero_le _)
  have hmaxNodes := hoptions.maxNodes_le
  have hmaxPos := hoptions.maxNodes_pos
  have hkeys : (treeTotals options sorted (nodes.length + 1)).leafKeyCount < 2 ^ 64 :=
    hparts.totals_lt hoptions (by omega)
  have hnodeCount : (treeTotals options sorted (nodes.length + 1)).nodeCount < 2 ^ 64 := by
    show nodes.length + 1 < 2 ^ 64
    omega
  obtain ⟨hrootLocation, hrootSpec⟩ := buildNode_spec hparts.rootBuilt
  have hrootHolds : request.source.Holds options.blockSize options.rootPhysicalBlock
      root.bytes := by
    have := hplaced.holds root hparts.root_mem
    rwa [hrootLocation] at this
  rcases hparts.shape with ⟨rfl, rfl, rfl⟩ | ⟨hne, hchain⟩
  · -- the root is a leaf
    have hread : readNode request layout (rootPending request) = .ok (_, _) :=
      readNode_root hreads hoptions hkeys hnodeCount hrootSpec hrootHolds (by decide)
        (fun h => absurd rfl h) hsorted
    refine ⟨[(rootPending request).physicalBlock], rfl, ?_⟩
    rw [walk_cons (by simp) (by decide) hread]
    exact walk_nil _ _ _
  · have hplacedNodes : ∀ node ∈ nodes, ChildPlaced request options
        (treeTotals options sorted (nodes.length + 1)) node := by
      intro node hnode
      obtain ⟨object, hmem, hbuilt⟩ := hparts.nodesBuilt node hnode
      exact hplaced.childPlaced hparts.rootObjectId hmem hbuilt
        (hidentified.childIdentity node hnode)
    obtain ⟨hheight, hpositive, hrootNe⟩ := hchain.rootLevel_le hne le_rfl
    obtain ⟨hrootRecords, hwalk⟩ := walk_levels hreads hoptions hkeys hnodeCount hchain
      hplacedNodes hidentified.nodup hne le_rfl (by omega) hsorted
    have hread : readNode request layout (rootPending request) = .ok (_, _) :=
      readNode_root hreads hoptions hkeys hnodeCount hrootSpec hrootHolds (by omega)
        (fun _ => hrootNe) hrootRecords
    have hfresh : ∀ node ∈ nodes, node.physicalBlock ∉ [(rootPending request).physicalBlock] := by
      intro node hnode hmem
      refine (hidentified.childIdentity node hnode).block_ne_root ?_
      rw [List.mem_singleton.mp hmem]
      exact hreads.rootBlock
    obtain ⟨visited, hlength, -, heq⟩ := hwalk [(rootPending request).physicalBlock] [] hfresh
      (by simp only [List.length_singleton, List.length_nil, maxVisitedBlocks]; omega)
    refine ⟨visited, by simpa [Nat.add_comm] using hlength, ?_⟩
    rw [walk_cons (by simp) (by decide) hread]
    have hstate : (entriesState request rootLevel [] rootRecords).children =
        childrenPending request rootLevel rootRecords [] ∧
        (entriesState request rootLevel [] rootRecords).records = [] := by
      unfold entriesState
      simp [show rootLevel ≠ 0 by omega]
    rw [hstate.1, hstate.2, List.nil_append, List.append_nil, heq]
    exact walk_nil _ _ _

theorem readBtreeLeafRecords_parts (hreads : ReadsTree request options)
    (hoptions : OptionsValid options) {sorted : List BtreeRecord} {tree : AppleSerializedBtree}
    {nodes : List PendingTreeNode} {rootLevel : ℕ} {rootRecords : List BtreeRecord}
    {root : AppleSerializedObject}
    (hparts : SerializedParts options sorted tree nodes rootLevel rootRecords root)
    (hplaced : TreePlaced request options tree)
    (hsorted : LevelRecords request options 0 sorted) :
    readBtreeLeafRecords request = .ok sorted := by
  obtain ⟨visited, hvisited, hwalk⟩ := walk_parts hreads hoptions hparts hplaced hsorted
    ⟨false, 0, 0, 0, 0⟩
  have hblock := hoptions.blockSize_ge
  have hroot := hoptions.rootPhysicalBlock_ne
  unfold readBtreeLeafRecords
  dsimp only
  rw [rejectIf_bind_of_not _ _ (by simp [hreads.requireCompleteTraversal]),
    rejectIf_bind_of_not _ _ (by rw [hreads.blockSize, hreads.rootBlock]; omega)]
  show (walk request ⟨[rootPending request], [], ⟨false, 0, 0, 0, 0⟩, []⟩ >>= _) = _
  rw [hwalk, ok_bind, rejectIf_bind_of_not]
  · rfl
  · rintro ⟨-, hkeyCount | hcount⟩
    · exact hkeyCount rfl
    · exact hcount hvisited.symm

/-- **Writer and reader of a tree agree.**  Every list of records that the writer accepts is
read back from the blocks it emitted, in key order, each record once. -/
theorem readBtreeLeafRecords_serializeAppleBtree {records : List BtreeRecord}
    {tree : AppleSerializedBtree} (hserialize : serializeAppleBtree records options = .ok tree)
    (hghosts : GhostsFixed options records) (hreads : ReadsTree request options)
    (hplaced : TreePlaced request options tree) :
    ∃ sorted, readBtreeLeafRecords request = .ok sorted ∧ sorted.Perm records ∧
      sorted.Pairwise (KeyLt options.keyOrder) := by
  obtain ⟨hoptions, sorted, hsort, nodes, rootLevel, rootRecords, root, hparts⟩ :=
    serializeAppleBtree_parts hserialize
  obtain ⟨hperm, hkeys, hpairwise⟩ := sortAppleBtreeRecords_spec hsort
  refine ⟨sorted, ?_, hperm, ?_⟩
  · refine readBtreeLeafRecords_parts hreads hoptions hparts hplaced
      ⟨hkeys, hpairwise, fun _ record hrecord => ?_, fun hne => absurd rfl hne⟩
    exact hghosts record (hperm.subset hrecord)
  · exact hpairwise.imp_of_mem fun ha hb hlt => (keyLt_iff (hkeys _ ha).2 (hkeys _ hb).2).mpr hlt

/-! ## A sample tree -/

/-- A source that holds the blocks of some objects and nothing else. -/
def objectsSource (blockSize : ℕ) (objects : List AppleSerializedObject) : RandomAccessSource where
  sizeBytes := 2 ^ 64 - 1
  sizeBytes_lt := by norm_num
  read offset size :=
    (objects.find? fun object => object.location.physicalBlock * blockSize == offset).bind
      fun object =>
        if object.bytes.length = size ∧ offset + size ≤ 2 ^ 64 - 1 then some object.bytes else none
  length_of_read {offset size bytes} h := by
    obtain ⟨object, -, hobject⟩ := Option.bind_eq_some_iff.mp h
    split at hobject
    · rename_i hsize
      rw [← Option.some.inj hobject, hsize.1]
    · cases hobject
  le_of_read {offset size bytes} h := by
    obtain ⟨object, -, hobject⟩ := Option.bind_eq_some_iff.mp h
    split at hobject
    · rename_i hsize
      exact hsize.2
    · cases hobject

/-- Objects at different blocks are all held. -/
theorem objectsSource_holds {blockSize : ℕ} {objects : List AppleSerializedObject}
    (hsize : 0 < blockSize)
    (hnodup : (objects.map fun object => object.location.physicalBlock).Nodup)
    {object : AppleSerializedObject} (hmem : object ∈ objects)
    (hlength : object.bytes.length = blockSize)
    (hbound : object.location.physicalBlock * blockSize + blockSize ≤ 2 ^ 64 - 1) :
    (objectsSource blockSize objects).Holds blockSize object.location.physicalBlock
      object.bytes := by
  have hfind : (objects.find? fun other => other.location.physicalBlock * blockSize ==
      object.location.physicalBlock * blockSize) = some object := by
    induction objects with
    | nil => cases hmem
    | cons first objects ih =>
      rw [List.map_cons, List.nodup_cons] at hnodup
      rw [List.find?_cons]
      rcases List.mem_cons.mp hmem with rfl | hlater
      · simp
      · have hne : first.location.physicalBlock ≠ object.location.physicalBlock := by
          intro heq
          exact hnodup.1 (heq ▸ List.mem_map_of_mem hlater)
        have hbeq : (first.location.physicalBlock * blockSize ==
            object.location.physicalBlock * blockSize) = false :=
          beq_false_of_ne fun heq => hne (Nat.eq_of_mul_eq_mul_right hsize heq)
        rw [hbeq]
        exact ih hnodup.2 hlater
  show (Option.bind _ _) = _
  rw [hfind, Option.bind_some, if_pos ⟨hlength, hbound⟩]

/-- A computation that went through, as its value. -/
theorem eq_ok_of_isOk {α : Type} {result : Except String α} (h : result.isOk = true) (default : α) :
    result = .ok (result.toOption.getD default) := by
  cases result with
  | error text => cases h
  | ok value => rfl

/-- A physical tree of 4096-byte nodes. -/
def sampleOptions : AppleBtreeOptions where
  blockSize := 4096
  xid := 7
  rootObjectId := 10
  rootPhysicalBlock := 10
  firstChildObjectId := 11
  firstChildPhysicalBlock := 11
  childObjectIds := []
  childPhysicalBlocks := []
  storageType := objectPhysical
  subtype := 11
  treeFlags := btreePhysical
  fixedKeySize := 0
  fixedValueSize := 0
  minimumLongestKey := 0
  minimumLongestValue := 0
  keyOrder := .lexicographic
  maxNodes := 16
  xid_lt := by norm_num
  rootObjectId_lt := by norm_num
  firstChildObjectId_lt := by norm_num
  childObjectIds_lt := by simp
  subtype_lt := by norm_num
  treeFlags_lt := by norm_num [btreePhysical]

/-- Three records too large for one node, out of order. -/
def sampleRecords : List BtreeRecord :=
  [⟨List.replicate 1500 3, [30]⟩, ⟨List.replicate 1500 1, [10]⟩, ⟨List.replicate 1500 2, [20]⟩]

/-- The tree of the sample. -/
def sampleTree : AppleSerializedBtree :=
  (serializeAppleBtree sampleRecords sampleOptions).toOption.getD ⟨0, 0, 0, []⟩

/-- A strict walk over the blocks of the sample. -/
def sampleRead : BtreeRead where
  source := objectsSource 4096 sampleTree.objects
  blockSize := 4096
  rootBlock := 10
  childAddressesArePhysical := true
  childObjectMap := .error ""
  maxXidHint := 7
  policy :=
    { enforceObjectIdentity := true
      rootObjectId := 10
      storageType := objectPhysical
      subtype := 11
      includeGhostRecords := false
      ephemeralCheckpoint := none
      requireCompleteTraversal := true
      rejectUnsupportedFlags := true
      virtualChildResolver := none }
  compareKeys := some (routingCompare .lexicographic)
  rootMappingXid := none

theorem sampleRead_reads : ReadsTree sampleRead sampleOptions :=
  ⟨rfl, rfl, rfl, rfl, rfl, rfl, rfl, rfl, rfl, rfl, .inr le_rfl, by simp [sampleRead]⟩

theorem serialize_sample : (serializeAppleBtree sampleRecords sampleOptions).isOk = true ∧
    sampleTree.objects.map (fun object =>
        (object.location.physicalBlock, object.location.objectId, object.bytes.length)) =
      [(11, 11, 4096), (12, 12, 4096), (10, 10, 4096)] := by
  unfold sampleTree
  -- the footer of the root as one field: every field costs a walk to the end of the block
  simp only [serializeAppleBtree, buildNode, writeAll_infoFields]
  decide +kernel

theorem readBtreeLeafRecords_serializeAppleBtree_sample :
    serializeAppleBtree sampleRecords sampleOptions = .ok sampleTree ∧
      ∃ sorted, readBtreeLeafRecords sampleRead = .ok sorted ∧ sorted.Perm sampleRecords ∧
        sorted.Pairwise (KeyLt .lexicographic) := by
  obtain ⟨hok, hobjects⟩ := serialize_sample
  have hserialize := eq_ok_of_isOk hok ⟨0, 0, 0, []⟩
  have hblocks : (sampleTree.objects.map fun object => object.location.physicalBlock) =
      [11, 12, 10] := by
    have hfirst := congrArg (List.map Prod.fst) hobjects
    rw [List.map_map] at hfirst
    exact hfirst
  have hobject : ∀ object ∈ sampleTree.objects,
      object.location.objectId = object.location.physicalBlock ∧
        object.location.physicalBlock ≤ 12 ∧ object.bytes.length = 4096 := by
    intro object hmem
    have hrow := List.mem_map_of_mem (f := fun object : AppleSerializedObject =>
      (object.location.physicalBlock, object.location.objectId, object.bytes.length)) hmem
    rw [hobjects] at hrow
    simp only [List.mem_cons, Prod.mk.injEq, List.not_mem_nil, or_false] at hrow
    omega
  refine ⟨hserialize, readBtreeLeafRecords_serializeAppleBtree hserialize ?_ sampleRead_reads
    ⟨fun object hmem => ?_, fun object hmem _ => ⟨none, ?_, by simp⟩⟩⟩
  · intro record hrecord hempty
    simp only [sampleRecords, List.mem_cons, List.not_mem_nil, or_false] at hrecord
    rcases hrecord with rfl | rfl | rfl <;> cases hempty
  · obtain ⟨-, hle, hlength⟩ := hobject object hmem
    exact objectsSource_holds (by norm_num [sampleOptions]) (by rw [hblocks]; decide) hmem hlength
      (by show object.location.physicalBlock * 4096 + 4096 ≤ _; omega)
  · show Except.ok (object.location.objectId, none) = _
    rw [(hobject object hmem).1]

/-! ## The objects of a tree -/

/-- The nodes below the root are written in the order in which they were made. -/
theorem buildNodes_location {nodes : List PendingTreeNode} {objects : List AppleSerializedObject}
    (h : buildNodes options totals nodes = .ok objects) :
    objects.map AppleSerializedObject.location =
        nodes.map (fun node => nodeLocation node false options) ∧
      ∀ object ∈ objects, object.bytes.length = options.blockSize ∧
        verifyObjectChecksum object.bytes options.blockSize = true := by
  induction nodes generalizing objects with
  | nil =>
    obtain rfl : [] = objects := Except.ok.inj h
    exact ⟨rfl, by simp⟩
  | cons node nodes ih =>
    unfold buildNodes at h
    cases hobject : buildNode node false options totals with
    | error text =>
      rw [hobject] at h
      cases h
    | ok object =>
      rw [hobject] at h
      cases hrest : buildNodes options totals nodes with
      | error text =>
        rw [hrest] at h
        cases h
      | ok rest =>
        rw [hrest] at h
        obtain rfl := Except.ok.inj h
        obtain ⟨hlocation, hbuilt⟩ := buildNode_spec hobject
        obtain ⟨hlocations, hbytes⟩ := ih hrest
        rw [List.map_cons, List.map_cons, hlocation, hlocations]
        exact ⟨rfl, List.forall_mem_cons.mpr ⟨⟨hbuilt.length, hbuilt.checksum⟩, hbytes⟩⟩

/-- **A tree that is written keeps its nodes apart.**  Every node has a block of its own, the root
comes last and at the block asked for, there are no more nodes than allowed and no fewer than levels,
and every object verifies. -/
theorem serializeAppleBtree_objects {records : List BtreeRecord} {tree : AppleSerializedBtree}
    (h : serializeAppleBtree records options = .ok tree) :
    ∃ children root, tree.objects = children ++ [root] ∧
      root.location.objectId = options.rootObjectId ∧
      root.location.physicalBlock = options.rootPhysicalBlock ∧
      (∀ object ∈ children,
        ChildIdentity options object.location.objectId object.location.physicalBlock) ∧
      (tree.objects.map fun object => object.location.physicalBlock).Nodup ∧
      tree.height ≤ tree.objects.length ∧ tree.objects.length ≤ options.maxNodes ∧
      ∀ object ∈ tree.objects, object.bytes.length = options.blockSize ∧
        verifyObjectChecksum object.bytes options.blockSize = true := by
  unfold serializeAppleBtree at h
  obtain ⟨⟨⟩, hvalidate, h⟩ := bind_eq_ok_iff.mp h
  obtain ⟨sorted, -, h⟩ := bind_eq_ok_iff.mp h
  have hoptions := validateOptions_spec hvalidate
  have hpos := Nat.pos_of_ne_zero hoptions.maxNodes_pos
  split at h
  · obtain ⟨root, hroot, h⟩ := bind_eq_ok_iff.mp h
    obtain rfl := Except.ok.inj h
    obtain ⟨hlocation, hbuilt⟩ := buildNode_spec hroot
    refine ⟨[], root, rfl, by rw [hlocation]; rfl, by rw [hlocation]; rfl, by simp,
      List.nodup_singleton _, le_rfl, hpos, by simpa using ⟨hbuilt.length, hbuilt.checksum⟩⟩
  · rename_i hfits
    obtain ⟨⟨nodes, rootLevel, rootRecords⟩, hlevels, h⟩ := bind_eq_ok_iff.mp h
    obtain ⟨objects, hobjects, h⟩ := bind_eq_ok_iff.mp h
    obtain ⟨root, hroot, h⟩ := bind_eq_ok_iff.mp h
    obtain rfl := Except.ok.inj h
    have hsorted : sorted ≠ [] := by
      rintro rfl
      exact hfits (nodeFits_nil hoptions)
    have hchain := buildLevels_levelChain hlevels
    have hidentified := hchain.identified (identified_nil 0)
    obtain ⟨hlocations, hbytes⟩ := buildNodes_location hobjects
    obtain ⟨hlocation, hbuilt⟩ := buildNode_spec hroot
    have hlength : objects.length = nodes.length := by
      simpa using congrArg List.length hlocations
    have hblocks : objects.map (fun object => object.location.physicalBlock) =
        nodes.map PendingTreeNode.physicalBlock := by
      have hmap := congrArg (List.map AppleObjectLocation.physicalBlock) hlocations
      rwa [List.map_map, List.map_map] at hmap
    have hchild : ∀ object ∈ objects,
        ChildIdentity options object.location.objectId object.location.physicalBlock := by
      intro object hobject
      have hplace := List.mem_map_of_mem (f := AppleSerializedObject.location) hobject
      rw [hlocations] at hplace
      obtain ⟨node, hnode, heq⟩ := List.mem_map.mp hplace
      rw [← heq]
      exact hidentified.childIdentity node hnode
    have hheight := hchain.rootLevel_le hsorted (Nat.zero_le _)
    have hcount := hidentified.length_le (Nat.zero_le _)
    refine ⟨objects, root, rfl, by rw [hlocation]; rfl, by rw [hlocation]; rfl, hchild, ?_, ?_, ?_,
      ?_⟩
    · rw [List.map_append, List.map_singleton, hblocks, hlocation]
      refine List.nodup_append.mpr ⟨hidentified.nodup, List.nodup_singleton _, ?_⟩
      intro block hblock other hother heq
      rw [← hblocks] at hblock
      obtain ⟨object, hobject, rfl⟩ := List.mem_map.mp hblock
      exact (hchild object hobject).block_ne_root (heq.trans (List.mem_singleton.mp hother))
    · rw [List.length_append, hlength, List.length_singleton]
      exact Nat.succ_le_succ hheight.1
    · rw [List.length_append, hlength, List.length_singleton]
      omega
    · intro object hobject
      rcases List.mem_append.mp hobject with hbelow | hlast
      · exact hbytes object hbelow
      · rw [List.mem_singleton.mp hlast]
        exact ⟨hbuilt.length, hbuilt.checksum⟩

theorem serializeAppleBtree_objects_sample :
    serializeAppleBtree sampleRecords sampleOptions = .ok sampleTree ∧
      (sampleTree.objects.map fun object => object.location.physicalBlock).Nodup ∧
      sampleTree.objects.length ≤ 16 := by
  have hserialize := eq_ok_of_isOk serialize_sample.1 ⟨0, 0, 0, []⟩
  obtain ⟨-, -, -, -, -, -, hblocks, -, hcount, -⟩ := serializeAppleBtree_objects hserialize
  exact ⟨hserialize, hblocks, hcount⟩

/-- The levels of the sample end within the rounds of its options. -/
theorem buildLevels_rounds_sample :
    buildLevels sampleOptions 16 [] sampleRecords 0 ≠ .error roundsExhausted :=
  buildLevels_rounds (List.cons_ne_nil _ _) (by decide) (Nat.zero_le _) le_rfl

end Btree
end ApfsAccess
