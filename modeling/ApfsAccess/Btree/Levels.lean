import ApfsAccess.Btree.Writer

/-!
# The levels of a tree

What the loop over the levels produces, without looking at any block.  Every level
cuts its records into non-empty nodes, in order; the node that is the `i`-th of the
whole tree below the root has the `i`-th child identity, and these identities are
all different and never the root's.

`buildLevels_rounds` says that the bound on the number of levels is never what stops
the loop.
-/

namespace ApfsAccess
namespace Btree

open Format ByteBuffer Extents Sorting

variable {options : AppleBtreeOptions}

/-! ## Identities -/

/-- What an identity that was handed out satisfies. -/
structure ChildIdentity (options : AppleBtreeOptions) (oid block : ℕ) : Prop where
  oid_ne : oid ≠ 0
  oid_lt : oid < 2 ^ 64
  block_ne : block ≠ 0
  oid_ne_root : oid ≠ options.rootObjectId
  block_ne_root : block ≠ options.rootPhysicalBlock

/-- Where the identity of a child comes from: the given lists, or a count from the first. -/
theorem nextChildIdentity_cases {index oid block : ℕ}
    (h : nextChildIdentity options index = .ok (oid, block)) :
    ChildIdentity options oid block ∧
      ((options.childObjectIds[index]? = some oid ∧
          options.childPhysicalBlocks[index]? = some block ∧
          (options.childObjectIds ≠ [] ∨ options.childPhysicalBlocks ≠ []) ∧
          block ∉ options.childPhysicalBlocks.take index) ∨
        (block = options.firstChildPhysicalBlock + index ∧
          ¬(options.childObjectIds ≠ [] ∨ options.childPhysicalBlocks ≠ []))) := by
  unfold nextChildIdentity at h
  split at h
  · cases h
  · rename_i oid' block' hsource
    split at h
    · cases h
    · rename_i hroot
      rw [not_or] at hroot
      split at h
      · cases h
      · obtain ⟨rfl, rfl⟩ := Prod.mk.inj (Except.ok.inj h)
        unfold allocatedIdentity at hsource
        split at hsource
        · rename_i hlists
          split at hsource
          · cases hsource
          · split at hsource
            · rename_i oid'' block'' hoid hblock
              split at hsource
              · cases hsource
              · rename_i hne
                rw [not_or] at hne
                split at hsource
                · cases hsource
                · rename_i hfresh
                  obtain ⟨rfl, rfl⟩ := Prod.mk.inj (Except.ok.inj hsource)
                  rw [not_or] at hfresh
                  have hlt := options.childObjectIds_lt _ (List.mem_of_getElem? hoid)
                  exact ⟨⟨hne.1, hlt, hne.2, hroot.1, hroot.2⟩,
                    .inl ⟨hoid, hblock, hlists, hfresh.2⟩⟩
            · cases hsource
        · rename_i hlists
          split at hsource
          · cases hsource
          · rename_i hfirst
            obtain ⟨rfl, rfl⟩ := Prod.mk.inj (Except.ok.inj hsource)
            have hlt := options.firstChildObjectId_lt
            exact ⟨⟨by omega, by omega, by omega, hroot.1, hroot.2⟩, .inr ⟨rfl, hlists⟩⟩

/-- Two children never share a block. -/
theorem nextChildIdentity_block_ne {i j oid block oid' block' : ℕ} (hij : i < j)
    (h : nextChildIdentity options i = .ok (oid, block))
    (h' : nextChildIdentity options j = .ok (oid', block')) : block ≠ block' := by
  rintro rfl
  rcases (nextChildIdentity_cases h).2 with ⟨-, hblock, hlists, -⟩ | ⟨hblock, hlists⟩
  · rcases (nextChildIdentity_cases h').2 with ⟨-, -, -, hfresh⟩ | ⟨-, hlists'⟩
    · refine hfresh (List.mem_of_getElem? (i := i) ?_)
      rw [List.getElem?_take, if_pos hij]
      exact hblock
    · exact hlists' hlists
  · rcases (nextChildIdentity_cases h').2 with ⟨-, -, hlists', -⟩ | ⟨hblock', -⟩
    · exact hlists hlists'
    · omega

/-- Nodes that got the identities from a given index on. -/
def Identified (options : AppleBtreeOptions) (index : ℕ) (nodes : List PendingTreeNode) : Prop :=
  ∀ i node, nodes[i]? = some node → index + i < options.maxNodes - 1 ∧
    nextChildIdentity options (index + i) = .ok (node.objectId, node.physicalBlock)

theorem identified_nil (index : ℕ) : Identified options index [] := by
  intro i node h
  simp at h

theorem identified_cons {index : ℕ} {node : PendingTreeNode} {nodes : List PendingTreeNode} :
    Identified options index (node :: nodes) ↔
      (index < options.maxNodes - 1 ∧
        nextChildIdentity options index = .ok (node.objectId, node.physicalBlock)) ∧
      Identified options (index + 1) nodes := by
  constructor
  · intro h
    refine ⟨h 0 node rfl, fun i other hother => ?_⟩
    have := h (i + 1) other hother
    rwa [show index + (i + 1) = index + 1 + i by omega] at this
  · rintro ⟨hfirst, hrest⟩ i other hother
    cases i with
    | zero =>
      obtain rfl := Option.some.inj hother
      exact hfirst
    | succ i =>
      have := hrest i other hother
      rwa [show index + 1 + i = index + (i + 1) by omega] at this

theorem Identified.append {index : ℕ} {front back : List PendingTreeNode}
    (hfront : Identified options index front)
    (hback : Identified options (index + front.length) back) :
    Identified options index (front ++ back) := by
  induction front generalizing index with
  | nil => simpa using hback
  | cons node front ih =>
    obtain ⟨hnode, hrest⟩ := identified_cons.mp hfront
    refine identified_cons.mpr ⟨hnode, ih hrest ?_⟩
    rwa [show index + 1 + front.length = index + (node :: front).length by
      rw [List.length_cons]
      omega]

theorem Identified.length_le {index : ℕ} {nodes : List PendingTreeNode}
    (h : Identified options index nodes) (hindex : index ≤ options.maxNodes - 1) :
    index + nodes.length ≤ options.maxNodes - 1 := by
  induction nodes generalizing index with
  | nil => simpa using hindex
  | cons node nodes ih =>
    obtain ⟨⟨hlt, -⟩, hrest⟩ := identified_cons.mp h
    have := ih hrest (by omega)
    rw [List.length_cons]
    omega

theorem Identified.childIdentity {index : ℕ} {nodes : List PendingTreeNode}
    (h : Identified options index nodes) :
    ∀ node ∈ nodes, ChildIdentity options node.objectId node.physicalBlock := by
  intro node hnode
  obtain ⟨i, hi⟩ := List.mem_iff_getElem?.mp hnode
  exact (nextChildIdentity_cases (h i node hi).2).1

/-- **The blocks of the nodes are all different.** -/
theorem Identified.nodup {index : ℕ} {nodes : List PendingTreeNode}
    (h : Identified options index nodes) :
    (nodes.map PendingTreeNode.physicalBlock).Nodup := by
  induction nodes generalizing index with
  | nil => exact List.nodup_nil
  | cons node nodes ih =>
    obtain ⟨⟨-, hnode⟩, hrest⟩ := identified_cons.mp h
    refine List.nodup_cons.mpr ⟨?_, ih hrest⟩
    intro hmem
    obtain ⟨other, hother, heq⟩ := List.mem_map.mp hmem
    obtain ⟨i, hi⟩ := List.mem_iff_getElem?.mp hother
    exact nextChildIdentity_block_ne (by omega) hnode (hrest i other hi).2 heq.symm

/-! ## One level -/

theorem closeNode_eq_ok {level index : ℕ} {records : List BtreeRecord} {node : PendingTreeNode}
    (h : closeNode options level index records = .ok node) :
    node.records = records ∧ records ≠ [] ∧ node.level = level ∧ index < options.maxNodes - 1 ∧
      nextChildIdentity options index = .ok (node.objectId, node.physicalBlock) := by
  unfold closeNode at h
  split at h
  · cases h
  · rename_i hne
    split at h
    · cases h
    · split at h
      · cases h
      · rename_i oid block hidentity
        obtain rfl := Except.ok.inj h
        exact ⟨rfl, hne, rfl, by omega, hidentity⟩

/-- A level cut into nodes. -/
structure PackedLevel (options : AppleBtreeOptions) (level index : ℕ) (records : List BtreeRecord)
    (nodes : List PendingTreeNode) : Prop where
  records : nodes.flatMap PendingTreeNode.records = records
  nonempty : ∀ node ∈ nodes, node.records ≠ []
  level : ∀ node ∈ nodes, node.level = level
  identified : Identified options index nodes

theorem PackedLevel.cons {level index : ℕ} {records rest : List BtreeRecord}
    {node : PendingTreeNode} {nodes : List PendingTreeNode}
    (hnode : closeNode options level index records = .ok node)
    (h : PackedLevel options level (index + 1) rest nodes) :
    PackedLevel options level index (records ++ rest) (node :: nodes) := by
  obtain ⟨hrecords, hne, hlevel, hindex, hidentity⟩ := closeNode_eq_ok hnode
  refine ⟨?_, ?_, ?_, identified_cons.mpr ⟨⟨hindex, hidentity⟩, h.identified⟩⟩
  · rw [List.flatMap_cons, hrecords, h.records]
  · exact List.forall_mem_cons.mpr ⟨by rwa [hrecords], h.nonempty⟩
  · exact List.forall_mem_cons.mpr ⟨hlevel, h.level⟩

/-- **One level.**  By induction over the records still to be placed. -/
theorem packLevel_spec {level index : ℕ} {pending records : List BtreeRecord}
    {nodes : List PendingTreeNode}
    (h : packLevel options level index pending records = .ok nodes) :
    PackedLevel options level index (pending ++ records) nodes := by
  induction records generalizing index pending nodes with
  | nil =>
    unfold packLevel at h
    split at h
    · rename_i hpending
      obtain rfl := Except.ok.inj h
      exact ⟨by simp [hpending], by simp, by simp, identified_nil index⟩
    · cases hclose : closeNode options level index pending with
      | error text =>
        rw [hclose] at h
        cases h
      | ok node =>
        rw [hclose] at h
        obtain rfl := Except.ok.inj h
        exact PackedLevel.cons hclose ⟨rfl, by simp, by simp, identified_nil (index + 1)⟩
  | cons record records ih =>
    unfold packLevel at h
    split at h
    · have := ih h
      rwa [List.append_assoc] at this
    · split at h
      · cases h
      · rename_i node hclose
        split at h
        · cases hrest : packLevel options level (index + 1) [record] records with
          | error text =>
            rw [hrest] at h
            cases h
          | ok rest =>
            rw [hrest] at h
            obtain rfl := Except.ok.inj h
            exact PackedLevel.cons hclose (ih hrest)
        · cases h

theorem PackedLevel.ne_nil {level index : ℕ} {records : List BtreeRecord}
    {nodes : List PendingTreeNode} (h : PackedLevel options level index records nodes)
    (hrecords : records ≠ []) : nodes ≠ [] := by
  rintro rfl
  exact hrecords h.records.symm

/-! ## All levels -/

/-- The text with which the model reports that it ran out of rounds. -/
def roundsExhausted : String := "level rounds exhausted"

theorem nextChildIdentity_ne_exhausted (index : ℕ) :
    nextChildIdentity options index ≠ .error roundsExhausted := by
  have hsource : allocatedIdentity options index ≠ .error roundsExhausted := by
    unfold allocatedIdentity roundsExhausted
    repeat' split
    all_goals simp
  intro h
  unfold nextChildIdentity at h
  split at h
  · rename_i text htext
    obtain rfl := Except.error.inj h
    exact hsource htext
  · split at h
    · simp [roundsExhausted] at h
    · split at h
      · simp [roundsExhausted] at h
      · cases h

theorem closeNode_ne_exhausted (level index : ℕ) (records : List BtreeRecord) :
    closeNode options level index records ≠ .error roundsExhausted := by
  intro h
  unfold closeNode at h
  split at h
  · simp [roundsExhausted] at h
  · split at h
    · simp [roundsExhausted] at h
    · split at h
      · rename_i text hidentity
        obtain rfl := Except.error.inj h
        exact nextChildIdentity_ne_exhausted index hidentity
      · cases h

theorem packLevel_ne_exhausted (level index : ℕ) (pending records : List BtreeRecord) :
    packLevel options level index pending records ≠ .error roundsExhausted := by
  induction records generalizing index pending with
  | nil =>
    intro h
    unfold packLevel at h
    split at h
    · cases h
    · cases hclose : closeNode options level index pending with
      | error text =>
        rw [hclose] at h
        obtain rfl := Except.error.inj h
        exact closeNode_ne_exhausted level index pending hclose
      | ok node =>
        rw [hclose] at h
        cases h
  | cons record records ih =>
    intro h
    unfold packLevel at h
    split at h
    · exact ih index (pending ++ [record]) h
    · split at h
      · rename_i text hclose
        obtain rfl := Except.error.inj h
        exact closeNode_ne_exhausted level index pending hclose
      · split at h
        · cases hrest : packLevel options level (index + 1) [record] records with
          | error text =>
            rw [hrest] at h
            obtain rfl := Except.error.inj h
            exact ih (index + 1) [record] hrest
          | ok rest =>
            rw [hrest] at h
            cases h
        · simp [roundsExhausted] at h

/-- **The bound on the levels is never what stops the loop.**  Every level takes at least
one of the nodes that a tree may have. -/
theorem buildLevels_rounds {rounds level : ℕ} {nonrootNodes : List PendingTreeNode}
    {levelRecords : List BtreeRecord} (hrecords : levelRecords ≠ [])
    (hmax : options.maxNodes ≠ 0) (hnodes : nonrootNodes.length ≤ options.maxNodes - 1)
    (hrounds : options.maxNodes ≤ rounds + nonrootNodes.length) :
    buildLevels options rounds nonrootNodes levelRecords level ≠ .error roundsExhausted := by
  induction rounds generalizing nonrootNodes levelRecords level with
  | zero => omega
  | succ rounds ih =>
    intro h
    unfold buildLevels at h
    split at h
    · rename_i text hpack
      obtain rfl := Except.error.inj h
      exact packLevel_ne_exhausted _ _ _ _ hpack
    · rename_i levelNodes hpack
      have hlevel := packLevel_spec hpack
      have hne := hlevel.ne_nil (by simpa using hrecords)
      have hpos := List.length_pos_iff.mpr hne
      have hle := hlevel.identified.length_le hnodes
      dsimp only at h
      split at h
      · simp [roundsExhausted] at h
      · split at h
        · cases h
        · refine ih ?_ ?_ ?_ h
          · simpa using hne
          · rw [List.length_append]
            omega
          · rw [List.length_append]
            omega

/-- The levels of a tree, from one level up to the root: nodes already made, the level and
its records, then all nodes, the level of the root and its records. -/
inductive LevelChain (options : AppleBtreeOptions) :
    List PendingTreeNode → ℕ → List BtreeRecord → List PendingTreeNode → ℕ → List BtreeRecord → Prop
  | top {nonrootNodes levelNodes : List PendingTreeNode} {level : ℕ} {records : List BtreeRecord}
      (hpacked : PackedLevel options level nonrootNodes.length records levelNodes) :
      LevelChain options nonrootNodes level records (nonrootNodes ++ levelNodes) (level + 1)
        (levelNodes.map parentRecord)
  | up {nonrootNodes levelNodes nodes : List PendingTreeNode} {level rootLevel : ℕ}
      {records rootRecords : List BtreeRecord}
      (hpacked : PackedLevel options level nonrootNodes.length records levelNodes)
      (hrest : LevelChain options (nonrootNodes ++ levelNodes) (level + 1)
        (levelNodes.map parentRecord) nodes rootLevel rootRecords) :
      LevelChain options nonrootNodes level records nodes rootLevel rootRecords

theorem buildLevels_levelChain {rounds level rootLevel : ℕ}
    {nonrootNodes nodes : List PendingTreeNode} {records rootRecords : List BtreeRecord}
    (h : buildLevels options rounds nonrootNodes records level =
      .ok (nodes, rootLevel, rootRecords)) :
    LevelChain options nonrootNodes level records nodes rootLevel rootRecords := by
  induction rounds generalizing nonrootNodes records level with
  | zero => cases h
  | succ rounds ih =>
    unfold buildLevels at h
    split at h
    · cases h
    · rename_i levelNodes hpack
      have hpacked := packLevel_spec hpack
      rw [List.nil_append] at hpacked
      dsimp only at h
      split at h
      · cases h
      · split at h
        · simp only [Except.ok.injEq, Prod.mk.injEq] at h
          obtain ⟨rfl, rfl, rfl⟩ := h
          exact .top hpacked
        · exact .up hpacked (ih h)

namespace LevelChain

variable {nonrootNodes nodes : List PendingTreeNode} {level rootLevel : ℕ}
  {records rootRecords : List BtreeRecord}

theorem identified (h : LevelChain options nonrootNodes level records nodes rootLevel rootRecords)
    (hnonroot : Identified options 0 nonrootNodes) : Identified options 0 nodes := by
  induction h with
  | top hpacked => exact hnonroot.append (by rw [Nat.zero_add]; exact hpacked.identified)
  | up hpacked _ ih =>
    exact ih (hnonroot.append (by rw [Nat.zero_add]; exact hpacked.identified))

/-- Every level has a node of its own, so the root is not higher than there are nodes. -/
theorem rootLevel_le (h : LevelChain options nonrootNodes level records nodes rootLevel rootRecords)
    (hrecords : records ≠ []) (hlevel : level ≤ nonrootNodes.length) :
    rootLevel ≤ nodes.length ∧ level < rootLevel ∧ rootRecords ≠ [] := by
  induction h with
  | top hpacked =>
    have hne := hpacked.ne_nil hrecords
    have hpos := List.length_pos_iff.mpr hne
    rw [List.length_append]
    exact ⟨by omega, by omega, by simpa using hne⟩
  | up hpacked _ ih =>
    have hne := hpacked.ne_nil hrecords
    have hpos := List.length_pos_iff.mpr hne
    obtain ⟨hle, hlt, hroot⟩ := ih (by simpa using hne) (by rw [List.length_append]; omega)
    exact ⟨hle, by omega, hroot⟩

/-- The nodes of the lowest level are among all nodes. -/
theorem exists_levelNodes
    (h : LevelChain options nonrootNodes level records nodes rootLevel rootRecords) :
    ∃ levelNodes, PackedLevel options level nonrootNodes.length records levelNodes ∧
      (nonrootNodes ++ levelNodes).IsPrefix nodes := by
  induction h with
  | top hpacked => exact ⟨_, hpacked, List.prefix_rfl⟩
  | up hpacked _ ih =>
    obtain ⟨_, _, hinitial⟩ := ih
    exact ⟨_, hpacked, (List.prefix_append _ _).trans hinitial⟩

/-- Nodes of bounded size hold a bounded number of records. -/
theorem length_records_le
    (h : LevelChain options nonrootNodes level records nodes rootLevel rootRecords) {bound : ℕ}
    (hbound : ∀ node ∈ nodes, node.records.length ≤ bound) :
    records.length ≤ nodes.length * bound := by
  obtain ⟨levelNodes, hpacked, hinitial⟩ := h.exists_levelNodes
  have hlength : ∀ some : List PendingTreeNode, (∀ node ∈ some, node.records.length ≤ bound) →
      (some.flatMap PendingTreeNode.records).length ≤ some.length * bound := by
    intro some hsome
    induction some with
    | nil => simp
    | cons node some ih =>
      obtain ⟨hnode, hrest⟩ := List.forall_mem_cons.mp hsome
      have := ih hrest
      rw [List.flatMap_cons, List.length_append, List.length_cons, Nat.succ_mul]
      omega
  have hle := hinitial.length_le
  rw [List.length_append] at hle
  calc records.length = (levelNodes.flatMap PendingTreeNode.records).length := by
        rw [hpacked.records]
    _ ≤ levelNodes.length * bound := hlength levelNodes fun node hnode =>
        hbound node (hinitial.subset (List.mem_append_right _ hnode))
    _ ≤ nodes.length * bound := Nat.mul_le_mul_right _ (by omega)

end LevelChain

end Btree
end ApfsAccess
