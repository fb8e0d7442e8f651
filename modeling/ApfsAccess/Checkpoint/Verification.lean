import ApfsAccess.Format.Object

/-!
# Reading a batch back after the flush

`VerifyBatchAfterFlush` reads what a publication has written once more, from the backing source of the
target, and compares it.  Blocks that follow each other are asked for together, up to a mebibyte; the
target may answer with fewer blocks than it was asked for.

* `runLength_adjacent` : what is asked for together follows each other.
* `sameBlocks_iff` : the comparison of one answer.
* `verifyBatchAfterFlush_iff` : the batch is verified when every answer is a number of whole blocks
  and every block is what was planned.
-/

namespace ApfsAccess
namespace Checkpoint

open Format

/-! ## The verification -/

/-- `AppleCheckpointPlannedWrite`. -/
structure PlannedWrite where
  physicalBlock : UInt64
  bytes : Bytes
  deriving DecidableEq, Repr

/-- The arguments of `ReadBlockRangeForVerification`. -/
structure RangeRequest where
  physicalBlock : UInt64
  blockSize : UInt32
  maxBlocks : ℕ
  deriving DecidableEq, Repr

/-- `ReadBlockRangeForVerification` of a target with a state. -/
abbrev VerificationTarget (σ : Type) := σ → RangeRequest → Option Bytes × σ

/-- `kCheckpointReadbackBytes`. -/
def checkpointReadbackBytes : ℕ := 1024 * 1024

/-- `blocks_per_read`. -/
def blocksPerRead (blockSize : UInt32) : ℕ := max 1 (checkpointReadbackBytes / blockSize.toNat)

/-- How many writes follow the block of the last one without a gap. -/
def extendRun : ℕ → UInt64 → List PlannedWrite → ℕ
  | 0, _, _ => 0
  | _ + 1, _, [] => 0
  | limit + 1, last, next :: rest =>
    if last ≠ UInt64.ofNat (2 ^ 64 - 1) ∧ next.physicalBlock = last + 1 then
      extendRun limit next.physicalBlock rest + 1
    else 0

/-- `count`, when the first of the remaining writes is given. -/
def runLength (blockSize : UInt32) (first : PlannedWrite) (rest : List PlannedWrite) : ℕ :=
  extendRun (blocksPerRead blockSize - 1) first.physicalBlock rest + 1

/-- The comparison of an answer, block by block. -/
def sameBlocks (blockSize : UInt32) : List PlannedWrite → Bytes → Bool
  | [], _ => true
  | write :: rest, readback =>
    write.bytes == readback.take write.bytes.length &&
      sameBlocks blockSize rest (readback.drop blockSize.toNat)

/-- An answer that is not a number of whole blocks, at least one and no more than asked for. -/
def isMalformed (blockSize : UInt32) (count : ℕ) (readback : Bytes) : Prop :=
  readback = [] ∨ readback.length % blockSize.toNat ≠ 0 ∨
    count < readback.length / blockSize.toNat

instance (blockSize : UInt32) (count : ℕ) (readback : Bytes) :
    Decidable (isMalformed blockSize count readback) := by
  unfold isMalformed
  infer_instance

theorem blocksRead_pos {blockSize : UInt32} {count : ℕ} {readback : Bytes}
    (h : ¬isMalformed blockSize count readback) : 0 < readback.length / blockSize.toNat := by
  obtain ⟨hnonempty, hwhole, -⟩ := not_or.mp h |>.imp_right not_or.mp
  have hpos := List.length_pos_iff.mpr hnonempty
  rw [not_not] at hwhole
  have hsplit := Nat.mod_add_div readback.length blockSize.toNat
  rw [hwhole, Nat.zero_add] at hsplit
  by_contra hzero
  rw [Nat.eq_zero_of_not_pos hzero, Nat.mul_zero] at hsplit
  omega

section Loop

variable {σ : Type} (target : VerificationTarget σ) (blockSize : UInt32)

/-- The loop over the writes that remain. -/
def verifyRemaining (state : σ) : List PlannedWrite → Except String Unit × σ
  | [] => (.ok (), state)
  | first :: rest =>
    let count := runLength blockSize first rest
    match target state ⟨first.physicalBlock, blockSize, count⟩ with
    | (none, after) => (.error "AppleCheckpointReadbackFailed", after)
    | (some readback, after) =>
      if hmalformed : isMalformed blockSize count readback then
        (.error "AppleCheckpointReadbackFailed", after)
      else
        let blocksRead := readback.length / blockSize.toNat
        have := blocksRead_pos hmalformed
        if sameBlocks blockSize ((first :: rest).take blocksRead) readback then
          verifyRemaining after ((first :: rest).drop blocksRead)
        else (.error "AppleCheckpointReadbackFailed", after)
termination_by writes => writes.length
decreasing_by
  rw [List.length_drop, List.length_cons]
  omega

/-- The guard of `VerifyBatchAfterFlush`. -/
def IsSized (writes : List PlannedWrite) : Prop :=
  writes ≠ [] ∧ blockSize ≠ 0 ∧ ∀ write ∈ writes, write.bytes.length = blockSize.toNat

instance (writes : List PlannedWrite) : Decidable (IsSized blockSize writes) := by
  unfold IsSized
  infer_instance

/-- `VerifyBatchAfterFlush`. -/
def verifyBatchAfterFlush (state : σ) (writes : List PlannedWrite) : Except String Unit × σ :=
  if IsSized blockSize writes then verifyRemaining target blockSize state writes
  else (.error "AppleCheckpointWriteFailed", state)

end Loop

/-! ## What the target holds -/

/-- The blocks behind a target, each of them in full. -/
structure BlockContents (blockSize : UInt32) where
  bytes : ℕ → Bytes
  length_bytes : ∀ block, (bytes block).length = blockSize.toNat

/-- The bytes of some blocks that follow each other. -/
def BlockContents.range {blockSize : UInt32} (contents : BlockContents blockSize) (block : ℕ) :
    ℕ → Bytes
  | 0 => []
  | count + 1 => contents.bytes block ++ contents.range (block + 1) count

/-- A target answers with the beginning of what it was asked for, or fails. -/
def VerificationTarget.Answers {σ : Type} {blockSize : UInt32} (target : VerificationTarget σ)
    (contents : BlockContents blockSize) : Prop :=
  ∀ state block count readback, (target state ⟨block, blockSize, count⟩).1 = some readback →
    readback ≠ [] ∧ readback <+: contents.range block.toNat count

/-- The same target, which also keeps its answers. -/
def VerificationTarget.recorded {σ : Type} (target : VerificationTarget σ) :
    VerificationTarget (σ × List (Option Bytes)) := fun state request =>
  let answer := target state.1 request
  (answer.1, answer.2, state.2 ++ [answer.1])

/-- An answer is a number of whole blocks. -/
def IsWhole (blockSize : UInt32) : Option Bytes → Prop
  | none => False
  | some readback => readback.length % blockSize.toNat = 0

/-- Writes to blocks that follow each other. -/
def Adjacent : ℕ → List PlannedWrite → Prop
  | _, [] => True
  | block, write :: rest => write.physicalBlock.toNat = block ∧ Adjacent (block + 1) rest

section Contents

variable {blockSize : UInt32} {contents : BlockContents blockSize} {block count : ℕ}
  {writes : List PlannedWrite} {readback : Bytes}

theorem length_range (contents : BlockContents blockSize) (block count : ℕ) :
    (contents.range block count).length = count * blockSize.toNat := by
  induction count generalizing block with
  | zero => rw [BlockContents.range, List.length_nil, Nat.zero_mul]
  | succ count ih =>
    rw [BlockContents.range, List.length_append, contents.length_bytes, ih, Nat.succ_mul,
      Nat.add_comm]

theorem range_add (contents : BlockContents blockSize) (block count more : ℕ) :
    contents.range block (count + more) =
      contents.range block count ++ contents.range (block + count) more := by
  induction count generalizing block with
  | zero => rw [Nat.zero_add, BlockContents.range, List.nil_append, Nat.add_zero]
  | succ count ih =>
    rw [Nat.succ_add, BlockContents.range, ih, BlockContents.range, List.append_assoc,
      Nat.add_assoc block 1 count, Nat.add_comm 1 count]

/-- A beginning that is a number of whole blocks is those blocks. -/
theorem eq_range_of_prefix (hsize : 0 < blockSize.toNat)
    (hread : readback <+: contents.range block count)
    (hwhole : readback.length % blockSize.toNat = 0) :
    readback.length / blockSize.toNat ≤ count ∧
      readback = contents.range block (readback.length / blockSize.toNat) := by
  have hlength : readback.length / blockSize.toNat * blockSize.toNat = readback.length :=
    Nat.div_mul_cancel (Nat.dvd_of_mod_eq_zero hwhole)
  have hle := hread.length_le
  rw [length_range] at hle
  have hcount : readback.length / blockSize.toNat ≤ count := by
    rw [← hlength] at hle
    exact Nat.le_of_mul_le_mul_right hle hsize
  refine ⟨hcount, ?_⟩
  have hblocks : contents.range block (readback.length / blockSize.toNat) <+:
      contents.range block count := by
    rw [← Nat.add_sub_cancel' hcount, range_add]
    exact List.prefix_append _ _
  refine (List.prefix_of_prefix_length_le hread hblocks ?_).eq_of_length ?_
  · rw [length_range, hlength]
  · rw [length_range, hlength]

/-- **What is asked for together follows each other.** -/
theorem extendRun_adjacent (limit : ℕ) (last : UInt64) (rest : List PlannedWrite) :
    extendRun limit last rest ≤ rest.length ∧
      Adjacent (last.toNat + 1) (rest.take (extendRun limit last rest)) := by
  induction rest generalizing limit last with
  | nil =>
    cases limit with
    | zero => exact ⟨le_rfl, trivial⟩
    | succ limit => exact ⟨le_rfl, trivial⟩
  | cons next rest ih =>
    cases limit with
    | zero => exact ⟨Nat.zero_le _, trivial⟩
    | succ limit =>
      rw [extendRun]
      split_ifs with hnext
      · obtain ⟨hlast, hnext⟩ := hnext
        have hroom : last.toNat + 1 < 2 ^ 64 := by
          have hlt := last.toNat_lt
          have hne : last.toNat ≠ 2 ^ 64 - 1 := fun hmax => hlast (UInt64.toNat_inj.mp hmax)
          omega
        have hblock : next.physicalBlock.toNat = last.toNat + 1 := by
          rw [hnext, UInt64.toNat_add]
          exact Nat.mod_eq_of_lt hroom
        obtain ⟨hle, hadjacent⟩ := ih limit next.physicalBlock
        rw [hblock] at hadjacent
        exact ⟨Nat.succ_le_succ hle, hblock, hadjacent⟩
      · exact ⟨Nat.zero_le _, trivial⟩

theorem runLength_adjacent (blockSize : UInt32) (first : PlannedWrite) (rest : List PlannedWrite) :
    runLength blockSize first rest ≤ (first :: rest).length ∧
      Adjacent first.physicalBlock.toNat
        ((first :: rest).take (runLength blockSize first rest)) := by
  obtain ⟨hle, hadjacent⟩ :=
    extendRun_adjacent (blocksPerRead blockSize - 1) first.physicalBlock rest
  exact ⟨Nat.succ_le_succ hle, rfl, hadjacent⟩

theorem Adjacent.take (h : Adjacent block writes) (count : ℕ) :
    Adjacent block (writes.take count) := by
  induction writes generalizing block count with
  | nil => rw [List.take_nil]; trivial
  | cons write rest ih =>
    cases count with
    | zero => trivial
    | succ count => exact ⟨h.1, ih h.2 count⟩

/-- **The comparison of an answer**: every block of it is what was planned. -/
theorem sameBlocks_iff (hadjacent : Adjacent block writes)
    (hsized : ∀ write ∈ writes, write.bytes.length = blockSize.toNat) :
    sameBlocks blockSize writes (contents.range block writes.length) = true ↔
      ∀ write ∈ writes, write.bytes = contents.bytes write.physicalBlock.toNat := by
  induction writes generalizing block with
  | nil => exact iff_of_true rfl (List.forall_mem_nil _)
  | cons write rest ih =>
    rw [List.forall_mem_cons] at hsized ⊢
    have hlength := contents.length_bytes block
    rw [sameBlocks, List.length_cons, BlockContents.range, hsized.1, List.take_left' hlength,
      List.drop_left' hlength, Bool.and_eq_true, beq_iff_eq, ih hadjacent.2 hsized.2, hadjacent.1]

end Contents

/-! ## The batch -/

section Batch

variable {σ : Type} {target : VerificationTarget σ} {blockSize : UInt32}
  {contents : BlockContents blockSize}

/-- **The loop**: it goes through when every answer is a number of whole blocks and every block is
what was planned. -/
theorem verifyRemaining_iff (htarget : target.Answers contents) (hsize : 0 < blockSize.toNat)
    (writes : List PlannedWrite)
    (hsized : ∀ write ∈ writes, write.bytes.length = blockSize.toNat) (state : σ)
    (kept : List (Option Bytes)) :
    ∃ answers after, (verifyRemaining target.recorded blockSize (state, kept) writes).2 =
        (after, kept ++ answers) ∧
      ((verifyRemaining target.recorded blockSize (state, kept) writes).1 = .ok () ↔
        (∀ answer ∈ answers, IsWhole blockSize answer) ∧
          ∀ write ∈ writes, write.bytes = contents.bytes write.physicalBlock.toNat) := by
  induction hlength : writes.length using Nat.strong_induction_on generalizing writes state kept with
  | _ length ih =>
  cases writes with
  | nil =>
    rw [verifyRemaining]
    exact ⟨[], state, by rw [List.append_nil],
      iff_of_true rfl ⟨List.forall_mem_nil _, List.forall_mem_nil _⟩⟩
  | cons first rest =>
    rw [verifyRemaining]
    have hanswers := htarget state first.physicalBlock (runLength blockSize first rest)
    simp only [VerificationTarget.recorded]
    generalize target state ⟨first.physicalBlock, blockSize, runLength blockSize first rest⟩ =
      answer at hanswers
    obtain ⟨answer, after⟩ := answer
    cases answer with
    | none =>
      exact ⟨[none], after, rfl, iff_of_false nofun fun h => h.1 none (List.mem_singleton_self _)⟩
    | some readback =>
      obtain ⟨hnonempty, hread⟩ := hanswers readback rfl
      dsimp only
      by_cases hwhole : readback.length % blockSize.toNat = 0
      · obtain ⟨hcount, hreadback⟩ := eq_range_of_prefix hsize hread hwhole
        have hformed : ¬isMalformed blockSize (runLength blockSize first rest) readback :=
          not_or.mpr ⟨hnonempty, not_or.mpr ⟨not_not.mpr hwhole, not_lt.mpr hcount⟩⟩
        have hpos := blocksRead_pos hformed
        obtain ⟨hrun, hadjacent⟩ := runLength_adjacent blockSize first rest
        rw [dif_neg hformed]
        generalize readback.length / blockSize.toNat = blocksRead at hcount hreadback hpos ⊢
        -- The answer against the writes it is about, and the writes behind them.
        have htaken : ((first :: rest).take blocksRead).length = blocksRead :=
          List.length_take_of_le (hcount.trans hrun)
        have hfollow : Adjacent first.physicalBlock.toNat ((first :: rest).take blocksRead) := by
          have htake := hadjacent.take blocksRead
          rwa [List.take_take, min_eq_left hcount] at htake
        have hsame : sameBlocks blockSize ((first :: rest).take blocksRead)
              (contents.range first.physicalBlock.toNat
                ((first :: rest).take blocksRead).length) = true ↔
            ∀ write ∈ (first :: rest).take blocksRead,
              write.bytes = contents.bytes write.physicalBlock.toNat :=
          sameBlocks_iff hfollow fun write hwrite => hsized write (List.mem_of_mem_take hwrite)
        rw [htaken, ← hreadback] at hsame
        have hall : (∀ write ∈ first :: rest,
            write.bytes = contents.bytes write.physicalBlock.toNat) ↔
            (∀ write ∈ (first :: rest).take blocksRead,
              write.bytes = contents.bytes write.physicalBlock.toNat) ∧
            ∀ write ∈ (first :: rest).drop blocksRead,
              write.bytes = contents.bytes write.physicalBlock.toNat := by
          conv_lhs => rw [← List.take_append_drop blocksRead (first :: rest)]
          exact List.forall_mem_append
        by_cases hmatches : sameBlocks blockSize ((first :: rest).take blocksRead) readback = true
        · rw [if_pos hmatches]
          have hshorter : ((first :: rest).drop blocksRead).length < length := by
            rw [List.length_cons] at hlength
            rw [List.length_drop, List.length_cons, hlength]
            omega
          obtain ⟨answers, final, hstate, hok⟩ := ih _ hshorter ((first :: rest).drop blocksRead)
            (fun write hwrite => hsized write (List.mem_of_mem_drop hwrite)) after
            (kept ++ [some readback]) rfl
          refine ⟨some readback :: answers, final, ?_, ?_⟩
          · rw [hstate, List.append_assoc, List.singleton_append]
          · rw [hok, hall, List.forall_mem_cons]
            exact ⟨fun h => ⟨⟨hwhole, h.1⟩, hsame.mp hmatches, h.2⟩, fun h => ⟨h.1.2, h.2.2⟩⟩
        · rw [if_neg hmatches]
          exact ⟨[some readback], after, rfl,
            iff_of_false nofun fun h => hmatches (hsame.mpr (hall.mp h.2).1)⟩
      · have hmalformed : isMalformed blockSize (runLength blockSize first rest) readback :=
          Or.inr (Or.inl hwhole)
        rw [dif_pos hmalformed]
        exact ⟨[some readback], after, rfl,
          iff_of_false nofun fun h => hwhole (h.1 _ (List.mem_singleton_self _))⟩

/-- Keeping the answers changes nothing else. -/
theorem verifyRemaining_recorded (target : VerificationTarget σ) (blockSize : UInt32)
    (writes : List PlannedWrite) (state : σ) (kept : List (Option Bytes)) :
    (verifyRemaining target.recorded blockSize (state, kept) writes).1 =
        (verifyRemaining target blockSize state writes).1 ∧
      (verifyRemaining target.recorded blockSize (state, kept) writes).2.1 =
        (verifyRemaining target blockSize state writes).2 := by
  induction hlength : writes.length using Nat.strong_induction_on generalizing writes state kept with
  | _ length ih =>
  cases writes with
  | nil =>
    rw [verifyRemaining, verifyRemaining]
    exact ⟨rfl, rfl⟩
  | cons first rest =>
    rw [verifyRemaining, verifyRemaining]
    simp only [VerificationTarget.recorded]
    generalize target state ⟨first.physicalBlock, blockSize, runLength blockSize first rest⟩ =
      answer
    obtain ⟨answer, after⟩ := answer
    cases answer with
    | none => exact ⟨rfl, rfl⟩
    | some readback =>
      dsimp only
      split_ifs with hmalformed hmatches
      · exact ⟨rfl, rfl⟩
      · have hpos := blocksRead_pos hmalformed
        rw [List.length_cons] at hlength
        refine ih _ ?_ _ _ _ rfl
        rw [List.length_drop, List.length_cons, hlength]
        omega
      · exact ⟨rfl, rfl⟩

/-- **A batch is verified** when it has writes, each of the size of a block, when every answer of the
target is a number of whole blocks, and when every planned block is behind the target as planned. -/
theorem verifyBatchAfterFlush_iff (htarget : target.Answers contents) (state : σ)
    (writes : List PlannedWrite) :
    ∃ answers, verifyBatchAfterFlush target.recorded blockSize (state, []) writes =
        ((verifyBatchAfterFlush target blockSize state writes).1,
          (verifyBatchAfterFlush target blockSize state writes).2, answers) ∧
      ((verifyBatchAfterFlush target blockSize state writes).1 = .ok () ↔
        IsSized blockSize writes ∧ (∀ answer ∈ answers, IsWhole blockSize answer) ∧
          ∀ write ∈ writes, write.bytes = contents.bytes write.physicalBlock.toNat) := by
  rw [verifyBatchAfterFlush, verifyBatchAfterFlush]
  split_ifs with hsized
  · have hsize : 0 < blockSize.toNat :=
      Nat.pos_of_ne_zero fun hzero => hsized.2.1 (UInt32.toNat_inj.mp hzero)
    obtain ⟨answers, after, hstate, hok⟩ :=
      verifyRemaining_iff htarget hsize writes hsized.2.2 state []
    obtain ⟨hresult, hafter⟩ := verifyRemaining_recorded target blockSize writes state []
    rw [hresult] at hok
    rw [List.nil_append] at hstate
    rw [hstate] at hafter
    refine ⟨answers, Prod.ext hresult ?_, hok.trans (and_iff_right hsized).symm⟩
    rw [hstate]
    exact Prod.ext hafter rfl
  · exact ⟨[], rfl, iff_of_false nofun fun h => hsized h.1⟩

/-- A target whose blocks hold their number. -/
def numberedContents : BlockContents 2 where
  bytes block := [UInt8.ofNat block, UInt8.ofNat block]
  length_bytes _ := rfl

/-- A target that answers with one block. -/
def oneBlockTarget : VerificationTarget Unit := fun _ request =>
  if request.maxBlocks = 0 then (none, ())
  else (some (numberedContents.bytes request.physicalBlock.toNat), ())

theorem oneBlockTarget_answers : oneBlockTarget.Answers numberedContents := by
  intro state block count readback hanswer
  rw [oneBlockTarget] at hanswer
  cases count with
  | zero => cases hanswer
  | succ count =>
    rw [if_neg (Nat.succ_ne_zero count), Option.some.injEq] at hanswer
    subst hanswer
    exact ⟨List.cons_ne_nil _ _, List.prefix_append _ _⟩

/-- Two blocks that are as planned, from a target that answers with one at a time. -/
theorem verifyBatchAfterFlush_sample :
    (verifyBatchAfterFlush oneBlockTarget 2 () [⟨7, [7, 7]⟩, ⟨8, [8, 8]⟩]).1 = .ok () := by
  obtain ⟨answers, hrecorded, hok⟩ := verifyBatchAfterFlush_iff oneBlockTarget_answers ()
    [⟨7, [7, 7]⟩, ⟨8, [8, 8]⟩]
  have hanswers : (verifyBatchAfterFlush oneBlockTarget.recorded 2 ((), [])
      [⟨7, [7, 7]⟩, ⟨8, [8, 8]⟩]).2.2 = [some [7, 7], some [8, 8]] := by decide +kernel
  rw [hrecorded] at hanswers
  dsimp only at hanswers
  rw [hok, hanswers]
  refine ⟨by decide, fun answer hanswer => ?_, by decide⟩
  rcases List.mem_pair.mp hanswer with rfl | rfl
  · rfl
  · rfl

/-- **An empty batch** is refused, though none of its blocks differs. -/
theorem verifyBatchAfterFlush_nil :
    ¬∀ (target : VerificationTarget Unit) (contents : BlockContents 2),
      target.Answers contents → ∀ writes : List PlannedWrite,
        ((verifyBatchAfterFlush target 2 () writes).1 = .ok () ↔
          ∀ write ∈ writes, write.bytes = contents.bytes write.physicalBlock.toNat) := by
  intro h
  exact nomatch (h oneBlockTarget numberedContents oneBlockTarget_answers []).mpr
    (List.forall_mem_nil _)

end Batch

end Checkpoint
end ApfsAccess
