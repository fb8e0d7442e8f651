import Mathlib

/-!
# Group commit

`AcceptForDeferredCommit` appends an accepted transaction to the journal and leaves the
flush to whoever asks for it first.  `EnsureDeferredAcceptanceDurability` elects one
caller as the flusher; the others wait, and one flush serves all of them.

Two mutexes are involved.  The *append* mutex is held over every append and over the
whole of a flush; the *state* mutex guards the pending and the durable sequence and the
two flags, and is held only for a moment.  What a thread does while it holds a mutex is
one step here, and the steps of any number of threads interleave freely.

The journal is represented by the sequences whose bytes it holds, in append order.  A
flush is represented by how many of them were there when it started; the starts of the
flushes that succeeded are kept, and nothing in the code reads them.

* `Inv` : the invariant; `Inv.step`, `Inv.run` : it is kept.
* `durability_never_reported_early` : a call answers true for an accepted sequence only
  after a successful flush that started when its bytes were in the journal.
-/

namespace ApfsAccess
namespace Journal

/-- Where a thread stands.  The callers of `EnsureDeferredAcceptanceDurability` carry
the sequence they ask for, and whether it had been accepted when they were called. -/
inductive Phase where
  | idle
  /-- `AcceptForDeferredCommit` has appended and not yet raised the pending sequence. -/
  | appended (sequence : ℕ)
  /-- At the head of the loop. -/
  | checking (sequence : ℕ) (accepted : Bool)
  /-- Waiting for the flush in progress. -/
  | waiting (sequence : ℕ) (accepted : Bool)
  /-- Elected, before the append mutex is taken. -/
  | elected (sequence : ℕ) (accepted : Bool)
  /-- Holding the append mutex. -/
  | locked (sequence : ℕ) (accepted : Bool)
  /-- The target has been read. -/
  | sampled (sequence : ℕ) (accepted : Bool) (target : ℕ)
  /-- Inside `FlushPendingAppends`. -/
  | flushing (sequence : ℕ) (accepted : Bool) (target start : ℕ)
  /-- `FlushPendingAppends` has returned. -/
  | flushed (sequence : ℕ) (accepted : Bool) (target start : ℕ) (succeeded : Bool)
  /-- The call has returned. -/
  | returned (sequence : ℕ) (accepted : Bool) (result : Bool)
  /-- `FlushAcceptedEvidenceDurability` inside `FlushPendingAppends`. -/
  | evidenceFlushing (sequence start : ℕ)
  /-- `FlushAcceptedEvidenceDurability` past `FlushPendingAppends`. -/
  | evidenceFlushed (sequence start : ℕ) (succeeded : Bool)
  deriving DecidableEq, Repr

/-- The shared state, and where each thread stands. -/
structure GroupCommit where
  appendedSequences : List ℕ := []
  successfulFlushes : List ℕ := []
  acceptedSequences : List ℕ := []
  deferredWalPendingSequence : ℕ := 0
  deferredWalDurableSequence : ℕ := 0
  deferredWalFlushInProgress : Bool := false
  deferredWalFlushFailed : Bool := false
  appendMutex : Option ℕ := none
  phase : ℕ → Phase := fun _ => .idle

/-- A step of one thread. -/
inductive Action where
  /-- `AcceptForDeferredCommit` appends under the append mutex. -/
  | append (thread sequence : ℕ)
  /-- `AcceptForDeferredCommit` raises the pending sequence and returns. -/
  | publish (thread : ℕ)
  /-- `Accept` appends and flushes under the append mutex. -/
  | accept (thread sequence : ℕ)
  /-- A call of `EnsureDeferredAcceptanceDurability`. -/
  | call (thread sequence : ℕ)
  | check (thread : ℕ)
  | wake (thread : ℕ)
  | lock (thread : ℕ)
  | sample (thread : ℕ)
  | startFlush (thread : ℕ)
  | endFlush (thread : ℕ) (succeeded : Bool)
  | settle (thread : ℕ)
  /-- `FlushAcceptedEvidenceDurability` takes the append mutex and starts its flush. -/
  | startEvidence (thread sequence : ℕ)
  | endEvidence (thread : ℕ) (succeeded : Bool)
  | settleEvidence (thread : ℕ)
  /-- `MarkDeferredAcceptanceDurabilityFailure`. -/
  | markFailure
  deriving DecidableEq, Repr

namespace GroupCommit

/-- Move one thread. -/
def setPhase (s : GroupCommit) (thread : ℕ) (phase : Phase) : GroupCommit :=
  { s with phase := Function.update s.phase thread phase }

/-- The block of `EnsureDeferredAcceptanceDurability` under the state mutex. -/
def checkStep (s : GroupCommit) (thread sequence : ℕ) (accepted : Bool) : GroupCommit :=
  if sequence ≤ s.deferredWalDurableSequence ∨ s.deferredWalPendingSequence < sequence then
    s.setPhase thread (.returned sequence accepted true)
  else if s.deferredWalFlushFailed then
    s.setPhase thread (.returned sequence accepted false)
  else if !s.deferredWalFlushInProgress then
    { s with deferredWalFlushInProgress := true }.setPhase thread (.elected sequence accepted)
  else
    s.setPhase thread (.waiting sequence accepted)

/-- One step; a step that a mutex or a condition holds up changes nothing. -/
def step (s : GroupCommit) : Action → GroupCommit
  | .append thread sequence =>
    if s.phase thread = .idle ∧ s.appendMutex = none ∧ 0 < sequence ∧
        ∀ other ∈ s.appendedSequences, other < sequence then
      { s with appendedSequences := s.appendedSequences ++ [sequence] }.setPhase thread
        (.appended sequence)
    else s
  | .publish thread =>
    match s.phase thread with
    | .appended sequence =>
      { s with
        deferredWalPendingSequence := max s.deferredWalPendingSequence sequence
        acceptedSequences := s.acceptedSequences ++ [sequence] }.setPhase thread .idle
    | _ => s
  | .accept thread sequence =>
    if s.phase thread = .idle ∧ s.appendMutex = none ∧ 0 < sequence ∧
        ∀ other ∈ s.appendedSequences, other < sequence then
      { s with
        appendedSequences := s.appendedSequences ++ [sequence]
        successfulFlushes := s.successfulFlushes ++ [s.appendedSequences.length + 1]
        acceptedSequences := s.acceptedSequences ++ [sequence] }
    else s
  | .call thread sequence =>
    if s.phase thread = .idle then
      s.setPhase thread (.checking sequence (decide (sequence ∈ s.acceptedSequences)))
    else s
  | .check thread =>
    match s.phase thread with
    | .checking sequence accepted => s.checkStep thread sequence accepted
    | _ => s
  | .wake thread =>
    match s.phase thread with
    | .waiting sequence accepted =>
      if sequence ≤ s.deferredWalDurableSequence ∨ s.deferredWalFlushFailed ∨
          !s.deferredWalFlushInProgress then
        s.setPhase thread (.checking sequence accepted)
      else s
    | _ => s
  | .lock thread =>
    match s.phase thread with
    | .elected sequence accepted =>
      if s.appendMutex = none then
        { s with appendMutex := some thread }.setPhase thread (.locked sequence accepted)
      else s
    | _ => s
  | .sample thread =>
    match s.phase thread with
    | .locked sequence accepted =>
      s.setPhase thread (.sampled sequence accepted s.deferredWalPendingSequence)
    | _ => s
  | .startFlush thread =>
    match s.phase thread with
    | .sampled sequence accepted target =>
      s.setPhase thread (.flushing sequence accepted target s.appendedSequences.length)
    | _ => s
  | .endFlush thread succeeded =>
    match s.phase thread with
    | .flushing sequence accepted target start =>
      { s with
        successfulFlushes :=
          if succeeded then s.successfulFlushes ++ [start] else s.successfulFlushes }.setPhase thread
        (.flushed sequence accepted target start succeeded)
    | _ => s
  | .settle thread =>
    match s.phase thread with
    | .flushed sequence accepted target _ true =>
      { s with
        deferredWalDurableSequence := max s.deferredWalDurableSequence target
        deferredWalFlushInProgress := false
        appendMutex := none }.setPhase thread (.checking sequence accepted)
    | .flushed sequence accepted _ _ false =>
      { s with
        deferredWalFlushFailed := true
        deferredWalFlushInProgress := false
        appendMutex := none }.setPhase thread (.returned sequence accepted false)
    | _ => s
  | .startEvidence thread sequence =>
    if s.phase thread = .idle ∧ s.appendMutex = none ∧ sequence ∈ s.appendedSequences then
      { s with appendMutex := some thread }.setPhase thread
        (.evidenceFlushing sequence s.appendedSequences.length)
    else s
  | .endEvidence thread succeeded =>
    match s.phase thread with
    | .evidenceFlushing sequence start =>
      { s with
        successfulFlushes :=
          if succeeded then s.successfulFlushes ++ [start] else s.successfulFlushes }.setPhase thread
        (.evidenceFlushed sequence start succeeded)
    | _ => s
  | .settleEvidence thread =>
    match s.phase thread with
    | .evidenceFlushed sequence _ true =>
      { s with
        deferredWalDurableSequence := max s.deferredWalDurableSequence sequence
        appendMutex := none }.setPhase thread .idle
    | .evidenceFlushed _ _ false =>
      { s with deferredWalFlushFailed := true, appendMutex := none }.setPhase thread .idle
    | _ => s
  | .markFailure => { s with deferredWalFlushFailed := true }

/-- A run of steps. -/
def run (s : GroupCommit) (actions : List Action) : GroupCommit :=
  actions.foldl step s

/-- The bytes of `sequence` were in the journal when a flush started that succeeded. -/
def Covered (s : GroupCommit) (sequence : ℕ) : Prop :=
  ∃ start ∈ s.successfulFlushes, sequence ∈ s.appendedSequences.take start

/-! ## The invariant -/

/-- Where `s'` is a later state than `s`, as far as the records kept of it go. -/
structure Later (s s' : GroupCommit) : Prop where
  appended : s.appendedSequences <+: s'.appendedSequences
  flushes : s.successfulFlushes ⊆ s'.successfulFlushes
  accepted : s.acceptedSequences ⊆ s'.acceptedSequences

theorem Later.mem_take {s s' : GroupCommit} (h : Later s s') {sequence start : ℕ}
    (hmem : sequence ∈ s.appendedSequences.take start) :
    sequence ∈ s'.appendedSequences.take start := by
  obtain ⟨rest, hrest⟩ := h.appended
  rw [← hrest, List.take_append]
  exact List.mem_append_left _ hmem

theorem Later.covered {s s' : GroupCommit} (h : Later s s') {sequence : ℕ}
    (hcovered : s.Covered sequence) : s'.Covered sequence := by
  obtain ⟨start, hstart, hmem⟩ := hcovered
  exact ⟨start, h.flushes hstart, h.mem_take hmem⟩

/-- What each phase knows. -/
def PhaseInv (s : GroupCommit) : Phase → Prop
  | .idle => True
  | .appended sequence => sequence ∈ s.appendedSequences
  | .checking sequence accepted | .waiting sequence accepted | .elected sequence accepted
  | .locked sequence accepted => accepted = true → sequence ∈ s.acceptedSequences
  | .sampled sequence accepted target =>
    (accepted = true → sequence ∈ s.acceptedSequences) ∧
      (target = 0 ∨ target ∈ s.appendedSequences)
  | .flushing sequence accepted target start =>
    (accepted = true → sequence ∈ s.acceptedSequences) ∧
      (target = 0 ∨ target ∈ s.appendedSequences.take start)
  | .flushed sequence accepted target start succeeded =>
    (accepted = true → sequence ∈ s.acceptedSequences) ∧
      (target = 0 ∨ target ∈ s.appendedSequences.take start) ∧
      (succeeded = true → start ∈ s.successfulFlushes)
  | .returned sequence accepted result =>
    accepted = true → result = true → s.Covered sequence
  | .evidenceFlushing sequence start => sequence ∈ s.appendedSequences.take start
  | .evidenceFlushed sequence start succeeded =>
    sequence ∈ s.appendedSequences.take start ∧ (succeeded = true → start ∈ s.successfulFlushes)

theorem PhaseInv.later {s s' : GroupCommit} (h : Later s s') {phase : Phase}
    (hphase : s.PhaseInv phase) : s'.PhaseInv phase := by
  have hmem : ∀ {sequence}, sequence ∈ s.appendedSequences → sequence ∈ s'.appendedSequences :=
    fun hs => h.appended.subset hs
  cases phase with
  | idle => trivial
  | appended sequence => exact hmem hphase
  | checking sequence accepted => exact fun ha => h.accepted (hphase ha)
  | waiting sequence accepted => exact fun ha => h.accepted (hphase ha)
  | elected sequence accepted => exact fun ha => h.accepted (hphase ha)
  | locked sequence accepted => exact fun ha => h.accepted (hphase ha)
  | sampled sequence accepted target =>
    exact ⟨fun ha => h.accepted (hphase.1 ha), hphase.2.imp_right hmem⟩
  | flushing sequence accepted target start =>
    exact ⟨fun ha => h.accepted (hphase.1 ha), hphase.2.imp_right h.mem_take⟩
  | flushed sequence accepted target start succeeded =>
    exact ⟨fun ha => h.accepted (hphase.1 ha), hphase.2.1.imp_right h.mem_take,
      fun hs => h.flushes (hphase.2.2 hs)⟩
  | returned sequence accepted result => exact fun ha hr => h.covered (hphase ha hr)
  | evidenceFlushing sequence start => exact h.mem_take hphase
  | evidenceFlushed sequence start succeeded =>
    exact ⟨h.mem_take hphase.1, fun hs => h.flushes (hphase.2 hs)⟩

/-- The invariant of the group commit. -/
structure Inv (s : GroupCommit) : Prop where
  increasing : s.appendedSequences.Pairwise (· < ·)
  positive : ∀ sequence ∈ s.appendedSequences, 0 < sequence
  pending : s.deferredWalPendingSequence = 0 ∨
    s.deferredWalPendingSequence ∈ s.appendedSequences
  durable : s.deferredWalDurableSequence = 0 ∨
    s.deferredWalDurableSequence ∈ s.appendedSequences
  covered : ∀ sequence ∈ s.appendedSequences, sequence ≤ s.deferredWalDurableSequence →
    s.Covered sequence
  accepted : ∀ sequence ∈ s.acceptedSequences, sequence ∈ s.appendedSequences ∧
    (sequence ≤ s.deferredWalPendingSequence ∨ s.Covered sequence)
  phases : ∀ thread, s.PhaseInv (s.phase thread)

/-- In an increasing list, what is not above a member of the head is in the head. -/
theorem mem_take_of_le {l : List ℕ} (hl : l.Pairwise (· < ·)) {n x y : ℕ} (hx : x ∈ l.take n)
    (hy : y ∈ l) (hle : y ≤ x) : y ∈ l.take n := by
  rw [← List.take_append_drop n l] at hy hl
  rcases List.mem_append.mp hy with hhead | htail
  · exact hhead
  · have hlt := (List.pairwise_append.mp hl).2.2 x hx y htail
    omega

theorem inv_init : Inv {} where
  increasing := List.Pairwise.nil
  positive := by simp
  pending := .inl rfl
  durable := .inl rfl
  covered := by simp
  accepted := by simp
  phases := fun _ => trivial

variable {s : GroupCommit}

/-- The flags and the append mutex are not part of the invariant. -/
theorem Inv.flags (h : Inv s) (inProgress failed : Bool) (mutex : Option ℕ) :
    Inv { s with
      deferredWalFlushInProgress := inProgress
      deferredWalFlushFailed := failed
      appendMutex := mutex } :=
  ⟨h.increasing, h.positive, h.pending, h.durable, h.covered, h.accepted,
    fun thread => (h.phases thread).later ⟨List.prefix_refl _, List.Subset.refl _,
      List.Subset.refl _⟩⟩

/-- A thread may move to a phase whose knowledge holds. -/
theorem Inv.setPhase (h : Inv s) (thread : ℕ) {phase : Phase} (hphase : s.PhaseInv phase) :
    Inv (s.setPhase thread phase) := by
  have hlater : Later s (s.setPhase thread phase) :=
    ⟨List.prefix_refl _, List.Subset.refl _, List.Subset.refl _⟩
  refine ⟨h.increasing, h.positive, h.pending, h.durable, h.covered, h.accepted, fun other => ?_⟩
  change (s.setPhase thread phase).PhaseInv (Function.update s.phase thread phase other)
  by_cases hother : other = thread
  · rw [hother, Function.update_self]
    exact hphase.later hlater
  · rw [Function.update_of_ne hother]
    exact (h.phases other).later hlater

/-- A flush that has succeeded is recorded. -/
theorem Inv.flush (h : Inv s) (start : ℕ) :
    Inv { s with successfulFlushes := s.successfulFlushes ++ [start] } := by
  have hlater : Later s { s with successfulFlushes := s.successfulFlushes ++ [start] } :=
    ⟨List.prefix_refl _, List.subset_append_left _ _, List.Subset.refl _⟩
  exact ⟨h.increasing, h.positive, h.pending, h.durable,
    fun sequence hmem hle => hlater.covered (h.covered sequence hmem hle),
    fun sequence hmem => ⟨(h.accepted sequence hmem).1,
      (h.accepted sequence hmem).2.imp_right hlater.covered⟩,
    fun thread => (h.phases thread).later hlater⟩

/-- The durable sequence may be raised to one that a successful flush has covered. -/
theorem Inv.raise (h : Inv s) {target start : ℕ}
    (htarget : target = 0 ∨ target ∈ s.appendedSequences.take start)
    (hstart : start ∈ s.successfulFlushes) :
    Inv { s with deferredWalDurableSequence := max s.deferredWalDurableSequence target } := by
  refine ⟨h.increasing, h.positive, h.pending, ?_, ?_, h.accepted,
    fun thread => (h.phases thread).later ⟨List.prefix_refl _, List.Subset.refl _,
      List.Subset.refl _⟩⟩
  · change max s.deferredWalDurableSequence target = 0 ∨
      max s.deferredWalDurableSequence target ∈ s.appendedSequences
    rcases Nat.le_total s.deferredWalDurableSequence target with hle | hle
    · rw [Nat.max_eq_right hle]
      exact htarget.imp_right List.mem_of_mem_take
    · rw [Nat.max_eq_left hle]
      exact h.durable
  · intro sequence hmem hle
    have hmem : sequence ∈ s.appendedSequences := hmem
    have hle : sequence ≤ max s.deferredWalDurableSequence target := hle
    by_cases hdurable : sequence ≤ s.deferredWalDurableSequence
    · exact h.covered sequence hmem hdurable
    · -- the sequence is at or below the target, whose bytes the flush found in the journal
      have hpositive := h.positive sequence hmem
      rcases htarget with rfl | htarget
      · omega
      · exact ⟨start, hstart, mem_take_of_le h.increasing htarget hmem (by omega)⟩

/-- A sequence above all others is appended. -/
theorem Inv.append (h : Inv s) {sequence : ℕ} (hpositive : 0 < sequence)
    (habove : ∀ other ∈ s.appendedSequences, other < sequence) :
    Inv { s with appendedSequences := s.appendedSequences ++ [sequence] } := by
  have hlater : Later s { s with appendedSequences := s.appendedSequences ++ [sequence] } :=
    ⟨List.prefix_append _ _, List.Subset.refl _, List.Subset.refl _⟩
  refine ⟨?_, ?_, h.pending.imp_right fun hmem => List.mem_append_left _ hmem,
    h.durable.imp_right fun hmem => List.mem_append_left _ hmem, ?_,
    fun other hmem => ⟨List.mem_append_left _ (h.accepted other hmem).1,
      (h.accepted other hmem).2.imp_right hlater.covered⟩,
    fun thread => (h.phases thread).later hlater⟩
  · change (s.appendedSequences ++ [sequence]).Pairwise (· < ·)
    refine List.pairwise_append.mpr ⟨h.increasing, List.pairwise_singleton _ _, ?_⟩
    intro other hother last hlast
    rw [List.mem_singleton.mp hlast]
    exact habove other hother
  · intro other hother
    rcases List.mem_append.mp hother with hother | hother
    · exact h.positive other hother
    · rw [List.mem_singleton.mp hother]
      exact hpositive
  · intro other hother hle
    rcases List.mem_append.mp hother with hother | hother
    · exact hlater.covered (h.covered other hother hle)
    · -- the new sequence is above the durable one
      rw [List.mem_singleton.mp hother] at hle
      have hle : sequence ≤ s.deferredWalDurableSequence := hle
      rcases h.durable with hzero | hmem
      · omega
      · have := habove _ hmem
        omega

/-- The pending sequence is raised to one that has been appended, and that one counts as
accepted from then on. -/
theorem Inv.publish (h : Inv s) {sequence : ℕ} (hmem : sequence ∈ s.appendedSequences) :
    Inv { s with
      deferredWalPendingSequence := max s.deferredWalPendingSequence sequence
      acceptedSequences := s.acceptedSequences ++ [sequence] } := by
  have hlater : Later s { s with
      deferredWalPendingSequence := max s.deferredWalPendingSequence sequence
      acceptedSequences := s.acceptedSequences ++ [sequence] } :=
    ⟨List.prefix_refl _, List.Subset.refl _, List.subset_append_left _ _⟩
  refine ⟨h.increasing, h.positive, ?_, h.durable, h.covered, ?_,
    fun thread => (h.phases thread).later hlater⟩
  · change max s.deferredWalPendingSequence sequence = 0 ∨
      max s.deferredWalPendingSequence sequence ∈ s.appendedSequences
    rcases Nat.le_total s.deferredWalPendingSequence sequence with hle | hle
    · rw [Nat.max_eq_right hle]
      exact .inr hmem
    · rw [Nat.max_eq_left hle]
      exact h.pending
  · intro other hother
    rcases List.mem_append.mp hother with hother | hother
    · refine ⟨(h.accepted other hother).1, (h.accepted other hother).2.imp_left fun hle => ?_⟩
      exact hle.trans (Nat.le_max_left _ _)
    · rw [List.mem_singleton.mp hother]
      exact ⟨hmem, .inl (Nat.le_max_right _ _)⟩

/-- A sequence that a successful flush has covered counts as accepted. -/
theorem Inv.acceptCovered (h : Inv s) {sequence : ℕ} (hmem : sequence ∈ s.appendedSequences)
    (hcovered : s.Covered sequence) :
    Inv { s with acceptedSequences := s.acceptedSequences ++ [sequence] } := by
  have hlater : Later s { s with acceptedSequences := s.acceptedSequences ++ [sequence] } :=
    ⟨List.prefix_refl _, List.Subset.refl _, List.subset_append_left _ _⟩
  refine ⟨h.increasing, h.positive, h.pending, h.durable, h.covered, ?_,
    fun thread => (h.phases thread).later hlater⟩
  intro other hother
  rcases List.mem_append.mp hother with hother | hother
  · exact h.accepted other hother
  · rw [List.mem_singleton.mp hother]
    exact ⟨hmem, .inr hcovered⟩

/-- The block under the state mutex answers true only for a covered sequence. -/
theorem Inv.checkStep (h : Inv s) (thread sequence : ℕ) (accepted : Bool)
    (haccepted : accepted = true → sequence ∈ s.acceptedSequences) :
    Inv (s.checkStep thread sequence accepted) := by
  unfold GroupCommit.checkStep
  split
  · rename_i hanswer
    refine h.setPhase thread fun ha _ => ?_
    obtain ⟨hmem, hpending⟩ := h.accepted sequence (haccepted ha)
    rcases hanswer with hdurable | hunknown
    · exact h.covered sequence hmem hdurable
    · exact hpending.resolve_left (by omega)
  · split
    · exact h.setPhase thread fun _ hfalse => absurd hfalse (by simp)
    · split
      · exact (h.flags true s.deferredWalFlushFailed s.appendMutex).setPhase thread haccepted
      · exact h.setPhase thread haccepted

/-- Recording the end of a flush. -/
theorem Inv.endFlush (h : Inv s) (start : ℕ) (succeeded : Bool) :
    Inv { s with
      successfulFlushes :=
        if succeeded then s.successfulFlushes ++ [start] else s.successfulFlushes } := by
  cases succeeded with
  | false => exact h
  | true => exact h.flush start

/-- Every step keeps the invariant. -/
theorem Inv.step (h : Inv s) (action : Action) : Inv (s.step action) := by
  cases action with
  | append thread sequence =>
    unfold GroupCommit.step
    dsimp only
    split
    · rename_i hguard
      exact (h.append hguard.2.2.1 hguard.2.2.2).setPhase thread (List.mem_append_right _ (by simp))
    · exact h
  | publish thread =>
    have hphase := h.phases thread
    unfold GroupCommit.step
    dsimp only
    split
    · rename_i sequence heq
      rw [heq] at hphase
      exact (h.publish hphase).setPhase thread trivial
    · exact h
  | accept thread sequence =>
    unfold GroupCommit.step
    dsimp only
    split
    · rename_i hguard
      have hflushed := (h.append hguard.2.2.1 hguard.2.2.2).flush (s.appendedSequences.length + 1)
      refine hflushed.acceptCovered (List.mem_append_right _ (by simp))
        ⟨s.appendedSequences.length + 1, List.mem_append_right _ (by simp), ?_⟩
      change sequence ∈ (s.appendedSequences ++ [sequence]).take (s.appendedSequences.length + 1)
      rw [List.take_of_length_le (by simp)]
      simp
    · exact h
  | call thread sequence =>
    unfold GroupCommit.step
    dsimp only
    split
    · exact h.setPhase thread fun haccepted => of_decide_eq_true haccepted
    · exact h
  | check thread =>
    have hphase := h.phases thread
    unfold GroupCommit.step
    dsimp only
    split
    · rename_i sequence accepted heq
      rw [heq] at hphase
      exact h.checkStep thread sequence accepted hphase
    · exact h
  | wake thread =>
    have hphase := h.phases thread
    unfold GroupCommit.step
    dsimp only
    split
    · rename_i sequence accepted heq
      rw [heq] at hphase
      split
      · exact h.setPhase thread hphase
      · exact h
    · exact h
  | lock thread =>
    have hphase := h.phases thread
    unfold GroupCommit.step
    dsimp only
    split
    · rename_i sequence accepted heq
      rw [heq] at hphase
      split
      · exact (h.flags s.deferredWalFlushInProgress s.deferredWalFlushFailed (some thread)).setPhase
          thread hphase
      · exact h
    · exact h
  | sample thread =>
    have hphase := h.phases thread
    unfold GroupCommit.step
    dsimp only
    split
    · rename_i sequence accepted heq
      rw [heq] at hphase
      exact h.setPhase thread ⟨hphase, h.pending⟩
    · exact h
  | startFlush thread =>
    have hphase := h.phases thread
    unfold GroupCommit.step
    dsimp only
    split
    · rename_i sequence accepted target heq
      rw [heq] at hphase
      refine h.setPhase thread ⟨hphase.1, ?_⟩
      rw [List.take_length]
      exact hphase.2
    · exact h
  | endFlush thread succeeded =>
    have hphase := h.phases thread
    unfold GroupCommit.step
    dsimp only
    split
    · rename_i sequence accepted target start heq
      rw [heq] at hphase
      refine (h.endFlush start succeeded).setPhase thread ⟨hphase.1, hphase.2, fun hs => ?_⟩
      simp [hs]
    · exact h
  | settle thread =>
    have hphase := h.phases thread
    unfold GroupCommit.step
    dsimp only
    split
    · rename_i sequence accepted target start heq
      rw [heq] at hphase
      exact ((h.raise hphase.2.1 (hphase.2.2 rfl)).flags false s.deferredWalFlushFailed
        none).setPhase thread hphase.1
    · rename_i sequence accepted target start heq
      exact (h.flags false true none).setPhase thread fun _ hfalse => absurd hfalse (by simp)
    · exact h
  | startEvidence thread sequence =>
    unfold GroupCommit.step
    dsimp only
    split
    · rename_i hguard
      refine (h.flags s.deferredWalFlushInProgress s.deferredWalFlushFailed (some thread)).setPhase
        thread ?_
      change sequence ∈ s.appendedSequences.take s.appendedSequences.length
      rw [List.take_length]
      exact hguard.2.2
    · exact h
  | endEvidence thread succeeded =>
    have hphase := h.phases thread
    unfold GroupCommit.step
    dsimp only
    split
    · rename_i sequence start heq
      rw [heq] at hphase
      refine (h.endFlush start succeeded).setPhase thread ⟨hphase, fun hs => ?_⟩
      simp [hs]
    · exact h
  | settleEvidence thread =>
    have hphase := h.phases thread
    unfold GroupCommit.step
    dsimp only
    split
    · rename_i sequence start heq
      rw [heq] at hphase
      exact ((h.raise (.inr hphase.1) (hphase.2 rfl)).flags s.deferredWalFlushInProgress
        s.deferredWalFlushFailed none).setPhase thread trivial
    · exact (h.flags s.deferredWalFlushInProgress true none).setPhase thread trivial
    · exact h
  | markFailure => exact h.flags s.deferredWalFlushInProgress true s.appendMutex

/-- Every run keeps the invariant. -/
theorem Inv.run (h : Inv s) (actions : List Action) : Inv (s.run actions) := by
  induction actions generalizing s with
  | nil => exact h
  | cons action actions ih => exact ih (h.step action)

/-- No step lowers the durable sequence. -/
theorem durable_le_step (s : GroupCommit) (action : Action) :
    s.deferredWalDurableSequence ≤ (s.step action).deferredWalDurableSequence := by
  have hcheck : ∀ thread sequence accepted,
      (s.checkStep thread sequence accepted).deferredWalDurableSequence =
        s.deferredWalDurableSequence := by
    intro thread sequence accepted
    unfold GroupCommit.checkStep
    split
    · rfl
    · split
      · rfl
      · split <;> rfl
  cases action with
  | check thread =>
    unfold GroupCommit.step
    dsimp only
    split
    · exact (hcheck _ _ _).ge
    · exact Nat.le_refl _
  | settle thread =>
    unfold GroupCommit.step
    dsimp only
    split
    · exact Nat.le_max_left _ _
    · exact Nat.le_refl _
    · exact Nat.le_refl _
  | settleEvidence thread =>
    unfold GroupCommit.step
    dsimp only
    split
    · exact Nat.le_max_left _ _
    · exact Nat.le_refl _
    · exact Nat.le_refl _
  | wake thread =>
    unfold GroupCommit.step
    dsimp only
    split
    · split <;> exact Nat.le_refl _
    · exact Nat.le_refl _
  | lock thread =>
    unfold GroupCommit.step
    dsimp only
    split
    · split <;> exact Nat.le_refl _
    · exact Nat.le_refl _
  | markFailure => exact Nat.le_refl _
  | append thread sequence | publish thread | accept thread sequence | call thread sequence
  | sample thread | startFlush thread | endFlush thread succeeded
  | startEvidence thread sequence | endEvidence thread succeeded =>
    unfold GroupCommit.step
    dsimp only
    split <;> exact Nat.le_refl _

theorem durable_le_run (s : GroupCommit) (actions : List Action) :
    s.deferredWalDurableSequence ≤ (s.run actions).deferredWalDurableSequence := by
  induction actions generalizing s with
  | nil => exact Nat.le_refl _
  | cons action actions ih => exact (durable_le_step s action).trans (ih (s.step action))

/-- **Durability is never reported early.**  In every state that any interleaving
reaches: a call that was made for an accepted sequence and has answered true has a
successful flush behind it that started when the bytes of the sequence were in the
journal; every sequence in the journal that the durable sequence has reached has such a
flush behind it too, so a failed flush is never counted; and no later step lowers the
durable sequence. -/
theorem durability_never_reported_early (actions : List Action) :
    let s := run {} actions
    (∀ thread sequence, s.phase thread = .returned sequence true true →
      ∃ start ∈ s.successfulFlushes, sequence ∈ s.appendedSequences.take start) ∧
    (∀ sequence ∈ s.appendedSequences, sequence ≤ s.deferredWalDurableSequence →
      ∃ start ∈ s.successfulFlushes, sequence ∈ s.appendedSequences.take start) ∧
    (∀ later : List Action,
      s.deferredWalDurableSequence ≤ (s.run later).deferredWalDurableSequence) := by
  intro s
  have h : Inv s := inv_init.run actions
  refine ⟨fun thread sequence hreturned => ?_, h.covered, durable_le_run s⟩
  have hphase := h.phases thread
  rw [hreturned] at hphase
  exact hphase rfl rfl

end GroupCommit
end Journal
end ApfsAccess
