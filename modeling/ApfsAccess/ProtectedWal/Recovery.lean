import ApfsAccess.Library.Renames
import ApfsAccess.ProtectedWal.Retention

/-!
# Recovery of an interrupted compaction

Compaction writes its replacement beside the log, renames the log away, the replacement into its place
and the log into an archive.  Recovery goes back to the log, or on to the replacement, from whatever an
interruption has left, and it may be interrupted itself.

A crash is a call that fails: after it nothing is written or renamed any more.

* `Phase` : the directories that an interruption can leave.
* `recovery_keeps_log` : none of them has lost the log.
-/

namespace ApfsAccess
namespace ProtectedWal

open ByteBuffer Format Renames
open Wal (ReadStatus WalRecord WalReadLimits)

/-! ## The directory -/

/-- The names beside a log: `.compact.pold`, `.compact.pnext`, `.pcold.` with a digest, and `.pcfailed.`
with a digest and perhaps a number. -/
inductive FileName where
  | canonical
  | old
  | next
  | archive (digest : Digest)
  | quarantine (digest : Digest) (suffix : Option ℕ)
deriving DecidableEq

/-- The log and the names beside it. -/
abbrev WalDirectory := Directory FileName Bytes

/-- `ProtectedRecoveryChoice`. -/
inductive ProtectedRecoveryChoice where
  | retainOriginal
  | promoteReplacement
deriving DecidableEq

/-- `CompactionResult`. -/
inductive CompactionResult where
  | succeeded
  | rejectedBeforeWrite
  | bytesMayHavePersisted
deriving DecidableEq

/-- Which calls go through: cuts, handle checks, flushes and renames. -/
structure RecoveryCalls extends Calls FileName where
  /-- The lease, the handles and the names beside the log that are not looked at here. -/
  admitted : Bool
  /-- The flush of the original, where it is in its place. -/
  originalFlush : Bool
  /-- What comes before the log is opened again. -/
  reopen : Bool

/-- Which calls of a compaction go through. -/
structure CompactionCalls extends RecoveryCalls where
  /-- Everything before the replacement is created. -/
  sealed : Bool
  /-- What follows the creation. -/
  created : Bool
  /-- What a write that is not finished leaves behind. -/
  torn : Option Bytes
  /-- The flush and the read back. -/
  verified : Bool

section Recovery

variable (o : Options)

/-- What `ProtectedReadBlob` reads of a file. -/
structure Blob where
  records : List WalRecord
  head : ProtectedHead
  proof : ProtectedCheckpoint

/-- `ProtectedReadBlob`. -/
def protectedReadBlob (bytes : Bytes) : Option Blob :=
  if o.maxBytes < bytes.length then none
  else
    match decodeProtectedWal o o.readLimits o.maxAllocationBytes {} bytes with
    | .error _ => none
    | .ok s => (protectedHeadOf o bytes s.records).map fun head => ⟨s.records, head, s.proof⟩

/-- A file that is there has to be readable. -/
def readPresent (file : Option Bytes) : Option (Option (Bytes × Blob)) :=
  match file with
  | none => some none
  | some bytes => (protectedReadBlob o bytes).map fun blob => some (bytes, blob)

/-- The name a replacement that was not taken gets; `n` further names are tried. -/
def quarantineFrom (d : WalDirectory) (digest : Digest) : ℕ → ℕ → Option ℕ → Option FileName
  | 0, _, suffix =>
    if (d (.quarantine digest suffix)).isNone then some (.quarantine digest suffix) else none
  | n + 1, at', suffix =>
    if (d (.quarantine digest suffix)).isNone then some (.quarantine digest suffix)
    else quarantineFrom d digest n (at' + 1) (some at')

/-- `quarantine`. -/
def quarantineName (d : WalDirectory) (bytes : Bytes) : Option FileName :=
  quarantineFrom d (o.sha256 bytes) 16 0 none

/-- What recovery is going to rename. -/
structure RecoveryPlan where
  originalCanonical : Bool
  moves : List (Move FileName)

/-- The renames of `RetainOriginal`. -/
def retainOriginal (previous : ProtectedHead) (originalCanonical : Bool) (d : WalDirectory) :
    Option (List (Move FileName)) :=
  if (d (.archive previous.sha256)).isSome then none
  else if (d .canonical).isSome ∧ originalCanonical = false then none
  else if originalCanonical = false ∧ (d .old).isNone then none
  else
    let restore : List (Move FileName) := if originalCanonical then [] else [⟨.old, .canonical⟩]
    match d .next with
    | none => some restore
    | some bytes => (quarantineName o d bytes).map fun name => ⟨.next, name⟩ :: restore

/-- The log the replacement is compared with: in its place, renamed away, or archived. -/
def recoverySource (previous : ProtectedHead) (total : ℕ) (canonical predecessor : Option (Bytes × Blob))
    (originalCanonical : Bool) (d : WalDirectory) : Option (Bytes × Blob) :=
  if originalCanonical then canonical
  else
    match predecessor with
    | some blob => some blob
    | none =>
      match d (.archive previous.sha256) with
      | none => none
      | some bytes =>
        if o.maxAllocationBytes / 8 < total + bytes.length then none
        else
          match protectedReadBlob o bytes with
          | none => none
          | some blob => if blob.head = previous then some (bytes, blob) else none

/-- The replacement: beside the log, or in its place. -/
def recoveryReplacement (canonical : Option (Bytes × Blob)) (originalCanonical : Bool)
    (d : WalDirectory) : Option Blob :=
  match d .next with
  | some bytes =>
    if canonical.isSome ∧ originalCanonical = false then none else protectedReadBlob o bytes
  | none => if originalCanonical then none else canonical.map Prod.snd

/-- The test of a replacement against the log it replaces. -/
def replacementVerified (previous : ProtectedHead) (floor : UInt64) (source : Bytes × Blob)
    (replacement : Blob) : Bool :=
  let proof := replacement.proof
  let keep := protectedRetention source.2.records floor
  decide (proof.previous = previous) && proof.floor == floor &&
    proof.retained.toNat == replacement.records.length && keep.count true == proof.retained.toNat &&
    decide (protectedWalkKept o (fun digest plain => some (protectedSemanticStep o digest plain))
      source.1 source.2.records keep (protectedSemanticStart o) = some proof.semantic)

/-- The renames of `PromoteReplacement`. -/
def promoteReplacement (previous : ProtectedHead) (floor : UInt64) (total : ℕ)
    (canonical predecessor : Option (Bytes × Blob)) (originalCanonical : Bool) (d : WalDirectory) :
    Option (List (Move FileName)) :=
  match recoverySource o previous total canonical predecessor originalCanonical d,
      recoveryReplacement o canonical originalCanonical d with
  | some source, some replacement =>
    if replacementVerified o previous floor source replacement = false then none
    else if (predecessor.isSome ∨ originalCanonical = true) ∧
        (d (.archive previous.sha256)).isSome then none
    else
      some ((if originalCanonical then [⟨.canonical, .old⟩] else []) ++
        ((if (d .next).isSome then [⟨.next, .canonical⟩] else []) ++
          if originalCanonical ∨ predecessor.isSome then [⟨.old, .archive previous.sha256⟩] else []))
  | _, _ => none

/-- The checks of `RecoverProtectedCompaction`, all of which come before its first rename. -/
def recoveryPlan (previous : ProtectedHead) (floor : UInt64) (choice : ProtectedRecoveryChoice)
    (d : WalDirectory) : Option RecoveryPlan :=
  let sizes := ([d .canonical, d .old, d .next].filterMap id).map List.length
  if protectedHeadValid previous false = false ∨ floor = 0 ∨ previous.lastSequence + 1 < floor ∨
      protectedConfigValid o = false ∨ (∃ size ∈ sizes, o.maxBytes < size) ∨
      o.maxAllocationBytes / 8 < sizes.sum then none
  else
    match readPresent o (d .canonical), readPresent o (d .old) with
    | some canonical, some predecessor =>
      let currentHead := (canonical.map fun file => file.2.head).getD {}
      if ∃ file ∈ predecessor, file.2.head ≠ previous ∨ currentHead = previous then none
      else
        let originalCanonical := canonical.isSome && decide (currentHead = previous)
        let moves := match choice with
          | .retainOriginal => retainOriginal o previous originalCanonical d
          | .promoteReplacement => promoteReplacement o previous floor sizes.sum canonical predecessor
              originalCanonical d
        moves.map fun moves => ⟨originalCanonical, moves⟩
    | _, _ => none

/-- `CaptureProtectedHistoryHead` goes through. -/
def captured (d : WalDirectory) : Bool :=
  (d .old).isNone && (d .next).isNone && (d .canonical).any fun bytes =>
    decide (bytes.length ≤ o.maxBytes) && match readProtected o bytes with
      | .error _ => false
      | .ok s => (protectedHeadOf o bytes s.records).isSome

/-- `failed`. -/
def failedResult (wrote : Bool) : CompactionResult :=
  if wrote then .bytesMayHavePersisted else .rejectedBeforeWrite

/-- `RecoverProtectedCompaction`. -/
def recoverProtectedCompaction (calls : RecoveryCalls) (previous : ProtectedHead) (floor : UInt64)
    (choice : ProtectedRecoveryChoice) (d : WalDirectory) : WalDirectory × CompactionResult :=
  match recoveryPlan o previous floor choice d with
  | none => (d, .rejectedBeforeWrite)
  | some plan =>
    if calls.admitted = false ∨ (plan.originalCanonical = true ∧ calls.originalFlush = false) then
      (d, .rejectedBeforeWrite)
    else
      match execute calls.toCalls plan.moves d false with
      | .error (d, wrote) => (d, failedResult wrote)
      | .ok (d, wrote) =>
        if calls.reopen = false ∨ captured o d = false then (d, failedResult wrote)
        else (d, .succeeded)

/-- A file with new content. -/
def writeFile (d : WalDirectory) (name : FileName) (content : Bytes) : WalDirectory := fun other =>
  if other = name then some content else d other

/-- `CompactProtectedWithResult`. -/
def compactProtectedWithResult (calls : CompactionCalls) (floor : UInt64) (expected : ProtectedHead)
    (epoch : Epoch o.slot o.sourceBinding) (d : WalDirectory) : WalDirectory × CompactionResult :=
  if calls.admitted = false ∨ (d .old).isSome ∨ (d .next).isSome ∨
      (d (.archive expected.sha256)).isSome then (d, .rejectedBeforeWrite)
  else
    match d .canonical with
    | none => (d, .rejectedBeforeWrite)
    | some original =>
      match compactProtected o floor expected original epoch with
      | none => (d, .rejectedBeforeWrite)
      | some (_, encrypted) =>
        if calls.sealed = false then (d, .rejectedBeforeWrite)
        else if calls.created = false then (writeFile d .next [], .bytesMayHavePersisted)
        else
          match calls.torn with
          | some torn => (writeFile d .next torn, .bytesMayHavePersisted)
          | none =>
            let d := writeFile d .next encrypted
            match protectedReadBlob o encrypted with
            | none => (d, .bytesMayHavePersisted)
            | some blob =>
              if calls.verified = false ∨ blob.proof.previous ≠ expected then
                (d, .bytesMayHavePersisted)
              else
                let recovered := recoverProtectedCompaction o calls.toRecoveryCalls expected floor
                  .promoteReplacement d
                (recovered.1, if recovered.2 = .rejectedBeforeWrite then .bytesMayHavePersisted
                  else recovered.2)

end Recovery

/-! ## What an interruption can leave -/

section Phases

variable {o : Options} {previous : ProtectedHead} {floor : UInt64} {original : Bytes}
  {d : WalDirectory} {choice : ProtectedRecoveryChoice} {plan : RecoveryPlan}

/-- The content was read in full, and tested against the log it replaces. -/
def Verified (o : Options) (previous : ProtectedHead) (floor : UInt64) (original content : Bytes) :
    Prop :=
  ∃ source replacement, protectedReadBlob o original = some source ∧
    protectedReadBlob o content = some replacement ∧
    replacementVerified o previous floor (original, source) replacement = true

/-- The directories that an interruption can leave. -/
inductive Phase (o : Options) (previous : ProtectedHead) (floor : UInt64) (original : Bytes)
    (d : WalDirectory) : Prop
  | inPlace : d .canonical = some original → d .old = none →
      d (.archive previous.sha256) = none → Phase o previous floor original d
  | parted : d .canonical = none → d .old = some original →
      d (.archive previous.sha256) = none → Phase o previous floor original d
  | promoted (content : Bytes) : d .canonical = some content →
      Verified o previous floor original content → d .next = none → d .old = some original →
      d (.archive previous.sha256) = none → Phase o previous floor original d
  | archived (content : Bytes) : d .canonical = some content →
      Verified o previous floor original content → d .next = none → d .old = none →
      d (.archive previous.sha256) = some original → Phase o previous floor original d

/-- The directories that recovery stops at: the log is back in its place, or its replacement is there
and the log archived. -/
inductive Settled (o : Options) (previous : ProtectedHead) (floor : UInt64) (original : Bytes)
    (d : WalDirectory) : Prop
  | retained : d .canonical = some original → d .next = none → d .old = none →
      d (.archive previous.sha256) = none → Settled o previous floor original d
  | replaced (content : Bytes) : d .canonical = some content →
      Verified o previous floor original content → d .next = none → d .old = none →
      d (.archive previous.sha256) = some original → Settled o previous floor original d

theorem Settled.phase (h : Settled o previous floor original d) : Phase o previous floor original d := by
  cases h with
  | retained hcanonical hnext hold harchive => exact .inPlace hcanonical hold harchive
  | replaced content hcanonical hverified hnext hold harchive =>
    exact .archived content hcanonical hverified hnext hold harchive

/-- **The log is there**, under one of its names. -/
theorem Phase.log (h : Phase o previous floor original d) :
    d .canonical = some original ∨ d .old = some original ∨
      d (.archive previous.sha256) = some original := by
  cases h with
  | inPlace hcanonical => exact .inl hcanonical
  | parted _ hold => exact .inr (.inl hold)
  | promoted _ _ _ _ hold => exact .inr (.inl hold)
  | archived _ _ _ _ _ harchive => exact .inr (.inr harchive)

theorem readPresent_some {bytes : Bytes} {file : Option (Bytes × Blob)}
    (h : readPresent o (some bytes) = some file) :
    ∃ blob, protectedReadBlob o bytes = some blob ∧ file = some (bytes, blob) := by
  obtain ⟨blob, hblob, rfl⟩ := Option.map_eq_some_iff.mp h
  exact ⟨blob, hblob, rfl⟩

/-- What a recovery that has a plan went through. -/
theorem recoveryPlan_eq_some (h : recoveryPlan o previous floor choice d = some plan) :
    ∃ canonical predecessor total, readPresent o (d .canonical) = some canonical ∧
      readPresent o (d .old) = some predecessor ∧
      (∀ file ∈ predecessor, file.2.head = previous ∧ plan.originalCanonical = false) ∧
      (plan.originalCanonical = true → canonical.isSome = true) ∧
      (match choice with
        | .retainOriginal => retainOriginal o previous plan.originalCanonical d
        | .promoteReplacement => promoteReplacement o previous floor total canonical predecessor
            plan.originalCanonical d) = some plan.moves := by
  unfold recoveryPlan at h
  dsimp only at h
  split_ifs at h with hrejected
  match hcanonical : readPresent o (d .canonical), hold : readPresent o (d .old) with
  | none, _ =>
    rw [hcanonical] at h
    cases h
  | some canonical, none =>
    rw [hcanonical, hold] at h
    cases h
  | some canonical, some predecessor =>
    rw [hcanonical, hold] at h
    dsimp only at h
    by_cases hheads : ∃ file ∈ predecessor, file.2.head ≠ previous ∨
        (canonical.map fun file => file.2.head).getD {} = previous
    · rw [if_pos hheads] at h
      cases h
    rw [if_neg hheads] at h
    obtain ⟨moves, hmoves, rfl⟩ := Option.map_eq_some_iff.mp h
    refine ⟨canonical, predecessor, _, rfl, rfl, fun file hfile => ?_, fun htrue => ?_, hmoves⟩
    · simp only [not_exists, not_and, not_or, not_not] at hheads
      obtain ⟨hhead, hdiffers⟩ := hheads file hfile
      refine ⟨hhead, ?_⟩
      dsimp only
      rw [decide_eq_false hdiffers, Bool.and_false]
    · exact (Bool.and_eq_true_iff.mp htrue).1

/-- What a quarantine name is. -/
theorem quarantineFrom_eq_some {digest : Digest} {n at' : ℕ} {suffix : Option ℕ} {name : FileName}
    (h : quarantineFrom d digest n at' suffix = some name) :
    ∃ number, name = .quarantine digest number := by
  induction n generalizing at' suffix with
  | zero =>
    rw [quarantineFrom] at h
    split_ifs at h
    exact ⟨suffix, (Option.some.inj h).symm⟩
  | succ n ih =>
    rw [quarantineFrom] at h
    split_ifs at h
    · exact ⟨suffix, (Option.some.inj h).symm⟩
    · exact ih h

/-- What going back renames: the replacement to a quarantine, and the log to its place. -/
theorem retainOriginal_eq_some {originalCanonical : Bool} {moves : List (Move FileName)}
    (h : retainOriginal o previous originalCanonical d = some moves) :
    d (.archive previous.sha256) = none ∧
      (d .canonical ≠ none → originalCanonical = true) ∧
      ((d .next = none ∧ moves = if originalCanonical then [] else [⟨.old, .canonical⟩]) ∨
        ∃ digest number, moves = ⟨.next, .quarantine digest number⟩ ::
          if originalCanonical then [] else [⟨.old, .canonical⟩]) := by
  unfold retainOriginal at h
  by_cases harchived : (d (.archive previous.sha256)).isSome
  · rw [if_pos harchived] at h
    cases h
  by_cases hother : (d .canonical).isSome ∧ originalCanonical = false
  · rw [if_neg harchived, if_pos hother] at h
    cases h
  by_cases hlost : originalCanonical = false ∧ (d .old).isNone
  · rw [if_neg harchived, if_neg hother, if_pos hlost] at h
    cases h
  rw [if_neg harchived, if_neg hother, if_neg hlost] at h
  dsimp only at h
  refine ⟨Option.not_isSome_iff_eq_none.mp harchived, fun hcanonical => ?_, ?_⟩
  · by_contra hfalse
    exact hother ⟨Option.isSome_iff_ne_none.mpr hcanonical, Bool.eq_false_of_not_eq_true hfalse⟩
  match hnext : d .next with
  | none =>
    rw [hnext] at h
    exact Or.inl ⟨rfl, (Option.some.inj h).symm⟩
  | some bytes =>
    rw [hnext] at h
    obtain ⟨name, hname, hmoves⟩ := Option.map_eq_some_iff.mp h
    obtain ⟨number, rfl⟩ := quarantineFrom_eq_some hname
    exact Or.inr ⟨_, number, hmoves.symm⟩

/-- **Going back** keeps to the phases, and stops at the log in its place. -/
theorem along_retainOriginal (hphase : Phase o previous floor original d)
    (hplan : recoveryPlan o previous floor .retainOriginal d = some plan) :
    Along (Phase o previous floor original) (Settled o previous floor original) plan.moves d := by
  obtain ⟨canonical, predecessor, total, hread, hreadOld, hheads, hpresent, hretain⟩ :=
    recoveryPlan_eq_some hplan
  obtain ⟨harchived, hother, hmoves⟩ := retainOriginal_eq_some hretain
  cases hphase with
  | inPlace hcanonical hold harchive =>
    have horiginal := hother (by rw [hcanonical]; exact Option.some_ne_none _)
    rw [horiginal, if_pos rfl] at hmoves
    rcases hmoves with ⟨hnext, hmoves⟩ | ⟨digest, number, hmoves⟩
    · rw [hmoves]
      exact ⟨.inPlace hcanonical hold harchive, .retained hcanonical hnext hold harchive⟩
    · rw [hmoves]
      refine ⟨.inPlace hcanonical hold harchive, fun after hafter => ?_⟩
      obtain ⟨-, hgone, hsame⟩ := rename_eq_some hafter
      have hsettled : Settled o previous floor original after :=
        .retained ((hsame .canonical nofun nofun).trans hcanonical) hgone
          ((hsame .old nofun nofun).trans hold) ((hsame (.archive _) nofun nofun).trans harchive)
      exact ⟨hsettled.phase, hsettled⟩
  | parted hcanonical hold harchive =>
    have horiginal : plan.originalCanonical = false := by
      rw [hcanonical] at hread
      obtain rfl := Option.some.inj hread
      by_contra htrue
      cases hpresent (Bool.eq_true_of_not_eq_false htrue)
    rw [horiginal, if_neg Bool.false_ne_true] at hmoves
    rcases hmoves with ⟨hnext, hmoves⟩ | ⟨digest, number, hmoves⟩
    · rw [hmoves]
      refine ⟨.parted hcanonical hold harchive, fun after hafter => ?_⟩
      obtain ⟨hrestored, hgone, hsame⟩ := rename_eq_some hafter
      have hsettled : Settled o previous floor original after :=
        .retained (hrestored.trans hold) ((hsame .next nofun nofun).trans hnext) hgone
          ((hsame (.archive _) nofun nofun).trans harchive)
      exact ⟨hsettled.phase, hsettled⟩
    · rw [hmoves]
      refine ⟨.parted hcanonical hold harchive, fun parked hparked => ?_⟩
      obtain ⟨-, hgone, hsame⟩ := rename_eq_some hparked
      have hold' := (hsame .old nofun nofun).trans hold
      have harchive' := (hsame (.archive _) nofun nofun).trans harchive
      refine ⟨.parted ((hsame .canonical nofun nofun).trans hcanonical) hold' harchive',
        fun after hafter => ?_⟩
      obtain ⟨hrestored, holdGone, hkept⟩ := rename_eq_some hafter
      have hsettled : Settled o previous floor original after :=
        .retained (hrestored.trans hold') ((hkept .next nofun nofun).trans hgone) holdGone
          ((hkept (.archive _) nofun nofun).trans harchive')
      exact ⟨hsettled.phase, hsettled⟩
  | promoted content hcanonical hverified hnext hold harchive =>
    rw [hold] at hreadOld
    obtain ⟨blob, -, rfl⟩ := readPresent_some hreadOld
    have hfalse := (hheads _ rfl).2
    rw [hother (by rw [hcanonical]; exact Option.some_ne_none _)] at hfalse
    cases hfalse
  | archived content hcanonical hverified hnext hold harchive =>
    rw [harchive] at harchived
    cases harchived

/-- What going on renames, and what it has tested. -/
theorem promoteReplacement_eq_some {total : ℕ} {canonical predecessor : Option (Bytes × Blob)}
    {originalCanonical : Bool} {moves : List (Move FileName)}
    (h : promoteReplacement o previous floor total canonical predecessor originalCanonical d =
      some moves) :
    ∃ source replacement,
      recoverySource o previous total canonical predecessor originalCanonical d = some source ∧
      recoveryReplacement o canonical originalCanonical d = some replacement ∧
      replacementVerified o previous floor source replacement = true ∧
      moves = (if originalCanonical then [⟨.canonical, .old⟩] else []) ++
        ((if (d .next).isSome then [⟨.next, .canonical⟩] else []) ++
          if originalCanonical ∨ predecessor.isSome then [⟨.old, .archive previous.sha256⟩]
            else []) := by
  unfold promoteReplacement at h
  match hsource : recoverySource o previous total canonical predecessor originalCanonical d,
      hreplacement : recoveryReplacement o canonical originalCanonical d with
  | none, _ =>
    rw [hsource] at h
    cases h
  | some source, none =>
    rw [hsource, hreplacement] at h
    cases h
  | some source, some replacement =>
    rw [hsource, hreplacement] at h
    dsimp only at h
    by_cases hverified : replacementVerified o previous floor source replacement = false
    · rw [if_pos hverified] at h
      cases h
    rw [if_neg hverified] at h
    by_cases harchived : (predecessor.isSome ∨ originalCanonical = true) ∧
        (d (.archive previous.sha256)).isSome
    · rw [if_pos harchived] at h
      cases h
    rw [if_neg harchived] at h
    exact ⟨source, replacement, rfl, rfl, Bool.eq_true_of_not_eq_false hverified,
      (Option.some.inj h).symm⟩

/-- The last rename: the log to its archive. -/
theorem along_promoted {content : Bytes} (hcanonical : d .canonical = some content)
    (hcontent : Verified o previous floor original content) (hnext : d .next = none)
    (hold : d .old = some original) (harchive : d (.archive previous.sha256) = none) :
    Along (Phase o previous floor original) (Settled o previous floor original)
      [⟨.old, .archive previous.sha256⟩] d := by
  refine ⟨.promoted content hcanonical hcontent hnext hold harchive, fun after hafter => ?_⟩
  obtain ⟨harchived, hgone, hsame⟩ := rename_eq_some hafter
  have hsettled : Settled o previous floor original after :=
    .replaced content ((hsame .canonical nofun nofun).trans hcanonical) hcontent
      ((hsame .next nofun nofun).trans hnext) hgone (harchived.trans hold)
  exact ⟨hsettled.phase, hsettled⟩

/-- The last two renames: the replacement into its place, and the log to its archive. -/
theorem along_parted {content : Bytes} (hcanonical : d .canonical = none)
    (hold : d .old = some original) (harchive : d (.archive previous.sha256) = none)
    (hnext : d .next = some content) (hcontent : Verified o previous floor original content) :
    Along (Phase o previous floor original) (Settled o previous floor original)
      [⟨.next, .canonical⟩, ⟨.old, .archive previous.sha256⟩] d := by
  refine ⟨.parted hcanonical hold harchive, fun promoted hpromoted => ?_⟩
  obtain ⟨hplaced, hgone, hsame⟩ := rename_eq_some hpromoted
  exact along_promoted (hplaced.trans hnext) hcontent hgone ((hsame .old nofun nofun).trans hold)
    ((hsame (.archive _) nofun nofun).trans harchive)

/-- **Going on** keeps to the phases, and stops at the replacement in its place. -/
theorem along_promoteReplacement (hphase : Phase o previous floor original d)
    (hplan : recoveryPlan o previous floor .promoteReplacement d = some plan) :
    Along (Phase o previous floor original) (Settled o previous floor original) plan.moves d := by
  obtain ⟨canonical, predecessor, total, hread, hreadOld, hheads, hpresent, hpromote⟩ :=
    recoveryPlan_eq_some hplan
  obtain ⟨source, replacement, hsource, hreplacement, hverified, hmoves⟩ :=
    promoteReplacement_eq_some hpromote
  cases hphase with
  | inPlace hcanonical hold harchive =>
    rw [hcanonical] at hread
    obtain ⟨blob, hblob, rfl⟩ := readPresent_some hread
    rw [hold] at hreadOld
    obtain rfl := Option.some.inj hreadOld
    have horiginal : plan.originalCanonical = true := by
      by_contra hfalse
      rw [Bool.eq_false_of_not_eq_true hfalse, recoverySource, if_neg Bool.false_ne_true,
        harchive] at hsource
      cases hsource
    rw [horiginal] at hsource hreplacement hmoves
    obtain rfl := Option.some.inj hsource
    match hnext : d .next with
    | none =>
      rw [recoveryReplacement, hnext] at hreplacement
      cases hreplacement
    | some bytes =>
      rw [recoveryReplacement, hnext] at hreplacement
      dsimp only at hreplacement
      rw [if_neg (by simp)] at hreplacement
      rw [hnext] at hmoves
      rw [hmoves]
      have hreplacementVerified : Verified o previous floor original bytes :=
        ⟨blob, replacement, hblob, hreplacement, hverified⟩
      refine ⟨.inPlace hcanonical hold harchive, fun parted hparted => ?_⟩
      obtain ⟨hold', hgone, hsame⟩ := rename_eq_some hparted
      exact along_parted hgone (hold'.trans hcanonical) ((hsame (.archive _) nofun nofun).trans harchive)
        ((hsame .next nofun nofun).trans hnext) hreplacementVerified
  | parted hcanonical hold harchive =>
    rw [hcanonical] at hread
    obtain rfl := Option.some.inj hread
    rw [hold] at hreadOld
    obtain ⟨blob, hblob, rfl⟩ := readPresent_some hreadOld
    have horiginal := (hheads _ rfl).2
    rw [horiginal] at hsource hreplacement hmoves
    obtain rfl := Option.some.inj hsource
    match hnext : d .next with
    | none =>
      rw [recoveryReplacement, hnext] at hreplacement
      cases hreplacement
    | some bytes =>
      rw [recoveryReplacement, hnext] at hreplacement
      rw [hnext] at hmoves
      rw [hmoves]
      exact along_parted hcanonical hold harchive hnext ⟨blob, replacement, hblob, hreplacement,
        hverified⟩
  | promoted content hcanonical hcontent hnext hold harchive =>
    rw [hold] at hreadOld
    obtain ⟨blob, -, rfl⟩ := readPresent_some hreadOld
    rw [(hheads _ rfl).2, hnext] at hmoves
    rw [hmoves]
    exact along_promoted hcanonical hcontent hnext hold harchive
  | archived content hcanonical hcontent hnext hold harchive =>
    rw [hold] at hreadOld
    obtain rfl := Option.some.inj hreadOld
    have horiginal : plan.originalCanonical = false := by
      by_contra htrue
      rw [Bool.eq_true_of_not_eq_false htrue, recoveryReplacement, hnext] at hreplacement
      cases hreplacement
    rw [horiginal, hnext] at hmoves
    rw [hmoves]
    have hsettled : Settled o previous floor original d :=
      .replaced content hcanonical hcontent hnext hold harchive
    exact ⟨hsettled.phase, hsettled⟩

/-- A directory recovery has stopped at is left as it is. -/
theorem moves_of_settled {other : UInt64} (h : Settled o previous floor original d)
    (hplan : recoveryPlan o previous other choice d = some plan) : plan.moves = [] := by
  obtain ⟨canonical, predecessor, total, hread, hreadOld, hheads, hpresent, hchoice⟩ :=
    recoveryPlan_eq_some hplan
  cases choice with
  | retainOriginal =>
    obtain ⟨harchived, hother, hmoves⟩ := retainOriginal_eq_some hchoice
    cases h with
    | retained hcanonical hnext hold harchive =>
      rw [hother (by rw [hcanonical]; exact Option.some_ne_none _)] at hchoice
      rw [retainOriginal, harchive, hcanonical, hnext] at hchoice
      exact (Option.some.inj hchoice).symm
    | replaced content hcanonical hcontent hnext hold harchive =>
      rw [harchive] at harchived
      cases harchived
  | promoteReplacement =>
    obtain ⟨source, replacement, hsource, hreplacement, hverified, hmoves⟩ :=
      promoteReplacement_eq_some hchoice
    have hnext : d .next = none := by
      cases h with
      | retained hcanonical hnext hold harchive => exact hnext
      | replaced content hcanonical hcontent hnext hold harchive => exact hnext
    have hold : d .old = none := by
      cases h with
      | retained hcanonical hnext hold harchive => exact hold
      | replaced content hcanonical hcontent hnext hold harchive => exact hold
    rw [hold] at hreadOld
    obtain rfl := Option.some.inj hreadOld
    have horiginal : plan.originalCanonical = false := by
      by_contra htrue
      rw [Bool.eq_true_of_not_eq_false htrue, recoveryReplacement, hnext] at hreplacement
      cases hreplacement
    rw [hmoves, horiginal, hnext]
    rfl

/-! ## Runs -/

/-- **One recovery** keeps to the phases, wherever it stops, and is settled where it succeeds. -/
theorem recoverProtectedCompaction_phase (calls : RecoveryCalls)
    (hphase : Phase o previous floor original d) :
    Phase o previous floor original (recoverProtectedCompaction o calls previous floor choice d).1 ∧
      ((recoverProtectedCompaction o calls previous floor choice d).2 = .succeeded →
        Settled o previous floor original
          (recoverProtectedCompaction o calls previous floor choice d).1) := by
  unfold recoverProtectedCompaction
  match hplan : recoveryPlan o previous floor choice d with
  | none => exact ⟨hphase, nofun⟩
  | some plan =>
    dsimp only
    have halong : Along (Phase o previous floor original) (Settled o previous floor original)
        plan.moves d := by
      cases choice with
      | retainOriginal => exact along_retainOriginal hphase hplan
      | promoteReplacement => exact along_promoteReplacement hphase hplan
    by_cases hadmitted : calls.admitted = false ∨
        (plan.originalCanonical = true ∧ calls.originalFlush = false)
    · rw [if_pos hadmitted]
      exact ⟨hphase, nofun⟩
    rw [if_neg hadmitted]
    have hfailed : ∀ wrote, failedResult wrote ≠ .succeeded := by
      intro wrote
      cases wrote <;> exact nofun
    have hexecuted := @along_execute _ _ _ _ _ _ _ calls.toCalls false halong
    match hexecute : execute calls.toCalls plan.moves d false with
    | .error (final, wrote) =>
      rw [hexecute] at hexecuted
      exact ⟨hexecuted, fun h => absurd h (hfailed wrote)⟩
    | .ok (final, wrote) =>
      rw [hexecute] at hexecuted
      dsimp only
      by_cases hreopen : calls.reopen = false ∨ captured o final = false
      · rw [if_pos hreopen]
        exact ⟨hexecuted.1, fun h => absurd h (hfailed wrote)⟩
      · rw [if_neg hreopen]
        exact ⟨hexecuted.1, fun _ => hexecuted.2⟩

/-- **Recovery of what has been recovered** changes nothing. -/
theorem recoverProtectedCompaction_of_settled {other : UInt64} (calls : RecoveryCalls)
    (h : Settled o previous floor original d) :
    (recoverProtectedCompaction o calls previous other choice d).1 = d := by
  unfold recoverProtectedCompaction
  match hplan : recoveryPlan o previous other choice d with
  | none => rfl
  | some plan =>
    dsimp only
    rw [moves_of_settled h hplan]
    split_ifs
    · rfl
    · show (if _ then _ else _ : WalDirectory × CompactionResult).1 = d
      split_ifs <;> rfl

/-- **One compaction** keeps to the phases, wherever it stops, and is settled where it succeeds. -/
theorem compactProtectedWithResult_phase (calls : CompactionCalls)
    (epoch : Epoch o.slot o.sourceBinding) (hphase : Phase o previous floor original d) :
    Phase o previous floor original
        (compactProtectedWithResult o calls floor previous epoch d).1 ∧
      ((compactProtectedWithResult o calls floor previous epoch d).2 = .succeeded →
        Settled o previous floor original
          (compactProtectedWithResult o calls floor previous epoch d).1) := by
  unfold compactProtectedWithResult
  by_cases hadmitted : calls.admitted = false ∨ (d .old).isSome ∨ (d .next).isSome ∨
      (d (.archive previous.sha256)).isSome
  · rw [if_pos hadmitted]
    exact ⟨hphase, nofun⟩
  rw [if_neg hadmitted]
  simp only [not_or, Option.not_isSome_iff_eq_none] at hadmitted
  obtain ⟨-, hold, -, harchive⟩ := hadmitted
  match hcanonical : d .canonical with
  | none => exact ⟨hphase, nofun⟩
  | some content =>
    dsimp only
    -- nothing was renamed before, so the log is in its place
    have horiginal : d .canonical = some original := by
      rcases hphase.log with h | h | h
      · exact h
      · rw [hold] at h
        cases h
      · rw [harchive] at h
        cases h
    have hwritten : ∀ bytes, Phase o previous floor original (writeFile d .next bytes) := fun bytes =>
      .inPlace horiginal hold harchive
    match compactProtected o floor previous content epoch with
    | none => exact ⟨hphase, nofun⟩
    | some (proof, encrypted) =>
      dsimp only
      by_cases hsealed : calls.sealed = false
      · rw [if_pos hsealed]
        exact ⟨hphase, nofun⟩
      by_cases hcreated : calls.created = false
      · rw [if_neg hsealed, if_pos hcreated]
        exact ⟨hwritten [], nofun⟩
      rw [if_neg hsealed, if_neg hcreated]
      match calls.torn with
      | some torn => exact ⟨hwritten torn, nofun⟩
      | none =>
        dsimp only
        match protectedReadBlob o encrypted with
        | none => exact ⟨hwritten encrypted, nofun⟩
        | some blob =>
          dsimp only
          by_cases hverified : calls.verified = false ∨ blob.proof.previous ≠ previous
          · rw [if_pos hverified]
            exact ⟨hwritten encrypted, nofun⟩
          rw [if_neg hverified]
          obtain ⟨hrecovered, hsettled⟩ := @recoverProtectedCompaction_phase o previous floor original
            _ .promoteReplacement calls.toRecoveryCalls (hwritten encrypted)
          refine ⟨hrecovered, fun h => hsettled ?_⟩
          by_contra hother
          split_ifs at h
          exact hother h

/-- The directories of all runs of a compaction and of recoveries, each of them stopped anywhere. -/
inductive Interrupted (o : Options) (previous : ProtectedHead) (floor : UInt64) (original : Bytes) :
    WalDirectory → Prop
  | start (d : WalDirectory) : d .canonical = some original → d .old = none →
      d (.archive previous.sha256) = none → Interrupted o previous floor original d
  | compact (d : WalDirectory) (calls : CompactionCalls) (epoch : Epoch o.slot o.sourceBinding) :
      Interrupted o previous floor original d →
      Interrupted o previous floor original
        (compactProtectedWithResult o calls floor previous epoch d).1
  | recover (d : WalDirectory) (calls : RecoveryCalls) (choice : ProtectedRecoveryChoice) :
      Interrupted o previous floor original d →
      Interrupted o previous floor original
        (recoverProtectedCompaction o calls previous floor choice d).1

/-- **Every run keeps to the phases.** -/
theorem Interrupted.phase (h : Interrupted o previous floor original d) :
    Phase o previous floor original d := by
  induction h with
  | start d hcanonical hold harchive => exact .inPlace hcanonical hold harchive
  | compact d calls epoch _ ih => exact (compactProtectedWithResult_phase calls epoch ih).1
  | recover d calls choice _ ih => exact (recoverProtectedCompaction_phase calls ih).1

/-- The log or its verified replacement is in its place, and recovering again changes nothing. -/
def Recovered (o : Options) (previous : ProtectedHead) (floor : UInt64) (original : Bytes)
    (d : WalDirectory) : Prop :=
  (d .canonical = some original ∨ ∃ content, d .canonical = some content ∧
    Verified o previous floor original content) ∧
  ∀ calls choice, (recoverProtectedCompaction o calls previous floor choice d).1 = d

theorem Settled.recovered (h : Settled o previous floor original d) :
    Recovered o previous floor original d := by
  refine ⟨?_, fun calls choice => recoverProtectedCompaction_of_settled calls h⟩
  cases h with
  | retained hcanonical => exact Or.inl hcanonical
  | replaced content hcanonical hcontent => exact Or.inr ⟨content, hcanonical, hcontent⟩

/-- **Recovery of an interrupted compaction never loses the log.**  However often the compaction and its
recoveries are stopped, the log is there under one of its names; and where one of them completes, the
log or its verified replacement is in its place, and recovering again changes nothing. -/
theorem recovery_keeps_log (h : Interrupted o previous floor original d) :
    (d .canonical = some original ∨ d .old = some original ∨
      d (.archive previous.sha256) = some original) ∧
    (∀ calls choice, (recoverProtectedCompaction o calls previous floor choice d).2 = .succeeded →
      Recovered o previous floor original
        (recoverProtectedCompaction o calls previous floor choice d).1) ∧
    ∀ calls epoch, (compactProtectedWithResult o calls floor previous epoch d).2 = .succeeded →
      Recovered o previous floor original
        (compactProtectedWithResult o calls floor previous epoch d).1 :=
  ⟨h.phase.log, fun calls _ hdone => ((recoverProtectedCompaction_phase calls h.phase).2
    hdone).recovered, fun calls epoch hdone =>
    ((compactProtectedWithResult_phase calls epoch h.phase).2 hdone).recovered⟩

end Phases

/-- Every call of a recovery goes through. -/
def calmCalls : RecoveryCalls where
  before _ := true
  after _ := true
  admitted := true
  originalFlush := true
  reopen := true

/-- A compaction that is stopped after the log was renamed away. -/
def partedCalls : CompactionCalls where
  toRecoveryCalls := { calmCalls with after := fun move => move.target != .old }
  sealed := true
  created := true
  torn := none
  verified := true

/-- The sample log in its place. -/
def sampleDirectory : WalDirectory := fun name => if name = .canonical then some sampleLog else none

/-- The log is away when the compaction stops, and recovery goes on to the replacement. -/
theorem recovery_keeps_log_sample :
    Recovered sampleOptions sampleHead 3 sampleLog
      (recoverProtectedCompaction sampleOptions calmCalls sampleHead 3 .promoteReplacement
        (compactProtectedWithResult sampleOptions partedCalls 3 sampleHead sampleEpoch
          sampleDirectory).1).1 := by
  have hstart : Interrupted sampleOptions sampleHead 3 sampleLog sampleDirectory :=
    .start sampleDirectory rfl rfl rfl
  have hdone : (recoverProtectedCompaction sampleOptions calmCalls sampleHead 3 .promoteReplacement
      (compactProtectedWithResult sampleOptions partedCalls 3 sampleHead sampleEpoch
        sampleDirectory).1).2 = .succeeded := by
    decide +kernel
  exact (recovery_keeps_log (.compact sampleDirectory partedCalls sampleEpoch hstart)).2.1 calmCalls
    .promoteReplacement hdone

end ProtectedWal
end ApfsAccess
