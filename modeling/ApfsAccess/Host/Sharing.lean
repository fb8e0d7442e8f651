import ApfsAccess.Names.Projection

/-!
# What the opens of a file may do beside each other

The mount host keeps two tables for the files that are open.  `RangeLocks` holds the byte ranges that
were locked through an open, which is the owner of its locks.  `CheckShareAdmission` compares the
access and the sharing of a new open with those that are held: data is shared by stream, deletion by
inode.

* `Lock.overlap_iff` : the test of two ranges is that they have a byte in common.
* `Excludes.run` : the locks that any run of calls leaves exclude each other.
* `admittedInOrder_iff` : opens are admitted one after another when any two of them are compatible.
* `sharing_run` : mutual exclusion of locks and writes, and opens admitted in any order.
-/

namespace ApfsAccess
namespace Host

open Names

/-! ## Byte-range locks -/

/-- `INT64_MAX`. -/
def int64Max : UInt64 := UInt64.ofNat (2 ^ 63 - 1)

/-- `RangeLocks::Fits`. -/
def Fits (offset length : UInt64) : Prop :=
  offset ≤ int64Max ∧ length ≠ 0 ∧ length ≤ int64Max - offset

instance (offset length : UInt64) : Decidable (Fits offset length) := by
  unfold Fits
  infer_instance

/-- `RangeLocks::Lock`, whose range fits. -/
structure Lock where
  owner : UInt64
  inode : UInt64
  offset : UInt64
  length : UInt64
  stream : WString
  exclusive : Bool
  fits : Fits offset length
  deriving DecidableEq

/-- `LockAdmission`. -/
inductive LockAdmission
  | allowed
  | invalid
  | conflict
  | notLocked
  | exhausted
  deriving DecidableEq, Repr

/-- `RangeLocks::Overlap`. -/
def Lock.overlap (lock : Lock) (offset length : UInt64) : Bool :=
  decide (lock.offset < offset + length) && decide (offset < lock.offset + lock.length)

/-- The lock is on the stream, and overlaps the range. -/
def Lock.meets (lock : Lock) (inode : UInt64) (stream : WString) (offset length : UInt64) : Bool :=
  lock.inode == inode && lock.stream == stream && lock.overlap offset length

/-- `RangeLocks::Acquire`. -/
def acquire (locks : List Lock) (owner inode : UInt64) (stream : WString)
    (offset length : UInt64) (exclusive : Bool) : LockAdmission × List Lock :=
  if hfits : owner ≠ 0 ∧ inode ≠ 0 ∧ Fits offset length then
    if locks.any fun lock => lock.meets inode stream offset length &&
        (exclusive || lock.exclusive && lock.owner != owner) then (.conflict, locks)
    else if 8192 ≤ locks.length then (.exhausted, locks)
    else (.allowed, locks ++ [⟨owner, inode, offset, length, stream, exclusive, hfits.2.2⟩])
  else (.invalid, locks)

/-- `RangeLocks::Release`. -/
def release (locks : List Lock) (owner offset length : UInt64) : LockAdmission × List Lock :=
  if owner = 0 ∨ ¬Fits offset length then (.invalid, locks)
  else
    let found := locks.findIdx fun lock =>
      lock.owner == owner && lock.offset == offset && lock.length == length
    if found = locks.length then (.notLocked, locks) else (.allowed, locks.eraseIdx found)

/-- `RangeLocks::Cleanup`. -/
def cleanup (locks : List Lock) (owner : UInt64) : List Lock :=
  locks.filter fun lock => !(lock.owner == owner)

/-- `RangeLocks::AllowsIo`. -/
def allowsIo (locks : List Lock) (owner inode : UInt64) (stream : WString)
    (offset length : UInt64) (write : Bool) : Bool :=
  if length = 0 then decide (offset ≤ int64Max)
  else if owner = 0 ∨ inode = 0 ∨ ¬Fits offset length then false
  else !locks.any fun lock => lock.meets inode stream offset length &&
    (if write then !lock.exclusive || lock.owner != owner
      else lock.exclusive && lock.owner != owner)

/-- A call that changes the locks. -/
inductive LockCall
  | acquire (owner inode : UInt64) (stream : WString) (offset length : UInt64) (exclusive : Bool)
  | release (owner offset length : UInt64)
  | cleanup (owner : UInt64)

/-- The locks after a call. -/
def LockCall.apply (locks : List Lock) : LockCall → List Lock
  | .acquire owner inode stream offset length exclusive =>
    (Host.acquire locks owner inode stream offset length exclusive).2
  | .release owner offset length => (Host.release locks owner offset length).2
  | .cleanup owner => Host.cleanup locks owner

/-- The locks after a run of calls. -/
def lockRun (calls : List LockCall) : List Lock :=
  calls.foldl LockCall.apply []

/-! ## Ranges and their bytes -/

/-- A byte lies in a range. -/
def InRange (offset length : UInt64) (byte : ℕ) : Prop :=
  offset.toNat ≤ byte ∧ byte < offset.toNat + length.toNat

/-- The bytes of a lock. -/
def Lock.Holds (lock : Lock) (byte : ℕ) : Prop :=
  InRange lock.offset lock.length byte

section Locks

variable {locks : List Lock} {lock other : Lock} {owner inode offset length : UInt64}
  {stream : WString} {byte : ℕ}

/-- The end of a range that fits does not wrap. -/
theorem Fits.toNat_end (h : Fits offset length) :
    (offset + length).toNat = offset.toNat + length.toNat := by
  have hmax : int64Max.toNat = 2 ^ 63 - 1 := rfl
  have hoffset := UInt64.le_iff_toNat_le.mp h.1
  have hlength := UInt64.le_iff_toNat_le.mp h.2.2
  rw [UInt64.toNat_sub_of_le _ _ h.1, hmax] at hlength
  rw [UInt64.toNat_add, Nat.mod_eq_of_lt (by omega)]

theorem Fits.length_pos (h : Fits offset length) : 0 < length.toNat :=
  Nat.pos_of_ne_zero fun hzero => h.2.1 (UInt64.toNat_inj.mp hzero)

/-- **Two ranges overlap** when they have a byte in common. -/
theorem Lock.overlap_iff (h : Fits offset length) :
    lock.overlap offset length = true ↔ ∃ byte, lock.Holds byte ∧ InRange offset length byte := by
  have hown := lock.fits.length_pos
  have hother := h.length_pos
  rw [Lock.overlap, Bool.and_eq_true, decide_eq_true_eq, decide_eq_true_eq, UInt64.lt_iff_toNat_lt,
    UInt64.lt_iff_toNat_lt, h.toNat_end, lock.fits.toNat_end]
  constructor
  · rintro ⟨hbelow, habove⟩
    exact ⟨max lock.offset.toNat offset.toNat,
      ⟨le_max_left _ _, max_lt (Nat.lt_add_of_pos_right hown) habove⟩,
      ⟨le_max_right _ _, max_lt hbelow (Nat.lt_add_of_pos_right hother)⟩⟩
  · rintro ⟨byte, ⟨hlow, hhigh⟩, hlow', hhigh'⟩
    exact ⟨hlow.trans_lt hhigh', hlow'.trans_lt hhigh⟩

theorem Lock.meets_iff (h : Fits offset length) :
    lock.meets inode stream offset length = true ↔ (lock.inode = inode ∧ lock.stream = stream) ∧
      ∃ byte, lock.Holds byte ∧ InRange offset length byte := by
  rw [Lock.meets, Bool.and_eq_true, Bool.and_eq_true, beq_iff_eq, beq_iff_eq, Lock.overlap_iff h]

/-- Two locks on one stream have a byte in common. -/
def Lock.Overlaps (lock other : Lock) : Prop :=
  (lock.inode = other.inode ∧ lock.stream = other.stream) ∧
    ∃ byte, lock.Holds byte ∧ other.Holds byte

theorem Lock.Overlaps.symm (h : lock.Overlaps other) : other.Overlaps lock :=
  ⟨⟨h.1.1.symm, h.1.2.symm⟩, h.2.imp fun _ hbyte => hbyte.symm⟩

/-- Two locks may be held beside each other. -/
def Lock.Compatible (lock other : Lock) : Prop :=
  lock.Overlaps other → lock.owner ≠ other.owner → lock.exclusive = false ∧ other.exclusive = false

theorem Lock.Compatible.symm (h : lock.Compatible other) : other.Compatible lock :=
  fun hoverlaps howner => (h hoverlaps.symm howner.symm).symm

instance : Std.Symm Lock.Compatible := ⟨fun _ _ => Lock.Compatible.symm⟩

/-- Any two locks may be held beside each other. -/
def Excludes (locks : List Lock) : Prop := locks.Pairwise Lock.Compatible

/-- A lock that is acquired meets no exclusive lock of another owner, and none at all if it is
exclusive itself. -/
theorem acquire_excludes {exclusive : Bool} (h : Excludes locks) :
    Excludes (acquire locks owner inode stream offset length exclusive).2 := by
  rw [acquire]
  split_ifs with hfits hconflict hfull
  · exact h
  · exact h
  · refine List.pairwise_append.mpr ⟨h, List.pairwise_singleton _ _, fun held hheld new hnew => ?_⟩
    rw [List.mem_singleton] at hnew
    subst hnew
    intro hoverlaps howner
    rw [Bool.not_eq_true, List.any_eq_false] at hconflict
    have hmeets : held.meets inode stream offset length = true :=
      (Lock.meets_iff hfits.2.2).mpr hoverlaps
    have hfree := hconflict held hheld
    rw [hmeets, Bool.true_and, Bool.not_eq_true, Bool.or_eq_false_iff, Bool.and_eq_false_iff]
      at hfree
    refine ⟨hfree.2.resolve_right fun hsame => howner ?_, hfree.1⟩
    rwa [bne_eq_false_iff_eq] at hsame
  · exact h

theorem release_sublist (locks : List Lock) (owner offset length : UInt64) :
    ((release locks owner offset length).2).Sublist locks := by
  rw [release]
  split_ifs
  · exact List.Sublist.refl _
  · dsimp only
    split_ifs
    · exact List.Sublist.refl _
    · exact List.eraseIdx_sublist _ _

theorem cleanup_sublist (locks : List Lock) (owner : UInt64) :
    (cleanup locks owner).Sublist locks :=
  List.filter_sublist

/-- A call keeps the locks exclusive. -/
theorem LockCall.excludes (h : Excludes locks) : ∀ call : LockCall, Excludes (call.apply locks)
  | .acquire _ _ _ _ _ _ => acquire_excludes h
  | .release _ _ _ => h.sublist (release_sublist _ _ _ _)
  | .cleanup _ => h.sublist (cleanup_sublist _ _)

/-- **The locks after any run of calls** exclude each other. -/
theorem Excludes.run (calls : List LockCall) : Excludes (lockRun calls) := by
  suffices h : ∀ locks, Excludes locks → Excludes (calls.foldl LockCall.apply locks) from
    h [] List.Pairwise.nil
  induction calls with
  | nil => exact fun _ h => h
  | cons call calls ih => exact fun _ h => ih _ (call.excludes h)

/-- Two locks of different owners that overlap are shared. -/
theorem Excludes.shared (h : Excludes locks) (hlock : lock ∈ locks) (hother : other ∈ locks)
    (hoverlaps : lock.Overlaps other) (howner : lock.owner ≠ other.owner) :
    lock.exclusive = false ∧ other.exclusive = false := by
  have hself : ∀ held ∈ locks, held.Compatible held := fun _ _ _ howner => absurd rfl howner
  exact h.forall_of_forall hself hlock hother hoverlaps howner

/-- **A write that is admitted** is free of the locks of others. -/
theorem not_inRange_of_allowsIo (h : allowsIo locks owner inode stream offset length true = true)
    (hlock : lock ∈ locks) (hstream : lock.inode = inode ∧ lock.stream = stream)
    (howner : lock.owner ≠ owner) (hbyte : lock.Holds byte) : ¬InRange offset length byte := by
  intro hrange
  simp only [allowsIo, if_true] at h
  split_ifs at h with hempty hinvalid
  · -- An empty range has no bytes.
    subst hempty
    exact absurd hrange.2 (not_lt.mpr hrange.1)
  · rw [not_or, not_or, not_not] at hinvalid
    rw [Bool.not_eq_true', List.any_eq_false] at h
    have hmeets : lock.meets inode stream offset length = true :=
      (Lock.meets_iff hinvalid.2.2).mpr ⟨hstream, byte, hbyte, hrange⟩
    refine h lock hlock ?_
    rw [hmeets, Bool.true_and, Bool.or_eq_true, bne_iff_ne]
    exact Or.inr howner

/-- **A cleanup** removes the locks of the owner and no others. -/
theorem count_cleanup (locks : List Lock) (owner : UInt64) (lock : Lock) :
    (cleanup locks owner).count lock = if lock.owner = owner then 0 else locks.count lock := by
  split_ifs with howner
  · refine List.count_eq_zero.mpr fun hmem => ?_
    have hkept := (List.mem_filter.mp hmem).2
    rw [Bool.not_eq_true', beq_eq_false_iff_ne] at hkept
    exact hkept howner
  · refine List.count_filter ?_
    rwa [Bool.not_eq_true', beq_eq_false_iff_ne]

end Locks

/-! ## Share modes -/

/-- `ShareOpen`. -/
structure ShareOpen where
  inode : UInt64
  stream : WString
  access : UInt32
  share : UInt32
  deriving DecidableEq, Repr

/-- `ShareAdmission`. -/
inductive ShareAdmission
  | allowed
  | invalidParameter
  | sharingViolation
  deriving DecidableEq, Repr

def fileShareRead : UInt32 := 0x1

def fileShareWrite : UInt32 := 0x2

def fileShareDelete : UInt32 := 0x4

/-- `share_mask`. -/
def shareMask : UInt32 := fileShareRead ||| fileShareWrite ||| fileShareDelete

/-- `generic_mask`: `GENERIC_READ`, `GENERIC_WRITE`, `GENERIC_EXECUTE` and `GENERIC_ALL`. -/
def genericMask : UInt32 := 0x80000000 ||| 0x40000000 ||| 0x20000000 ||| 0x10000000

/-- `MAXIMUM_ALLOWED`. -/
def maximumAllowed : UInt32 := 0x02000000

namespace ShareOpen

/-- `FILE_READ_DATA` or `FILE_EXECUTE`. -/
def reads (request : ShareOpen) : Bool := request.access &&& (0x1 ||| 0x20) != 0

/-- `FILE_WRITE_DATA` or `FILE_APPEND_DATA`. -/
def writes (request : ShareOpen) : Bool := request.access &&& (0x2 ||| 0x4) != 0

/-- `DELETE`. -/
def deletes (request : ShareOpen) : Bool := request.access &&& 0x10000 != 0

def participates (request : ShareOpen) : Bool :=
  request.reads || request.writes || request.deletes

/-- The open shares what the flag stands for. -/
def shares (request : ShareOpen) (flag : UInt32) : Bool := request.share &&& flag != 0

/-- A flag of the sharing or of the access that no open may have. -/
def hasInvalidFlags (request : ShareOpen) : Bool :=
  request.share &&& ~~~shareMask != 0 || request.access &&& (genericMask ||| maximumAllowed) != 0

/-- One of two opens deletes and the other does not share that. -/
def deleteConflict (requested held : ShareOpen) : Bool :=
  requested.deletes && !held.shares fileShareDelete ||
    held.deletes && !requested.shares fileShareDelete

/-- One of two opens reads or writes and the other does not share that. -/
def dataConflict (requested held : ShareOpen) : Bool :=
  requested.reads && !held.shares fileShareRead ||
    requested.writes && !held.shares fileShareWrite ||
    held.reads && !requested.shares fileShareRead ||
    held.writes && !requested.shares fileShareWrite

end ShareOpen

/-- The loop of `CheckShareAdmission`. -/
def checkHeldOpens (requested : ShareOpen) : List ShareOpen → ShareAdmission
  | [] => .allowed
  | held :: rest =>
    if held.inode ≠ requested.inode then checkHeldOpens requested rest
    else if held.hasInvalidFlags then .invalidParameter
    else if !held.participates then checkHeldOpens requested rest
    else if requested.deleteConflict held then .sharingViolation
    else if held.stream ≠ requested.stream then checkHeldOpens requested rest
    else if requested.dataConflict held then .sharingViolation
    else checkHeldOpens requested rest

/-- `CheckShareAdmission`. -/
def checkShareAdmission (requested : ShareOpen) (existing : List ShareOpen) : ShareAdmission :=
  if requested.inode = 0 || requested.hasInvalidFlags then .invalidParameter
  else if !requested.participates then .allowed
  else checkHeldOpens requested existing

/-- Each open is admitted beside those that were opened before it. -/
def AdmittedInOrder (held : List ShareOpen) : List ShareOpen → Prop
  | [] => True
  | requested :: rest =>
    checkShareAdmission requested held = .allowed ∧ AdmittedInOrder (held ++ [requested]) rest

namespace ShareOpen

/-- What `CheckShareAdmission` asks of an open by itself. -/
def Valid (request : ShareOpen) : Prop := request.inode ≠ 0 ∧ request.hasInvalidFlags = false

/-- Two opens may be held beside each other. -/
def Compatible (requested held : ShareOpen) : Prop :=
  requested.participates = true → held.participates = true → held.inode = requested.inode →
    requested.deleteConflict held = false ∧
      (held.stream = requested.stream → requested.dataConflict held = false)

end ShareOpen

section Opens

variable {requested held : ShareOpen} {existing opens : List ShareOpen}

theorem ShareOpen.deleteConflict_comm (requested held : ShareOpen) :
    requested.deleteConflict held = held.deleteConflict requested :=
  Bool.or_comm _ _

theorem ShareOpen.dataConflict_comm (requested held : ShareOpen) :
    requested.dataConflict held = held.dataConflict requested := by
  unfold ShareOpen.dataConflict
  ac_rfl

theorem ShareOpen.Compatible.symm (h : requested.Compatible held) : held.Compatible requested := by
  intro hheld hrequested hinode
  rw [ShareOpen.deleteConflict_comm, ShareOpen.dataConflict_comm]
  exact (h hrequested hheld hinode.symm).imp_right fun hdata hstream => hdata hstream.symm

instance : Std.Symm ShareOpen.Compatible := ⟨fun _ _ => ShareOpen.Compatible.symm⟩

/-- **The loop over the held opens** goes through when the request is compatible with each. -/
theorem checkHeldOpens_eq_allowed_iff (hrequested : requested.participates = true)
    (hvalid : ∀ held ∈ existing, held.hasInvalidFlags = false) :
    checkHeldOpens requested existing = .allowed ↔
      ∀ held ∈ existing, requested.Compatible held := by
  induction existing with
  | nil => exact iff_of_true rfl (List.forall_mem_nil _)
  | cons held rest ih =>
    rw [List.forall_mem_cons] at hvalid ⊢
    specialize ih hvalid.2
    have hskip : requested.Compatible held → (checkHeldOpens requested rest = .allowed ↔
        requested.Compatible held ∧ ∀ held ∈ rest, requested.Compatible held) :=
      fun h => ih.trans (and_iff_right h).symm
    rw [checkHeldOpens, hvalid.1]
    split_ifs with hinode hinvalid hparticipates hdelete hstream hdata
    · exact hskip fun _ _ hsame => absurd hsame hinode
    · exact hinvalid.elim
    · exact hskip fun _ hheld => absurd hheld (by simpa using hparticipates)
    · refine iff_of_false nofun fun h => ?_
      have hfree := (h.1 hrequested (by simpa using hparticipates) (not_not.mp hinode)).1
      rw [hdelete] at hfree
      cases hfree
    · exact hskip fun _ _ _ => ⟨by simpa using hdelete, fun hsame => absurd hsame hstream⟩
    · refine iff_of_false nofun fun h => ?_
      have hfree := (h.1 hrequested (by simpa using hparticipates) (not_not.mp hinode)).2
        (not_not.mp hstream)
      rw [hdata] at hfree
      cases hfree
    · exact hskip fun _ _ _ => ⟨by simpa using hdelete, fun _ => by simpa using hdata⟩

/-- **An open is admitted** when it is valid and compatible with every open that is held. -/
theorem checkShareAdmission_eq_allowed_iff (hvalid : ∀ held ∈ existing, held.Valid) :
    checkShareAdmission requested existing = .allowed ↔
      requested.Valid ∧ ∀ held ∈ existing, requested.Compatible held := by
  rw [checkShareAdmission, ShareOpen.Valid]
  split_ifs with hinvalid hparticipates
  · refine iff_of_false nofun fun h => ?_
    rw [Bool.or_eq_true, decide_eq_true_eq, h.1.2] at hinvalid
    exact hinvalid.elim h.1.1 Bool.false_ne_true
  · rw [Bool.not_eq_true, Bool.or_eq_false_iff, decide_eq_false_iff_not] at hinvalid
    exact iff_of_true rfl ⟨hinvalid, fun held _ hrequested =>
      absurd hrequested (by simpa using hparticipates)⟩
  · rw [Bool.not_eq_true, Bool.or_eq_false_iff, decide_eq_false_iff_not] at hinvalid
    rw [checkHeldOpens_eq_allowed_iff (by simpa using hparticipates) fun held hheld =>
      (hvalid held hheld).2]
    exact (and_iff_right hinvalid).symm

/-- **Opens are admitted one after another** when each is valid and any two are compatible. -/
theorem admittedInOrder_iff (hvalid : ∀ held ∈ existing, held.Valid)
    (hcompatible : existing.Pairwise ShareOpen.Compatible) :
    AdmittedInOrder existing opens ↔
      (∀ held ∈ opens, held.Valid) ∧ (existing ++ opens).Pairwise ShareOpen.Compatible := by
  induction opens generalizing existing with
  | nil =>
    rw [List.append_nil]
    exact iff_of_true trivial ⟨List.forall_mem_nil _, hcompatible⟩
  | cons requested rest ih =>
    rw [AdmittedInOrder, checkShareAdmission_eq_allowed_iff hvalid, List.forall_mem_cons]
    have happend : existing ++ requested :: rest = existing ++ [requested] ++ rest := by
      rw [List.append_assoc, List.singleton_append]
    have hlonger : (existing ++ [requested]).Pairwise ShareOpen.Compatible ↔
        ∀ held ∈ existing, requested.Compatible held := by
      rw [List.pairwise_append]
      constructor
      · exact fun h held hheld => (h.2.2 held hheld requested (List.mem_singleton_self _)).symm
      · refine fun h => ⟨hcompatible, List.pairwise_singleton _ _, fun held hheld new hnew => ?_⟩
        rw [List.mem_singleton.mp hnew]
        exact (h held hheld).symm
    have hall : requested.Valid → ∀ held ∈ existing ++ [requested], held.Valid := by
      intro hrequested held hheld
      rcases List.mem_append.mp hheld with hheld | hheld
      · exact hvalid held hheld
      · exact List.mem_singleton.mp hheld ▸ hrequested
    constructor
    · rintro ⟨⟨hrequested, hfirst⟩, hrest⟩
      have hothers := (ih (hall hrequested) (hlonger.mpr hfirst)).mp hrest
      exact ⟨⟨hrequested, hothers.1⟩, happend ▸ hothers.2⟩
    · rintro ⟨⟨hrequested, hothers⟩, hpairwise⟩
      rw [happend] at hpairwise
      have hprefix := (List.pairwise_append.mp hpairwise).1
      exact ⟨⟨hrequested, hlonger.mp hprefix⟩,
        (ih (hall hrequested) hprefix).mpr ⟨hothers, hpairwise⟩⟩

/-- Opens that are admitted in one order are admitted in every other. -/
theorem AdmittedInOrder.perm {opens' : List ShareOpen} (h : AdmittedInOrder [] opens)
    (hperm : opens.Perm opens') : AdmittedInOrder [] opens' := by
  rw [admittedInOrder_iff (List.forall_mem_nil _) List.Pairwise.nil, List.nil_append] at h ⊢
  exact ⟨fun held hheld => h.1 held (hperm.mem_iff.mpr hheld),
    (hperm.pairwise_iff ShareOpen.Compatible.symm).mp h.2⟩

end Opens

/-! ## Mutual exclusion -/

/-- **Locks, writes and opens exclude each other.**  After any run of calls: locks of different
owners that overlap are shared; a write that is admitted meets no lock of another owner; no other
owner is admitted to write a byte of an exclusive lock; and a cleanup removes exactly the locks of
its owner.  Opens that are admitted in one order are admitted in every order. -/
theorem sharing_run (calls : List LockCall) :
    (∀ lock ∈ lockRun calls, ∀ other ∈ lockRun calls, lock.owner ≠ other.owner →
      lock.Overlaps other → lock.exclusive = false ∧ other.exclusive = false) ∧
    (∀ owner inode stream offset length,
      allowsIo (lockRun calls) owner inode stream offset length true = true →
        ∀ lock ∈ lockRun calls, lock.inode = inode → lock.stream = stream → lock.owner ≠ owner →
          ∀ byte, lock.Holds byte → ¬InRange offset length byte) ∧
    (∀ lock ∈ lockRun calls, lock.exclusive = true → ∀ other, other ≠ lock.owner →
      ∀ offset length byte, lock.Holds byte → InRange offset length byte →
        allowsIo (lockRun calls) other lock.inode lock.stream offset length true = false) ∧
    (∀ owner, (cleanup (lockRun calls) owner).Sublist (lockRun calls) ∧
      ∀ lock, (cleanup (lockRun calls) owner).count lock =
        if lock.owner = owner then 0 else (lockRun calls).count lock) ∧
    ∀ opens opens' : List ShareOpen, opens.Perm opens' → AdmittedInOrder [] opens →
      AdmittedInOrder [] opens' := by
  refine ⟨fun lock hlock other hother howner hoverlaps =>
      (Excludes.run calls).shared hlock hother hoverlaps howner,
    fun owner inode stream offset length hallowed lock hlock hinode hstream howner byte hbyte =>
      not_inRange_of_allowsIo hallowed hlock ⟨hinode, hstream⟩ howner hbyte,
    fun lock hlock _ other hother offset length byte hbyte hrange => ?_,
    fun owner => ⟨cleanup_sublist _ _, fun lock => count_cleanup _ _ lock⟩,
    fun opens opens' hperm h => h.perm hperm⟩
  rw [← Bool.not_eq_true]
  exact fun hallowed =>
    not_inRange_of_allowsIo hallowed hlock ⟨rfl, rfl⟩ hother.symm hbyte hrange

/-- Two owners of locks on one stream, the second of which may write behind the lock of the
first. -/
theorem sharing_run_sample :
    ∀ byte, InRange 0 16 byte → ¬InRange 16 4 byte := by
  have hrun := sharing_run [.acquire 1 17 [] 0 16 true, .acquire 2 17 [] 32 16 false]
  have hallowed : allowsIo (lockRun [.acquire 1 17 [] 0 16 true, .acquire 2 17 [] 32 16 false])
      2 17 [] 16 4 true = true := by decide
  exact hrun.2.1 2 17 [] 16 4 hallowed ⟨1, 17, 0, 16, [], true, by decide⟩ (by decide) rfl rfl
    (by decide)

end Host
end ApfsAccess
