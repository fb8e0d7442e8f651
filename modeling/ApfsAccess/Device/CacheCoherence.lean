import ApfsAccess.Device.CacheProtocol

/-!
# The read cache is coherent

* `Sound` : the invariant.  Every window in the cache is what the disk holds; a thread that has
  an epoch open only has events left that stay clear of the cache; and a reader whose
  generation is still the current one has read what the disk still holds.
* `step_sound` : every step keeps it.
* `read_moments` : every block of what a read returns was on the disk at some moment of the call.
-/

namespace ApfsAccess
namespace Device

open Format ByteBuffer Storage

variable {Thread : Type*} {setup : CacheSetup}

/-! ## The invariant -/

/-- Every window in the cache is what the disk holds. -/
def CoherentWith (disk : Disk UInt8) (entries : List ReadCacheEntry) : Prop :=
  ∀ entry ∈ entries, entry.bytes = disk.contents entry.offsetBytes entry.sizeBytes

/-- A reader that may still insert: as long as its generation is the current one, and even, the
disk holds what it has read. -/
def ReaderSound (setup : CacheSetup) (disk : Disk UInt8) (generation snapshot start : ℕ)
    (bytes : Bytes) : Prop :=
  setup.readCacheEnabled = true ∧ snapshot ≤ generation ∧
    (snapshot = generation → snapshot % 2 = 0 → bytes = disk.contents start bytes.length)

/-- What holds of a thread in a phase. -/
def PhaseSound (setup : CacheSetup) (disk : Disk UInt8) (cache : ReadCache) : Phase → Prop
  | .reading offsetBytes _ (some snapshot) bytes =>
    ReaderSound setup disk cache.generation snapshot (readStart setup.config offsetBytes) bytes
  | .inserting offsetBytes destinationSize snapshot bytes =>
    ReaderSound setup disk cache.generation snapshot (readStart setup.config offsetBytes) bytes ∧
      bytes.length = readSize setup.config offsetBytes destinationSize
  | .inEpoch job _ => Avoids cache.entries (EpochCovers setup.config job.spans)
  | .writing events _ _ =>
    ∃ covered after, Avoids cache.entries covered ∧ Guarded covered disk events after
  | _ => True

/-- **The invariant.** -/
structure Sound (setup : CacheSetup) (machine : Machine Thread) : Prop where
  accounted : Accounted setup machine.cache
  coherent : CoherentWith machine.disk machine.cache.entries
  disabled : setup.readCacheEnabled = false → machine.cache.entries = []
  parity : setup.readCacheEnabled = true →
    (machine.cache.generation % 2 = 1 ↔ machine.epochHolder.isSome = true)
  holder : ∀ thread, (machine.phase thread).holdsEpoch = true ↔
    machine.epochHolder = some thread
  phases : ∀ thread, PhaseSound setup machine.disk machine.cache (machine.phase thread)

/-! ## Facts that survive -/

theorem Avoids.kept {before after : List ReadCacheEntry} {covered : ℕ → Prop}
    (h : Avoids before covered) (hkept : Kept before after) : Avoids after covered := by
  intro entry hmem x hlow hhigh
  obtain ⟨other, hother, hoffset, hsize, -⟩ := hkept entry hmem
  exact h other hother x (by rw [hoffset]; exact hlow) (by rw [hoffset, hsize]; exact hhigh)

theorem CoherentWith.kept {disk : Disk UInt8} {before after : List ReadCacheEntry}
    (h : CoherentWith disk before) (hkept : Kept before after) : CoherentWith disk after := by
  intro entry hmem
  obtain ⟨other, hother, hoffset, hsize, hbytes⟩ := hkept entry hmem
  rw [← hbytes, ← hoffset, ← hsize]
  exact h other hother

theorem ReaderSound.later {disk : Disk UInt8} {generation generation' snapshot start : ℕ}
    {bytes : Bytes} (h : ReaderSound setup disk generation snapshot start bytes)
    (hle : generation ≤ generation') :
    ReaderSound setup disk generation' snapshot start bytes := by
  obtain ⟨henabled, hsnapshot, hbytes⟩ := h
  refine ⟨henabled, hsnapshot.trans hle, fun hsame => hbytes ?_⟩
  omega

/-- While the disk stays, a phase survives what only drops windows and moves the generation on. -/
theorem PhaseSound.later {disk : Disk UInt8} {cache cache' : ReadCache} {phase : Phase}
    (h : PhaseSound setup disk cache phase) (hkept : Kept cache.entries cache'.entries)
    (hle : cache.generation ≤ cache'.generation) : PhaseSound setup disk cache' phase := by
  cases phase with
  | reading offsetBytes destinationSize snapshot bytes =>
    cases snapshot with
    | none => trivial
    | some snapshot => exact ReaderSound.later h hle
  | inserting offsetBytes destinationSize snapshot bytes => exact ⟨h.1.later hle, h.2⟩
  | inEpoch job rest => exact Avoids.kept h hkept
  | writing events answer rest =>
    obtain ⟨covered, after, havoids, hguarded⟩ := h
    exact ⟨covered, after, havoids.kept hkept, hguarded⟩
  | idle => trivial
  | readCalled _ _ => trivial
  | readReturned _ _ _ => trivial
  | writeCalled _ _ => trivial
  | admitted _ _ => trivial
  | epochEnded _ _ => trivial
  | writeReturned _ => trivial

/-- Outside an epoch a phase does not look at the entries, and a reader whose generation is not
the current one does not look at the disk. -/
theorem PhaseSound.elsewhere {disk disk' : Disk UInt8} {cache cache' : ReadCache} {phase : Phase}
    (h : PhaseSound setup disk cache phase) (hepoch : phase.holdsEpoch = false)
    (hgeneration : cache'.generation = cache.generation)
    (hdisk : setup.readCacheEnabled = true → cache.generation % 2 = 1 ∨ disk' = disk) :
    PhaseSound setup disk' cache' phase := by
  have hreader : ∀ {snapshot start : ℕ} {bytes : Bytes},
      ReaderSound setup disk cache.generation snapshot start bytes →
      ReaderSound setup disk' cache'.generation snapshot start bytes := by
    rintro snapshot start bytes ⟨henabled, hle, hbytes⟩
    rw [hgeneration]
    refine ⟨henabled, hle, fun hsame heven => ?_⟩
    rcases hdisk henabled with hodd | hsame'
    · omega
    · rw [hsame']
      exact hbytes hsame heven
  cases phase with
  | reading offsetBytes destinationSize snapshot bytes =>
    cases snapshot with
    | none => trivial
    | some snapshot => exact hreader h
  | inserting offsetBytes destinationSize snapshot bytes => exact ⟨hreader h.1, h.2⟩
  | inEpoch job rest => cases hepoch
  | writing events answer rest => cases hepoch
  | idle => trivial
  | readCalled _ _ => trivial
  | readReturned _ _ _ => trivial
  | writeCalled _ _ => trivial
  | admitted _ _ => trivial
  | epochEnded _ _ => trivial
  | writeReturned _ => trivial

/-- A thread whose epoch is open is the one that holds it. -/
theorem Sound.holder_unique {machine : Machine Thread} (h : Sound setup machine)
    {thread other : Thread} (hthread : (machine.phase thread).holdsEpoch = true)
    (hother : other ≠ thread) : (machine.phase other).holdsEpoch = false := by
  rw [← Bool.not_eq_true]
  intro hepoch
  have hfirst := (h.holder thread).mp hthread
  have hsecond := (h.holder other).mp hepoch
  exact hother (Option.some.inj (hsecond.symm.trans hfirst))

theorem opened_sound {machine : Machine Thread} (h : Opened machine) : Sound setup machine := by
  have hphase := h.phase
  refine ⟨?_, ?_, fun _ => ?_, fun _ => ?_, fun thread => ?_, fun thread => ?_⟩
  · rw [h.cache]
    exact accounted_empty setup
  · rw [h.cache]
    intro entry hmem
    cases hmem
  · rw [h.cache]
    rfl
  · rw [h.cache, h.epochHolder]
    simp [ReadCache.empty]
  · rw [hphase thread, h.epochHolder]
    simp [Phase.holdsEpoch]
  · rw [hphase thread]
    trivial

/-- A change to the cache by no thread in particular. -/
theorem Sound.recache {machine : Machine Thread} (h : Sound setup machine) {cache : ReadCache}
    (haccounted : Accounted setup cache) (hkept : Kept machine.cache.entries cache.entries)
    (hle : machine.cache.generation ≤ cache.generation)
    (hparity : cache.generation % 2 = machine.cache.generation % 2) :
    Sound setup { machine with cache } := by
  refine ⟨haccounted, h.coherent.kept hkept, fun hdisabled => ?_, fun henabled => ?_, h.holder,
    fun other => (h.phases other).later hkept hle⟩
  · rw [h.disabled hdisabled] at hkept
    refine List.eq_nil_iff_forall_not_mem.mpr fun entry hmem => ?_
    obtain ⟨_, hnone, -⟩ := hkept entry hmem
    cases hnone
  · show cache.generation % 2 = 1 ↔ _
    rw [hparity]
    exact h.parity henabled

variable [DecidableEq Thread]

section Goto

variable {machine : Machine Thread} {thread other : Thread} {phase : Phase}

@[simp] theorem goto_disk : (machine.goto thread phase).disk = machine.disk := rfl

@[simp] theorem goto_cache : (machine.goto thread phase).cache = machine.cache := rfl

@[simp] theorem goto_epochHolder :
    (machine.goto thread phase).epochHolder = machine.epochHolder := rfl

@[simp] theorem goto_phase_self : (machine.goto thread phase).phase thread = phase :=
  Function.update_self ..

theorem goto_phase_of_ne (h : other ≠ thread) :
    (machine.goto thread phase).phase other = machine.phase other :=
  Function.update_of_ne h ..

end Goto

/-- **A thread that moves on while disk and epoch stay.** -/
theorem Sound.quiet {machine : Machine Thread} (h : Sound setup machine) (thread : Thread)
    {cache : ReadCache} {phase : Phase} (haccounted : Accounted setup cache)
    (hkept : Kept machine.cache.entries cache.entries)
    (hgeneration : cache.generation = machine.cache.generation)
    (hphase : PhaseSound setup machine.disk cache phase)
    (hepoch : phase.holdsEpoch = (machine.phase thread).holdsEpoch) :
    Sound setup ({ machine with cache }.goto thread phase) := by
  refine ⟨haccounted, h.coherent.kept hkept, fun hdisabled => ?_, fun henabled => ?_,
    fun other => ?_, fun other => ?_⟩
  · rw [h.disabled hdisabled] at hkept
    refine List.eq_nil_iff_forall_not_mem.mpr fun entry hmem => ?_
    obtain ⟨_, hnone, -⟩ := hkept entry hmem
    cases hnone
  · show cache.generation % 2 = 1 ↔ _
    rw [hgeneration]
    exact h.parity henabled
  · by_cases hother : other = thread
    · subst hother
      rw [goto_phase_self, hepoch]
      exact h.holder other
    · rw [goto_phase_of_ne hother]
      exact h.holder other
  · by_cases hother : other = thread
    · subst hother
      rw [goto_phase_self]
      exact hphase
    · rw [goto_phase_of_ne hother]
      exact (h.phases other).later hkept hgeneration.ge

/-- A thread that moves on and leaves the cache alone. -/
theorem Sound.move {machine : Machine Thread} (h : Sound setup machine) (thread : Thread)
    {phase : Phase} (hphase : PhaseSound setup machine.disk machine.cache phase)
    (hepoch : phase.holdsEpoch = (machine.phase thread).holdsEpoch) :
    Sound setup (machine.goto thread phase) :=
  h.quiet thread h.accounted (Kept.of_subset (List.Subset.refl _)) rfl hphase hepoch

/-! ## Readers -/

section Readers

variable {machine : Machine Thread} {thread : Thread} {offsetBytes destinationSize : ℕ}

/-- A reader that has read nothing yet. -/
theorem readerSound_nil (henabled : setup.readCacheEnabled = true) (disk : Disk UInt8)
    (generation start : ℕ) : ReaderSound setup disk generation generation start [] :=
  ⟨henabled, le_refl _, fun _ _ => rfl⟩

theorem enabled_of_cacheable (h : cacheable setup offsetBytes destinationSize = true) :
    setup.readCacheEnabled = true := by
  simp only [cacheable, Bool.and_eq_true] at h
  exact h.1

theorem lookup_sound (h : Sound setup machine)
    (hphase : machine.phase thread = .readCalled offsetBytes destinationSize)
    (hcacheable : cacheable setup offsetBytes destinationSize = true) :
    Sound setup (machine.lookup setup.config thread offsetBytes destinationSize) := by
  have hmiss : Sound setup (machine.goto thread
      (.reading offsetBytes destinationSize (some machine.cache.generation) [])) :=
    h.move thread (readerSound_nil (enabled_of_cacheable hcacheable) _ _ _)
      (by rw [hphase]; rfl)
  unfold Machine.lookup
  split
  · split
    · rename_i entry cachedOffset hhit
      obtain ⟨hmem, -, -⟩ := hit_eq_some hhit
      obtain ⟨haccounted, hkept⟩ := touch_spec h.accounted hmem
      exact h.quiet thread haccounted hkept rfl trivial (by rw [hphase]; rfl)
    · exact hmiss
  · exact hmiss

/-- Reading on what the disk holds. -/
theorem readBlock_sound (h : Sound setup machine) {snapshot : Option ℕ} {bytes : Bytes}
    (hphase : machine.phase thread = .reading offsetBytes destinationSize snapshot bytes)
    (count : ℕ) :
    Sound setup (machine.goto thread (.reading offsetBytes destinationSize snapshot
      (bytes ++ machine.disk.contents (readStart setup.config offsetBytes + bytes.length)
        count))) := by
  refine h.move thread ?_ (by rw [hphase]; rfl)
  have hbefore := h.phases thread
  rw [hphase] at hbefore
  cases snapshot with
  | none => trivial
  | some snapshot =>
    obtain ⟨henabled, hle, hbytes⟩ := hbefore
    refine ⟨henabled, hle, fun hsame heven => ?_⟩
    rw [List.length_append, Disk.length_contents]
    nth_rewrite 1 [hbytes hsame heven]
    exact (Disk.contents_add machine.disk _ bytes.length count).symm

theorem finishRead_sound (h : Sound setup machine) {snapshot : Option ℕ} {bytes : Bytes}
    (hphase : machine.phase thread = .reading offsetBytes destinationSize snapshot bytes) :
    Sound setup (machine.finishRead setup.config thread offsetBytes destinationSize snapshot
      bytes) := by
  have hbefore := h.phases thread
  rw [hphase] at hbefore
  unfold Machine.finishRead
  split
  · exact h.move thread trivial (by rw [hphase]; rfl)
  · exact h.move thread trivial (by rw [hphase]; rfl)
  · split
    · rename_i hwhole
      exact h.move thread ⟨hbefore, hwhole⟩ (by rw [hphase]; rfl)
    · exact h.move thread trivial (by rw [hphase]; rfl)

/-- **An insertion**: the generation is even, so no epoch is open, and what the reader has read
is what the disk holds. -/
theorem insert_sound (h : Sound setup machine) {snapshot : ℕ} {bytes : Bytes}
    (hphase : machine.phase thread = .inserting offsetBytes destinationSize snapshot bytes) :
    Sound setup (machine.insert setup thread offsetBytes destinationSize snapshot bytes) := by
  have hbefore := h.phases thread
  rw [hphase] at hbefore
  obtain ⟨⟨henabled, -, hbytes⟩, hlength⟩ := hbefore
  unfold Machine.insert
  simp only
  split
  · exact h.move thread trivial (by rw [hphase]; rfl)
  rename_i hcurrent
  rw [not_or, not_or, not_not, not_not, not_not] at hcurrent
  obtain ⟨hsame, -, heven⟩ := hcurrent
  have hcontents := hbytes hsame heven
  have hnone : machine.epochHolder = none := by
    rw [← Option.not_isSome_iff_eq_none, ← h.parity henabled]
    omega
  have hepoch : ∀ other, (machine.phase other).holdsEpoch = false := by
    intro other
    have hholder := h.holder other
    rw [hnone] at hholder
    simpa using hholder
  obtain ⟨haccounted, hgeneration, hentries⟩ := insertReadCacheEntry_spec h.accounted
    (readStart setup.config offsetBytes) (readSize setup.config offsetBytes destinationSize) bytes
  refine ⟨haccounted, fun entry hmem => ?_, fun hdisabled => ?_, fun _ => ?_, fun other => ?_,
    fun other => ?_⟩
  · rcases hentries entry hmem with hold | ⟨hoffset, hsize, hnew⟩
    · exact h.coherent entry hold
    · rw [hnew, hoffset, hsize, ← hlength]
      exact hcontents
  · rw [henabled] at hdisabled
    cases hdisabled
  · show (insertReadCacheEntry setup _ _ bytes machine.cache).generation % 2 = 1 ↔ _
    rw [hgeneration]
    exact h.parity henabled
  · by_cases hother : other = thread
    · subst hother
      have hholder := h.holder other
      rw [hphase] at hholder
      rw [goto_phase_self]
      exact hholder
    · rw [goto_phase_of_ne hother]
      exact h.holder other
  · by_cases hother : other = thread
    · subst hother
      rw [goto_phase_self]
      trivial
    · rw [goto_phase_of_ne hother]
      exact (h.phases other).elsewhere (hepoch other) hgeneration fun _ => .inr rfl

end Readers

/-! ## Writers -/

section Writers

variable {machine : Machine Thread} {thread : Thread}

/-- An operation that leaves the entries alone keeps them. -/
theorem kept_of_eq {before after : List ReadCacheEntry} (h : after = before) :
    Kept before after :=
  Kept.of_subset (by rw [h]; exact List.Subset.refl _)

theorem beginWriteAdmission_same (setup : CacheSetup) (cache : ReadCache) :
    (beginWriteAdmission setup cache).entries = cache.entries ∧
      (beginWriteAdmission setup cache).cachedBytes = cache.cachedBytes ∧
      (beginWriteAdmission setup cache).generation = cache.generation := by
  unfold beginWriteAdmission
  split <;> exact ⟨rfl, rfl, rfl⟩

theorem endWriteAdmission_same (setup : CacheSetup) (cache : ReadCache) :
    (endWriteAdmission setup cache).entries = cache.entries ∧
      (endWriteAdmission setup cache).cachedBytes = cache.cachedBytes ∧
      (endWriteAdmission setup cache).generation = cache.generation := by
  unfold endWriteAdmission
  split <;> exact ⟨rfl, rfl, rfl⟩

/-- **Opening an epoch.** -/
theorem epochBegin_sound (h : Sound setup machine) {job : WriteJob} {rest : List WriteJob}
    (hphase : machine.phase thread = .admitted job rest) (hfree : machine.epochHolder = none) :
    Sound setup ({ machine with
      cache := beginWriteEpoch setup job.spans machine.cache
      epochHolder := some thread }.goto thread (.inEpoch job rest)) := by
  have hnone : ∀ other, (machine.phase other).holdsEpoch = false := by
    intro other
    have hholder := h.holder other
    rw [hfree] at hholder
    simpa using hholder
  -- what the epoch does to the cache, also when the cache is off
  obtain ⟨haccounted, hgeneration, hsubset, havoids⟩ :
      Accounted setup (beginWriteEpoch setup job.spans machine.cache) ∧
        (setup.readCacheEnabled = true →
          (beginWriteEpoch setup job.spans machine.cache).generation =
            machine.cache.generation + 1) ∧
        (beginWriteEpoch setup job.spans machine.cache).entries ⊆ machine.cache.entries ∧
        Avoids (beginWriteEpoch setup job.spans machine.cache).entries
          (EpochCovers setup.config job.spans) := by
    by_cases henabled : setup.readCacheEnabled = true
    · obtain ⟨haccounted, hgeneration, hsubset, havoids⟩ :=
        @beginWriteEpoch_spec setup job.spans machine.cache h.accounted henabled
      exact ⟨haccounted, fun _ => hgeneration, hsubset, havoids⟩
    · rw [Bool.not_eq_true] at henabled
      have hsame : beginWriteEpoch setup job.spans machine.cache = machine.cache := by
        rw [beginWriteEpoch, if_pos henabled]
      rw [hsame, h.disabled henabled]
      refine ⟨h.accounted, fun hcontra => ?_, List.Subset.refl _, fun entry hmem => ?_⟩
      · rw [henabled] at hcontra
        cases hcontra
      · cases hmem
  have hle : machine.cache.generation ≤
      (beginWriteEpoch setup job.spans machine.cache).generation := by
    by_cases henabled : setup.readCacheEnabled = true
    · rw [hgeneration henabled]
      omega
    · rw [Bool.not_eq_true] at henabled
      rw [beginWriteEpoch, if_pos henabled]
  refine ⟨haccounted, h.coherent.kept (Kept.of_subset hsubset), fun hdisabled => ?_,
    fun henabled => ?_, fun other => ?_, fun other => ?_⟩
  · have hempty := h.disabled hdisabled
    rw [hempty] at hsubset
    exact List.subset_nil.mp hsubset
  · have hparity := h.parity henabled
    rw [hfree] at hparity
    show (beginWriteEpoch setup job.spans machine.cache).generation % 2 = 1 ↔
      (some thread).isSome = true
    rw [hgeneration henabled]
    simp only [Option.isSome_none, Bool.false_eq_true, iff_false, Option.isSome_some,
      iff_true] at hparity ⊢
    omega
  · by_cases hother : other = thread
    · subst hother
      rw [goto_phase_self]
      exact ⟨fun _ => rfl, fun _ => rfl⟩
    · rw [goto_phase_of_ne hother]
      show (machine.phase other).holdsEpoch = true ↔ some thread = some other
      rw [hnone other]
      simp [Ne.symm hother]
  · by_cases hother : other = thread
    · subst hother
      rw [goto_phase_self]
      exact havoids
    · rw [goto_phase_of_ne hother]
      exact (h.phases other).later (Kept.of_subset hsubset) hle

/-- The body of a job writes where its epoch has cleared the cache. -/
theorem job_run_shows (job : WriteJob) (os : Os) (memory : ℕ → UInt8) (io : Io) :
    Shows (EpochCovers setup.config job.spans) io (job.run setup.config os memory io).2 := by
  cases job with
  | write span =>
    refine writeOne_shows (List.forall_mem_singleton.mpr fun x hx => ?_)
    have hsize : span.sizeBytes ≠ 0 := by
      obtain ⟨y, hlow, hhigh, -⟩ := hx
      intro hzero
      simp only [WriteSpan.pending] at hlow hhigh
      omega
    exact .inr ⟨span, List.mem_singleton_self span, hsize, hx⟩
  | batch writes =>
    refine writeBatch_shows writes fun write hmem x hx => ?_
    obtain ⟨span, hspan, rfl⟩ := List.mem_map.mp hmem
    obtain ⟨hwrites, hsize⟩ := List.mem_filter.mp hspan
    exact .inr ⟨span, hwrites, by simpa using hsize, hx⟩

theorem write_sound (h : Sound setup machine) {job : WriteJob} {rest : List WriteJob} (os : Os)
    (memory : ℕ → UInt8) {io : Io} (hphase : machine.phase thread = .inEpoch job rest)
    (hdisk : io.disk = machine.disk) (htrace : io.trace = []) :
    Sound setup (machine.goto thread
      (.writing (job.run setup.config os memory io).2.trace
        (job.run setup.config os memory io).1 rest)) := by
  have hbefore := h.phases thread
  rw [hphase] at hbefore
  obtain ⟨events, hevents, hguarded⟩ := @job_run_shows setup job os memory io
  rw [htrace, List.nil_append] at hevents
  rw [hdisk] at hguarded
  refine h.move thread ?_ (by rw [hphase]; rfl)
  rw [hevents]
  exact ⟨_, _, hbefore, hguarded⟩

/-- A write that lands in bytes the cache does not hold leaves the cache coherent. -/
theorem coherentWith_landed {disk disk' : Disk UInt8} {entries : List ReadCacheEntry}
    {covered : ℕ → Prop} {offset size : ℕ} (h : CoherentWith disk entries)
    (havoids : Avoids entries covered)
    (hcovered : ∀ x, offset ≤ x → x < offset + size → covered x)
    (hdisk : ∀ x, x < offset ∨ offset + size ≤ x → disk'.byte x = disk.byte x) :
    CoherentWith disk' entries := by
  intro entry hmem
  rw [h entry hmem]
  refine Disk.contents_congr fun x hlow hhigh => (hdisk x ?_).symm
  by_contra hinside
  exact havoids entry hmem x hlow hhigh (hcovered x (by omega) (by omega))

/-- Dropping a range leaves nothing of it in the cache. -/
theorem avoids_invalidated {cache : ReadCache} (h : Accounted setup cache) {covered : ℕ → Prop}
    (havoids : Avoids cache.entries covered) (offset size : ℕ) :
    Avoids (invalidateReadCacheRange offset size cache).entries
      fun x => covered x ∨ offset ≤ x ∧ x < offset + size := by
  rw [invalidateReadCacheRange_eq h]
  intro entry hmem x hlow hhigh hcovers
  obtain ⟨hold, hapart⟩ := List.mem_filter.mp hmem
  rcases hcovers with hcovered | hrange
  · exact havoids entry hold x hlow hhigh hcovered
  · rw [overlaps_of_mem ⟨hlow, hhigh⟩ hrange] at hapart
    cases hapart

theorem kept_invalidated {cache : ReadCache} (h : Accounted setup cache) (offset size : ℕ) :
    Kept cache.entries (invalidateReadCacheRange offset size cache).entries := by
  rw [invalidateReadCacheRange_eq h]
  exact Kept.of_subset List.filter_sublist.subset

/-- **One event of a write.** -/
theorem event_sound (h : Sound setup machine) {event : DeviceEvent} {events : List DeviceEvent}
    {answer : Bool} {rest : List WriteJob}
    (hphase : machine.phase thread = .writing (event :: events) answer rest) :
    Sound setup ((machine.observe setup event).goto thread (.writing events answer rest)) := by
  have hbefore := h.phases thread
  rw [hphase] at hbefore
  obtain ⟨covered, after, havoids, hguarded⟩ := hbefore
  cases event with
  | invalidated offset size =>
    rw [Machine.observe]
    split
    · rename_i hdisabled
      have hempty := h.disabled hdisabled
      refine h.move thread ?_ (by rw [hphase]; rfl)
      refine ⟨_, after, fun entry hmem => ?_, hguarded⟩
      rw [hempty] at hmem
      cases hmem
    · refine h.quiet thread (invalidateReadCacheRange_accounted h.accounted offset size)
        (kept_invalidated h.accounted offset size) rfl ?_ (by rw [hphase]; rfl)
      exact ⟨_, after, avoids_invalidated h.accounted havoids offset size, hguarded⟩
  | landed offset size disk =>
    obtain ⟨hcovered, hdisk, hrest⟩ := hguarded
    have hepoch : (machine.phase thread).holdsEpoch = true := by rw [hphase]; rfl
    have hholder := (h.holder thread).mp hepoch
    refine ⟨h.accounted, coherentWith_landed h.coherent havoids hcovered hdisk, h.disabled,
      h.parity, fun other => ?_, fun other => ?_⟩
    · by_cases hother : other = thread
      · subst hother
        rw [goto_phase_self]
        exact ⟨fun _ => hholder, fun _ => rfl⟩
      · rw [goto_phase_of_ne hother]
        exact h.holder other
    · by_cases hother : other = thread
      · subst hother
        rw [goto_phase_self]
        exact ⟨covered, after, havoids, hrest⟩
      · rw [goto_phase_of_ne hother]
        -- the epoch is open, so the generation of a reader is not even and current
        refine (h.phases other).elsewhere (h.holder_unique hepoch hother) rfl fun henabled => ?_
        refine .inl ((h.parity henabled).mpr ?_)
        rw [hholder]
        rfl

theorem endWriteEpoch_same (setup : CacheSetup) (cache : ReadCache) :
    (endWriteEpoch setup cache).entries = cache.entries ∧
      (endWriteEpoch setup cache).cachedBytes = cache.cachedBytes ∧
      cache.generation ≤ (endWriteEpoch setup cache).generation ∧
      (setup.readCacheEnabled = true →
        (endWriteEpoch setup cache).generation = cache.generation + 1) := by
  unfold endWriteEpoch
  split
  · rename_i hdisabled
    exact ⟨rfl, rfl, le_refl _, fun henabled => by rw [hdisabled] at henabled; cases henabled⟩
  · exact ⟨rfl, rfl, Nat.le_succ _, fun _ => rfl⟩

/-- **Closing an epoch.** -/
theorem epochEnd_sound (h : Sound setup machine) {answer : Bool} {rest : List WriteJob}
    (hphase : machine.phase thread = .writing [] answer rest) :
    Sound setup ({ machine with
      cache := endWriteEpoch setup machine.cache
      epochHolder := none }.goto thread (.epochEnded answer rest)) := by
  have hepoch : (machine.phase thread).holdsEpoch = true := by rw [hphase]; rfl
  have hholder := (h.holder thread).mp hepoch
  obtain ⟨hentries, hbytes, hle, hgeneration⟩ := endWriteEpoch_same setup machine.cache
  refine ⟨h.accounted.congr hentries hbytes, h.coherent.kept (kept_of_eq hentries),
    fun hdisabled => ?_, fun henabled => ?_, fun other => ?_, fun other => ?_⟩
  · show (endWriteEpoch setup machine.cache).entries = []
    rw [hentries]
    exact h.disabled hdisabled
  · have hodd := (h.parity henabled).mpr (by rw [hholder]; rfl)
    show (endWriteEpoch setup machine.cache).generation % 2 = 1 ↔
      (none : Option Thread).isSome = true
    rw [hgeneration henabled]
    simp only [Option.isSome_none, Bool.false_eq_true, iff_false]
    omega
  · by_cases hother : other = thread
    · subst hother
      rw [goto_phase_self]
      simp [Phase.holdsEpoch]
    · rw [goto_phase_of_ne hother]
      show (machine.phase other).holdsEpoch = true ↔ none = some other
      rw [h.holder_unique hepoch hother]
      simp
  · by_cases hother : other = thread
    · subst hother
      rw [goto_phase_self]
      trivial
    · rw [goto_phase_of_ne hother]
      exact (h.phases other).later (kept_of_eq hentries) hle

end Writers

/-! ## All steps -/

/-- **Every step keeps the invariant.** -/
theorem step_sound {machine machine' : Machine Thread} (h : Sound setup machine)
    (hstep : Step setup machine machine') : Sound setup machine' := by
  cases hstep with
  | readCall _ _ hphase => exact h.move _ trivial (by rw [hphase]; rfl)
  | readEmpty hphase => exact h.move _ trivial (by rw [hphase]; rfl)
  | readRefused hphase _ => exact h.move _ trivial (by rw [hphase]; rfl)
  | lookup hphase _ hcacheable => exact lookup_sound h hphase hcacheable
  | uncached hphase _ _ => exact h.move _ trivial (by rw [hphase]; rfl)
  | readBlock hphase _ _ _ _ => exact readBlock_sound h hphase _
  | readFailed hphase => exact h.move _ trivial (by rw [hphase]; rfl)
  | readFinished hphase => exact finishRead_sound h hphase
  | insert hphase => exact insert_sound h hphase
  | readReturn hphase => exact h.move _ trivial (by rw [hphase]; rfl)
  | writeRefused _ hphase _ => exact h.move _ trivial (by rw [hphase]; rfl)
  | writeCall _ hphase _ => exact h.move _ trivial (by rw [hphase]; rfl)
  | announce hphase =>
    obtain ⟨hentries, hbytes, hgeneration⟩ := beginWriteAdmission_same setup machine.cache
    exact h.quiet _ (h.accounted.congr hentries hbytes) (kept_of_eq hentries) hgeneration trivial
      (by rw [hphase]; rfl)
  | epochBegin hphase hfree => exact epochBegin_sound h hphase hfree
  | write os memory io hphase hdisk htrace => exact write_sound h os memory hphase hdisk htrace
  | event hphase => exact event_sound h hphase
  | epochEnd hphase => exact epochEnd_sound h hphase
  | leave hphase =>
    rename_i thread answer rest
    obtain ⟨hentries, hbytes, hgeneration⟩ := endWriteAdmission_same setup machine.cache
    refine h.quiet _ (h.accounted.congr hentries hbytes) (kept_of_eq hentries) hgeneration ?_ ?_
    · unfold afterJob
      split <;> trivial
    · rw [hphase]
      unfold afterJob
      split <;> rfl
  | writeReturn hphase => exact h.move _ trivial (by rw [hphase]; rfl)
  | invalidate =>
    unfold invalidateReadCache
    split
    · exact h
    · refine h.recache ((clear_accounted h.accounted).congr rfl rfl) ?_ (Nat.le_add_right _ _) ?_
      · refine Kept.of_subset ?_
        show machine.cache.clear.entries ⊆ machine.cache.entries
        rw [clear_entries]
        exact List.nil_subset _
      · show (machine.cache.generation + 2) % 2 = machine.cache.generation % 2
        omega
  | rehash hperm =>
    rename_i entries
    refine h.recache ⟨fun entry hmem => h.accounted.sized entry (hperm.mem_iff.mp hmem), ?_, ?_,
      h.accounted.bytes_le⟩ (Kept.of_subset hperm.subset) (le_refl _) rfl
    · rw [totalBytes_perm hperm]
      exact h.accounted.counted
    · show entries.length ≤ setup.readCacheMaxEntries
      rw [hperm.length_eq]
      exact h.accounted.entries_le

/-- **The invariant holds at every moment of a run.** -/
theorem run_sound (run : CacheRun setup Thread) (moment : ℕ) : Sound setup (run.state moment) := by
  induction moment with
  | zero => exact opened_sound run.opened
  | succ moment ih =>
    rcases run.next moment with hstep | hsame
    · exact step_sound ih hstep
    · rw [hsame]
      exact ih

/-! ## What a read returns -/

/-- The bytes of one logical block, among bytes that start at an offset, are those of a disk. -/
def BlockSeen (blockSize : ℕ) (disk : Disk UInt8) (start : ℕ) (bytes : Bytes) (block : ℕ) : Prop :=
  ∀ i < bytes.length, (start + i) / blockSize = block → bytes[i]? = some (disk.byte (start + i))

/-- Every block was on one of the disks of the past. -/
def SeenBlocks (blockSize : ℕ) (past : Disk UInt8 → Prop) (start : ℕ) (bytes : Bytes) : Prop :=
  ∀ block, ∃ disk, past disk ∧ BlockSeen blockSize disk start bytes block

theorem seenBlocks_contents {blockSize : ℕ} {past : Disk UInt8 → Prop} {disk : Disk UInt8}
    (h : past disk) (start size : ℕ) :
    SeenBlocks blockSize past start (disk.contents start size) := by
  intro block
  refine ⟨disk, h, fun i hi _ => ?_⟩
  rw [Disk.length_contents] at hi
  exact Disk.getElem?_contents hi

/-- Nothing read yet. -/
theorem seenBlocks_nil {past : Disk UInt8 → Prop} {disk : Disk UInt8} (h : past disk)
    (blockSize start : ℕ) : SeenBlocks blockSize past start [] :=
  seenBlocks_contents h start 0

/-- A part of bytes that were seen. -/
theorem SeenBlocks.slice {blockSize : ℕ} {past : Disk UInt8 → Prop} {start : ℕ} {bytes : Bytes}
    (h : SeenBlocks blockSize past start bytes) {offset size : ℕ}
    (hfits : offset + size ≤ bytes.length) :
    SeenBlocks blockSize past (start + offset) (slice bytes offset size) := by
  intro block
  obtain ⟨disk, hpast, hseen⟩ := h block
  refine ⟨disk, hpast, fun i hi hblock => ?_⟩
  rw [length_slice_of_le hfits] at hi
  rw [getElem?_slice, if_pos hi, Nat.add_assoc]
  exact hseen (offset + i) (by omega) (by rw [← Nat.add_assoc]; exact hblock)

/-- One more block, read from the disk as it is now. -/
theorem SeenBlocks.append {blockSize : ℕ} {past : Disk UInt8 → Prop} {start : ℕ} {bytes : Bytes}
    (h : SeenBlocks blockSize past start bytes) {disk : Disk UInt8} (hdisk : past disk)
    {count : ℕ} (hblock : 0 < blockSize) (haligned : (start + bytes.length) % blockSize = 0)
    (hcount : count ≤ blockSize) :
    SeenBlocks blockSize past start
      (bytes ++ disk.contents (start + bytes.length) count) := by
  intro block
  have hstart := Nat.div_add_mod (start + bytes.length) blockSize
  rw [haligned, Nat.add_zero] at hstart
  by_cases hnew : block = (start + bytes.length) / blockSize
  · -- the new block: the bytes before it belong to earlier blocks
    refine ⟨disk, hdisk, fun i hi hi' => ?_⟩
    rw [List.length_append, Disk.length_contents] at hi
    have hlow : bytes.length ≤ i := by
      by_contra hbefore
      have hless : start + i < (start + bytes.length) / blockSize * blockSize := by
        rw [Nat.mul_comm]
        omega
      have := (Nat.div_lt_iff_lt_mul hblock).mpr hless
      omega
    rw [List.getElem?_append_right hlow, Disk.getElem?_contents (by omega)]
    congr 2
    omega
  · obtain ⟨seen, hpast, hseen⟩ := h block
    refine ⟨seen, hpast, fun i hi hi' => ?_⟩
    rw [List.length_append, Disk.length_contents] at hi
    have hhigh : i < bytes.length := by
      by_contra hbehind
      refine hnew ?_
      rw [← hi']
      refine (Nat.div_eq_iff hblock).mpr ⟨?_, ?_⟩
      · rw [Nat.mul_comm]
        omega
      · rw [Nat.mul_comm]
        omega
    rw [List.getElem?_append_left hhigh]
    exact hseen i hhigh hi'

/-- What has been read so far, or was returned, was on the disks of the past. -/
def Seen (config : Config) (past : Disk UInt8 → Prop) : Phase → Prop
  | .reading offsetBytes _ _ bytes =>
    SeenBlocks config.logicalBlockSize past (readStart config offsetBytes) bytes
  | .inserting offsetBytes _ _ bytes =>
    SeenBlocks config.logicalBlockSize past (readStart config offsetBytes) bytes
  | .readReturned offsetBytes _ (some bytes) =>
    SeenBlocks config.logicalBlockSize past (offsetBytes + config.baseOffsetBytes) bytes
  | _ => True

theorem readStart_add_readPrefix (config : Config) (offsetBytes : ℕ) :
    readStart config offsetBytes + readPrefix config offsetBytes =
      offsetBytes + config.baseOffsetBytes := by
  have := alignDown_le (offsetBytes + config.baseOffsetBytes) config.logicalBlockSize
  unfold readPrefix readStart
  omega

theorem readStart_mod (config : Config) (offsetBytes : ℕ) :
    readStart config offsetBytes % config.logicalBlockSize = 0 := by
  rw [readStart, alignDown_eq (logicalBlockSize_pos config)]
  exact Nat.mul_mod_left _ _

/-- What a read returns of the window it was given. -/
theorem seen_readResult {config : Config} {past : Disk UInt8 → Prop}
    {offsetBytes destinationSize : ℕ} {bytes : Bytes}
    (h : SeenBlocks config.logicalBlockSize past (readStart config offsetBytes) bytes) :
    Seen config past (.readReturned offsetBytes destinationSize
      (readResult config offsetBytes destinationSize bytes)) := by
  unfold readResult
  split
  · trivial
  · show SeenBlocks _ _ _ _
    rw [← readStart_add_readPrefix]
    exact h.slice (by omega)

section SeenSteps

variable {config : Config} {past past' : Disk UInt8 → Prop} {machine : Machine Thread}
  {thread reader : Thread} {offsetBytes destinationSize : ℕ}

theorem Seen.mono {phase : Phase} (h : Seen config past phase)
    (hpast : ∀ disk, past disk → past' disk) : Seen config past' phase := by
  have hblocks : ∀ {start : ℕ} {bytes : Bytes},
      SeenBlocks config.logicalBlockSize past start bytes →
      SeenBlocks config.logicalBlockSize past' start bytes := fun hseen block => by
    obtain ⟨disk, hdisk, hblock⟩ := hseen block
    exact ⟨disk, hpast disk hdisk, hblock⟩
  cases phase with
  | reading offsetBytes destinationSize snapshot bytes => exact hblocks h
  | inserting offsetBytes destinationSize snapshot bytes => exact hblocks h
  | readReturned offsetBytes destinationSize result =>
    cases result with
    | none => trivial
    | some bytes => exact hblocks h
  | _ => trivial

/-- Another thread's phase is as before. -/
theorem seen_goto {phase : Phase} (h : Seen config past (machine.phase reader))
    (hnew : reader = thread → Seen config past phase) :
    Seen config past ((machine.goto thread phase).phase reader) := by
  by_cases hreader : reader = thread
  · subst hreader
    rw [goto_phase_self]
    exact hnew rfl
  · rw [goto_phase_of_ne hreader]
    exact h

/-- **A hit serves what the disk holds now.** -/
theorem lookup_seen (hsound : Sound setup machine) (hnow : past machine.disk)
    (h : Seen setup.config past (machine.phase reader))
    (hadmitted : readAdmitted setup.config offsetBytes destinationSize = true) :
    Seen setup.config past
      ((machine.lookup setup.config thread offsetBytes destinationSize).phase reader) := by
  have hmiss : Seen setup.config past ((machine.goto thread (.reading offsetBytes destinationSize
      (some machine.cache.generation) [])).phase reader) :=
    seen_goto h fun _ => seenBlocks_nil hnow _ _
  unfold Machine.lookup
  split
  · split
    · rename_i entry cachedOffset hhit
      refine seen_goto h fun _ => ?_
      obtain ⟨hmem, hoffset, hfits⟩ := hit_eq_some hhit
      have hcontents := hsound.coherent entry hmem
      have hseen : SeenBlocks setup.config.logicalBlockSize past entry.offsetBytes entry.bytes := by
        rw [hcontents]
        exact seenBlocks_contents hnow _ _
      -- the request lies in the window, and the window in the entry
      simp only [readAdmitted, Bool.and_eq_true, bne_iff_ne] at hadmitted
      have hcover := le_alignUp hadmitted.1.2
      have hsize : cachedOffset + readPrefix setup.config offsetBytes + destinationSize ≤
          entry.bytes.length := by
        have : readPrefix setup.config offsetBytes + destinationSize ≤
          readSize setup.config offsetBytes destinationSize := hcover
        omega
      have hstart : offsetBytes + setup.config.baseOffsetBytes =
          entry.offsetBytes + (cachedOffset + readPrefix setup.config offsetBytes) := by
        rw [← readStart_add_readPrefix, ← hoffset, Nat.add_assoc]
      show SeenBlocks _ _ _ _
      rw [hstart]
      exact hseen.slice hsize
    · exact hmiss
  · exact hmiss

theorem finishRead_seen {snapshot : Option ℕ} {bytes : Bytes}
    (h : Seen config past (machine.phase reader))
    (hphase : machine.phase thread = .reading offsetBytes destinationSize snapshot bytes) :
    Seen config past ((machine.finishRead config thread offsetBytes destinationSize snapshot
      bytes).phase reader) := by
  have hbytes : reader = thread →
      SeenBlocks config.logicalBlockSize past (readStart config offsetBytes) bytes := by
    rintro rfl
    rw [hphase] at h
    exact h
  have hresult : reader = thread → Seen config past (.readReturned offsetBytes destinationSize
      (readResult config offsetBytes destinationSize bytes)) :=
    fun hreader => seen_readResult (hbytes hreader)
  unfold Machine.finishRead
  split
  · exact seen_goto h fun _ => trivial
  · rename_i hsome
    rw [hsome] at hresult
    exact seen_goto h hresult
  · rename_i hsome
    rw [hsome] at hresult
    split
    · exact seen_goto h hbytes
    · exact seen_goto h hresult

theorem insert_seen {snapshot : ℕ} {bytes : Bytes}
    (h : Seen setup.config past (machine.phase reader))
    (hphase : machine.phase thread = .inserting offsetBytes destinationSize snapshot bytes) :
    Seen setup.config past ((machine.insert setup thread offsetBytes destinationSize snapshot
      bytes).phase reader) := by
  have hresult : reader = thread → Seen setup.config past (.readReturned offsetBytes
      destinationSize (readResult setup.config offsetBytes destinationSize bytes)) := by
    rintro rfl
    rw [hphase] at h
    exact seen_readResult h
  unfold Machine.insert
  simp only
  split
  · exact seen_goto h hresult
  · exact seen_goto h hresult

/-- **One step of any thread**: what a reader holds was on a disk of the past, to which the disk
before the step belongs. -/
theorem step_seen {machine' : Machine Thread} (hsound : Sound setup machine)
    (hstep : Step setup machine machine') (hnow : past machine.disk)
    (h : Seen setup.config past (machine.phase reader)) :
    Seen setup.config past (machine'.phase reader) := by
  cases hstep with
  | readCall _ _ _ => exact seen_goto h fun _ => trivial
  | readEmpty _ => exact seen_goto h fun _ => seenBlocks_nil hnow _ _
  | readRefused _ _ => exact seen_goto h fun _ => trivial
  | lookup _ hadmitted _ => exact lookup_seen hsound hnow h hadmitted
  | uncached _ _ _ => exact seen_goto h fun _ => seenBlocks_nil hnow _ _
  | readBlock hphase _ hwhole hcount _ =>
    refine seen_goto h ?_
    rintro rfl
    rw [hphase] at h
    refine SeenBlocks.append h hnow (logicalBlockSize_pos setup.config) ?_ (by omega)
    rw [Nat.add_mod, readStart_mod, hwhole]
    exact Nat.zero_mod _
  | readFailed _ => exact seen_goto h fun _ => trivial
  | readFinished hphase => exact finishRead_seen h hphase
  | insert hphase => exact insert_seen h hphase
  | readReturn _ => exact seen_goto h fun _ => trivial
  | writeRefused _ _ _ => exact seen_goto h fun _ => trivial
  | writeCall _ _ _ => exact seen_goto h fun _ => trivial
  | announce _ => exact seen_goto h fun _ => trivial
  | epochBegin _ _ => exact seen_goto h fun _ => trivial
  | write _ _ _ _ _ _ => exact seen_goto h fun _ => trivial
  | event _ =>
    rename_i event _ _ _ _
    refine seen_goto ?_ fun _ => trivial
    cases event with
    | invalidated offset size =>
      rw [Machine.observe]
      split
      · exact h
      · exact h
    | landed offset size disk => exact h
  | epochEnd _ => exact seen_goto h fun _ => trivial
  | leave _ =>
    refine seen_goto h fun _ => ?_
    unfold afterJob
    split <;> trivial
  | writeReturn _ => exact seen_goto h fun _ => trivial
  | invalidate => exact h
  | rehash _ => exact h

end SeenSteps

/-- **What a reader holds was on the disk at a moment since its call.** -/
theorem run_seen (run : CacheRun setup Thread) {reader : Thread} {start : ℕ}
    (hstart : Seen setup.config (fun _ => False) ((run.state start).phase reader)) (count : ℕ) :
    Seen setup.config
      (fun disk => ∃ moment, start ≤ moment ∧ moment ≤ start + count ∧
        (run.state moment).disk = disk)
      ((run.state (start + count)).phase reader) := by
  induction count with
  | zero => exact hstart.mono fun _ hfalse => hfalse.elim
  | succ count ih =>
    have hlater : Seen setup.config (fun disk => ∃ moment, start ≤ moment ∧
        moment ≤ start + (count + 1) ∧ (run.state moment).disk = disk)
        ((run.state (start + count)).phase reader) := by
      refine ih.mono fun disk hdisk => ?_
      obtain ⟨moment, hlow, hhigh, hsame⟩ := hdisk
      exact ⟨moment, hlow, by omega, hsame⟩
    have hnow : ∃ moment, start ≤ moment ∧ moment ≤ start + (count + 1) ∧
        (run.state moment).disk = (run.state (start + count)).disk :=
      ⟨start + count, by omega, by omega, rfl⟩
    rcases run.next (start + count) with hstep | hsame
    · exact step_seen (run_sound run _) hstep hnow hlater
    · have hphase : (run.state (start + (count + 1))).phase reader =
          (run.state (start + count)).phase reader := by
        rw [← Nat.add_assoc, hsame]
      rw [hphase]
      exact hlater

/-- **The read cache is coherent.**  In every run, every block of the bytes that a `ReadInto`
returns is the content of the device at some moment of the call; so a block that has not changed
since some earlier moment, such as the return of a write to it, is returned as it was then.  And
at every moment, with calls in progress or none, every cached window is what the device holds,
the counter is the total size of the windows, and both budgets are kept. -/
theorem read_cache_coherent (run : CacheRun setup Thread) :
    (∀ (reader : Thread) (start stop offsetBytes destinationSize : ℕ) (bytes : Bytes),
      start ≤ stop →
      (run.state start).phase reader = .readCalled offsetBytes destinationSize →
      (run.state stop).phase reader = .readReturned offsetBytes destinationSize (some bytes) →
      ∀ block, (∃ moment, start ≤ moment ∧ moment ≤ stop ∧
          BlockSeen setup.config.logicalBlockSize (run.state moment).disk
            (offsetBytes + setup.config.baseOffsetBytes) bytes block) ∧
        ∀ since ≤ start, (∀ moment, since ≤ moment → moment ≤ stop →
            ∀ x, x / setup.config.logicalBlockSize = block →
              (run.state moment).disk.byte x = (run.state since).disk.byte x) →
          BlockSeen setup.config.logicalBlockSize (run.state since).disk
            (offsetBytes + setup.config.baseOffsetBytes) bytes block) ∧
      ∀ moment, CoherentWith (run.state moment).disk (run.state moment).cache.entries ∧
        (run.state moment).cache.cachedBytes = totalBytes (run.state moment).cache.entries ∧
        (run.state moment).cache.entries.length ≤ setup.readCacheMaxEntries ∧
        (run.state moment).cache.cachedBytes ≤ readCacheMaxBytes := by
  refine ⟨fun reader start stop offsetBytes destinationSize bytes hle hcalled hreturned block => ?_,
    fun moment => ?_⟩
  · have hstart : Seen setup.config (fun _ => False) ((run.state start).phase reader) := by
      rw [hcalled]
      trivial
    have hseen := run_seen run hstart (stop - start)
    rw [Nat.add_sub_cancel' hle, hreturned] at hseen
    obtain ⟨disk, ⟨moment, hlow, hhigh, rfl⟩, hblock⟩ := hseen block
    refine ⟨⟨moment, hlow, hhigh, hblock⟩, fun since hsince hsame i hi hi' => ?_⟩
    rw [hblock i hi hi', hsame moment (hsince.trans hlow) hhigh _ hi']
  · have hsound := run_sound run moment
    exact ⟨hsound.coherent, hsound.accounted.counted, hsound.accounted.entries_le,
      hsound.accounted.bytes_le⟩

/-! ### A run -/

/-- A raw device with its cache on. -/
def sampleSetup : CacheSetup := ⟨sampleConfig, true, 2048⟩

/-- A device with sixteen kilobytes of zeros, just opened. -/
def sampleOpened : Machine Unit := ⟨⟨16384, fun _ => 0⟩, ReadCache.empty, none, fun _ => .idle⟩

/-- The block that is read. -/
def sampleBlock : Bytes := sampleOpened.disk.contents 4096 512

/-- `ReadInto` was called for the first block. -/
def sampleCalled : Machine Unit := sampleOpened.goto () (.readCalled 0 512)

/-- The lookup has missed. -/
def sampleMissed : Machine Unit := sampleCalled.goto () (.reading 0 512 (some 0) [])

/-- The device has given the block. -/
def sampleRead : Machine Unit := sampleMissed.goto () (.reading 0 512 (some 0) sampleBlock)

/-- The block is about to be inserted. -/
def sampleInserting : Machine Unit := sampleRead.goto () (.inserting 0 512 0 sampleBlock)

theorem length_sampleBlock : sampleBlock.length = 512 := Disk.length_contents _ _ _

theorem readResult_sampleBlock :
    readResult sampleSetup.config 0 512 sampleBlock = some sampleBlock := by
  have hprefix : readPrefix sampleSetup.config 0 = 0 := by decide
  rw [readResult, hprefix, if_neg (Nat.not_lt_zero _), length_sampleBlock, Nat.sub_zero,
    Nat.min_self]
  nth_rewrite 1 [← length_sampleBlock]
  rw [slice_zero_length]

theorem finishRead_sample :
    sampleRead.finishRead sampleSetup.config () 0 512 (some 0) sampleBlock = sampleInserting := by
  unfold Machine.finishRead
  rw [readResult_sampleBlock]
  simp only
  rw [if_pos (by rw [length_sampleBlock]; decide)]
  rfl

theorem readBlock_sample : Step sampleSetup sampleMissed sampleRead := by
  have hstart : readStart sampleSetup.config 0 = 4096 := by decide
  have hstep := @Step.readBlock Unit _ sampleSetup sampleMissed () 0 512 (some 0) [] 512
    goto_phase_self (by decide) (by decide) (by decide) (by decide)
  rw [List.nil_append, hstart] at hstep
  exact hstep

/-- The states of the read of one block. -/
def sampleState : ℕ → Machine Unit
  | 0 => sampleOpened
  | 1 => sampleCalled
  | 2 => sampleMissed
  | 3 => sampleRead
  | 4 => sampleInserting
  | _ => sampleInserting.insert sampleSetup () 0 512 0 sampleBlock

theorem sampleState_next (moment : ℕ) :
    Step sampleSetup (sampleState moment) (sampleState (moment + 1)) ∨
      sampleState (moment + 1) = sampleState moment := by
  match moment with
  | 0 => exact .inl (Step.readCall 0 512 rfl)
  | 1 => exact .inl (Step.lookup goto_phase_self (by decide) (by decide))
  | 2 => exact .inl readBlock_sample
  | 3 =>
    refine .inl ?_
    show Step sampleSetup sampleRead sampleInserting
    rw [← finishRead_sample]
    exact Step.readFinished goto_phase_self
  | 4 => exact .inl (Step.insert goto_phase_self)
  | moment + 5 => exact .inr rfl

/-- The read of one block, as a run. -/
def sampleRun : CacheRun sampleSetup Unit where
  state := sampleState
  opened := ⟨rfl, rfl, fun _ => rfl⟩
  next := sampleState_next

/-- The read returns the block, which was on the device during the call, and caches it. -/
theorem read_cache_coherent_sampleRun :
    (∃ moment, 1 ≤ moment ∧ moment ≤ 5 ∧
      BlockSeen 512 (sampleRun.state moment).disk 4096 sampleBlock 8) ∧
      CoherentWith (sampleRun.state 5).disk (sampleRun.state 5).cache.entries := by
  obtain ⟨hreads, hcache⟩ := read_cache_coherent sampleRun
  have hreturned : (sampleRun.state 5).phase () = .readReturned 0 512 (some sampleBlock) := by
    show (sampleInserting.insert sampleSetup () 0 512 0 sampleBlock).phase () = _
    unfold Machine.insert
    rw [readResult_sampleBlock]
    simp only
    split
    · exact goto_phase_self
    · exact goto_phase_self
  exact ⟨(hreads () 1 5 0 512 sampleBlock (by decide) goto_phase_self hreturned 8).1,
    (hcache 5).1⟩

end Device
end ApfsAccess
