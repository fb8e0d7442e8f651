import ApfsAccess.Geometry.GptPlan

/-!
# A crash while the partition table is resized

The disk is looked at sector by sector.  `Publish` writes four sectors; whatever stops it,
the other sectors are those of the disk it started on (`Around`), and the sector of the
write in progress may hold anything.  The backup copy is renewed before the primary one
is touched, so one of the two is whole at every moment.

* `Describes` : one of the two copies is valid and describes a table.
* `publish_stopped`, `publish_complete` : where a stopped and a complete run lead.
* `resize_survives_crash` : the crash theorem.
-/

namespace ApfsAccess
namespace Geometry

open Format ByteBuffer Storage

variable {crc32 : Bytes → UInt32}

/-! ## Tables on a disk -/

/-- The disk that a snapshot was read from. -/
structure Holds (disk : Disk UInt8) (s : Snapshot) : Prop where
  size : disk.sizeBytes = s.media.diskSizeBytes
  mbr : disk.read 0 s.sector = some s.mbr
  primaryHeader : disk.read s.sector s.sector = some s.primaryHeader
  backupHeader : disk.read (s.diskLast * s.sector) s.sector = some s.backupHeader
  primaryArray : disk.read (readN s.primaryHeader 72 * s.sector) s.primaryArray.length =
    some s.primaryArray
  backupArray : disk.read (readN s.backupHeader 72 * s.sector) s.backupArray.length =
    some s.backupArray

/-- A partition table: the usable sectors and the entries. -/
structure Table where
  first : ℕ
  last : ℕ
  entries : Bytes

/-- The number of entries. -/
def Table.count (table : Table) : ℕ := table.entries.length / 128

/-- The partitions lie inside the usable sectors and do not meet. -/
structure Table.WellFormed (table : Table) : Prop where
  inside : ∀ i < table.count, used table.entries i →
    table.first ≤ firstOf table.entries i ∧ firstOf table.entries i ≤ lastOf table.entries i ∧
      lastOf table.entries i ≤ table.last
  apart : ∀ i < table.count, ∀ j < table.count, i ≠ j → used table.entries i →
    used table.entries j → lastOf table.entries i < firstOf table.entries j ∨
      lastOf table.entries j < firstOf table.entries i

/-- The table with the end of one partition moved. -/
def Table.moveEnd (table : Table) (selected newLast : ℕ) : Table :=
  { table with entries := Geometry.moveEnd table.entries selected newLast }

/-- The copy whose header is in sector `here` is valid (its own checksum, the checksum of
its array, its own and the other copy's sector), and describes the table. -/
def Describes (crc32 : Bytes → UInt32) (disk : Disk UInt8) (s : Snapshot) (here other : ℕ)
    (table : Table) : Prop :=
  ∃ bytes header, disk.read (here * s.sector) s.sector = some bytes ∧
    headerOf crc32 bytes here other s.original.binding = .ok header ∧
    header.first = table.first ∧ header.last = table.last ∧
    disk.read (header.arrayLba * s.sector) (header.count * header.entryBytes) =
      some table.entries ∧
    (crc32 table.entries).toNat = readD bytes 88

section Sectors

variable {s : Snapshot} {primary backup header : Header} {selected : ℕ} {disk : Disk UInt8}

theorem readN_of_headerOf {bytes : Bytes} {here other : ℕ} {binding : RawSnapshotBinding}
    (h : headerOf crc32 bytes here other binding = .ok header) :
    readN bytes 72 = header.arrayLba ∧ header.entryBytes = 128 ∧
      bytes.length = binding.media.logicalSectorBytes := by
  obtain ⟨⟨hlength, -⟩, -, ⟨-, -, -, hentry⟩, heq⟩ := headerOf_eq_ok.mp h
  rw [heq]
  exact ⟨rfl, hentry, hlength⟩

/-- A copy is described by its sectors. -/
theorem describes_of_sectors {bytes array : Bytes} {here other sectors : ℕ}
    (hpos : 0 < s.sector) (hhere : (here + 1) * s.sector ≤ disk.sizeBytes)
    (harray : (header.arrayLba + sectors) * s.sector ≤ disk.sizeBytes)
    (hheader : headerOf crc32 bytes here other s.original.binding = .ok header)
    (hlength : array.length = sectors * s.sector) (hentries : header.count * 128 ≤ array.length)
    (hcrc : (crc32 (array.take (header.count * 128))).toNat = readD bytes 88)
    (hbytes : disk.sectors s.sector here = bytes)
    (hsectors : ∀ k < sectors, disk.sectors s.sector (header.arrayLba + k) =
      slice array (k * s.sector) s.sector) :
    Describes crc32 disk s here other
      ⟨header.first, header.last, array.take (header.count * 128)⟩ := by
  obtain ⟨-, hentry, -⟩ := readN_of_headerOf hheader
  have hcontents : disk.contents (header.arrayLba * s.sector) (sectors * s.sector) = array :=
    Disk.contents_eq_of_sectors hpos hlength hsectors
  refine ⟨bytes, header, ?_, hheader, rfl, rfl, ?_, hcrc⟩
  · rw [Disk.read_of_le (by rw [Nat.add_mul, Nat.one_mul] at hhere; exact hhere), ← hbytes]
    rfl
  · rw [hentry, Disk.read_of_le (by rw [Nat.add_mul] at harray; omega)]
    congr 1
    rw [← hcontents, Disk.take_contents (by omega)]

/-- The sectors of the disk that a snapshot was read from. -/
structure SectorsOf (s : Snapshot) (primary backup : Header) (sectors : ℕ → Bytes) : Prop where
  mbr : sectors 0 = s.mbr
  primaryHeader : sectors 1 = s.primaryHeader
  backupHeader : sectors s.diskLast = s.backupHeader
  primaryArray : ∀ k < arraySectors s primary, sectors (primary.arrayLba + k) =
    slice s.primaryArray (k * s.sector) s.sector
  backupArray : ∀ k < arraySectors s primary, sectors (backup.arrayLba + k) =
    slice s.backupArray (k * s.sector) s.sector

theorem contents_of_read {offset size : ℕ} {bytes : Bytes}
    (h : disk.read offset size = some bytes) : disk.contents offset size = bytes := by
  unfold Disk.read at h
  split at h
  · exact Option.some.inj h
  · cases h

theorem sectors_of_contents {lba count : ℕ} {array : Bytes}
    (h : disk.contents (lba * s.sector) array.length = array)
    (hlength : array.length = count * s.sector) {k : ℕ} (hk : k < count) :
    disk.sectors s.sector (lba + k) = slice array (k * s.sector) s.sector := by
  rw [hlength] at h
  rw [← Disk.take_drop_contents_sectors hk, h]
  rfl

theorem Holds.sectors (hdisk : Holds disk s) (h : Accepted crc32 s primary backup selected) :
    SectorsOf s primary backup (disk.sectors s.sector) := by
  obtain ⟨hprimary, -, -⟩ := readN_of_headerOf h.primaryHeader
  obtain ⟨hbackup, -, -⟩ := readN_of_headerOf h.backupHeader
  refine ⟨?_, ?_, ?_, ?_, ?_⟩
  · rw [← contents_of_read hdisk.mbr]
    show disk.contents (0 * s.sector) s.sector = _
    rw [Nat.zero_mul]
  · rw [← contents_of_read hdisk.primaryHeader]
    show disk.contents (1 * s.sector) s.sector = _
    rw [Nat.one_mul]
  · exact contents_of_read hdisk.backupHeader
  · intro k hk
    refine sectors_of_contents ?_ h.primaryArray_length hk
    rw [← hprimary]
    exact contents_of_read hdisk.primaryArray
  · intro k hk
    refine sectors_of_contents ?_ h.backupArray_length hk
    rw [← hbackup]
    exact contents_of_read hdisk.backupArray

end Sectors

/-! ## Between two disks -/

/-- The four sectors that a plan writes, with what it writes there. -/
structure Target (crc32 : Bytes → UInt32) (s : Snapshot) (primary backup : Header) (selected : ℕ)
    (plan : Plan) : Prop where
  accepted : Accepted crc32 s primary backup selected
  snapshot : plan.snapshot = s
  writes : plan.writes =
    [arrayWrite s s.backupArray backup.arrayLba selected,
      headerWrite crc32 s s.backupHeader s.backupArray s.diskLast primary.count selected,
      arrayWrite s s.primaryArray primary.arrayLba selected,
      headerWrite crc32 s s.primaryHeader s.primaryArray 1 primary.count selected]

theorem build_target {s : Snapshot} {plan : Plan} (h : build crc32 s = .ok plan)
    (hprofile : s.profile ≠ .containerWindow) :
    ∃ primary backup selected, Target crc32 s primary backup selected plan := by
  obtain ⟨primary, backup, selected, haccepted, hsnapshot, hwrites, hfour⟩ :=
    build_accepted h hprofile
  refine ⟨primary, backup, selected, haccepted, hsnapshot, ?_⟩
  rw [hwrites] at hfour ⊢
  exact haccepted.writes_eq hfour

/-- A disk that differs from the original in the written sectors only. -/
structure Around (plan : Plan) (disk current : Disk UInt8) : Prop where
  size : current.sizeBytes = disk.sizeBytes
  other : ∀ lba, (∀ w ∈ plan.writes, w.offset ≠ lba * plan.snapshot.sector) →
    current.sectors plan.snapshot.sector lba = disk.sectors plan.snapshot.sector lba

section Writes

variable {s : Snapshot} {primary backup : Header} {selected : ℕ} {plan : Plan}
  {disk current : Disk UInt8}

theorem Around.refl (plan : Plan) (disk : Disk UInt8) : Around plan disk disk :=
  ⟨rfl, fun _ _ => rfl⟩

/-- The sectors that the plan writes, in increasing order. -/
theorem Accepted.lba_lt (h : Accepted crc32 s primary backup selected) :
    1 < primary.arrayLba + changedSector s selected ∧
      primary.arrayLba + changedSector s selected < backup.arrayLba + changedSector s selected ∧
      backup.arrayLba + changedSector s selected < s.diskLast := by
  have h1 := h.changedSector_lt
  have h2 := h.primary_low
  have h3 := h.primary_high
  have h4 := h.usable
  have h5 := h.backup_low
  have h6 := h.backup_high
  omega

/-- A sector of an array that changes is as long as any. -/
theorem length_changed {array : Bytes} {count : ℕ} (hlength : array.length = count * s.sector)
    (hlt : changedSector s selected < count) :
    (slice array (changedSector s selected * s.sector) s.sector).length = s.sector := by
  refine length_slice_of_le ?_
  rw [hlength]
  calc changedSector s selected * s.sector + s.sector
      = (changedSector s selected + 1) * s.sector := by ring
    _ ≤ count * s.sector := Nat.mul_le_mul_right _ hlt

theorem Target.sector_pos (h : Target crc32 s primary backup selected plan) : 0 < s.sector :=
  h.accepted.sector_pos

/-- Every write of the plan replaces one whole sector of the disk. -/
theorem Target.write_sector (h : Target crc32 s primary backup selected plan) {w : Write}
    (hw : w ∈ plan.writes) :
    w.after.length = s.sector ∧ ∃ lba ≤ s.diskLast, w.offset = lba * s.sector := by
  have haccepted := h.accepted
  have hlt := haccepted.lba_lt
  have hsector : 92 ≤ s.sector := by
    have := haccepted.sector
    omega
  have hheader : ∀ {bytes here other header} {array : Bytes},
      headerOf crc32 bytes here other s.original.binding = .ok header →
      (headerChecksum crc32 bytes array (primary.count * 128)).length = s.sector := by
    intro bytes here other header array hok
    have hlength : bytes.length = s.sector := (readN_of_headerOf hok).2.2
    rw [(headerOf_headerChecksum (by omega) hok).2.2, hlength]
  rw [h.writes] at hw
  simp only [List.mem_cons, List.not_mem_nil, or_false] at hw
  rcases hw with rfl | rfl | rfl | rfl
  · refine ⟨?_, _, by omega, rfl⟩
    exact length_changed ((length_moveEnd haccepted.end_le_backup).trans haccepted.backupArray_length)
      haccepted.changedSector_lt
  · exact ⟨hheader haccepted.backupHeader, _, Nat.le_refl _, rfl⟩
  · refine ⟨?_, _, by omega, rfl⟩
    exact length_changed
      ((length_moveEnd haccepted.end_le_primary).trans haccepted.primaryArray_length)
      haccepted.changedSector_lt
  · exact ⟨hheader haccepted.primaryHeader, 1, by omega, rfl⟩

/-- Writing over one of the sectors stays between the two disks. -/
theorem Around.write (h : Around plan disk current)
    (htarget : Target crc32 s primary backup selected plan) {w : Write} (hw : w ∈ plan.writes)
    {bytes : Bytes} (hlength : bytes.length = s.sector) :
    Around plan disk (current.write w.offset bytes) := by
  obtain ⟨-, lba, -, hoffset⟩ := htarget.write_sector hw
  refine ⟨h.size, fun other hother => ?_⟩
  rw [← h.other other hother, htarget.snapshot, hoffset, Disk.sectors_write hlength,
    Function.update_of_ne]
  rintro rfl
  apply hother w hw
  rw [htarget.snapshot]
  exact hoffset

/-- The offsets of the plan are different. -/
theorem Target.offsets (h : Target crc32 s primary backup selected plan) :
    plan.writes.Pairwise fun v w => v.offset ≠ w.offset := by
  have hlt := h.accepted.lba_lt
  have hpos := h.sector_pos
  have hne : ∀ {a b : ℕ}, a ≠ b → a * s.sector ≠ b * s.sector :=
    fun hab heq => hab (Nat.eq_of_mul_eq_mul_right hpos heq)
  rw [h.writes]
  refine List.pairwise_cons.mpr ⟨?_, List.pairwise_cons.mpr ⟨?_, List.pairwise_cons.mpr ⟨?_,
    List.pairwise_singleton _ _⟩⟩⟩
  · simp only [List.forall_mem_cons]
    exact ⟨hne (by omega), hne (by omega), hne (by omega), by simp⟩
  · simp only [List.forall_mem_cons]
    exact ⟨hne (by omega), hne (by omega), by simp⟩
  · simp only [List.forall_mem_cons]
    exact ⟨hne (by omega), by simp⟩

/-- With different offsets, the write of an offset is found. -/
theorem find?_offset {writes : List Write} (h : writes.Pairwise fun v w => v.offset ≠ w.offset)
    {w : Write} (hw : w ∈ writes) : writes.find? (fun v => v.offset == w.offset) = some w := by
  induction writes with
  | nil => cases hw
  | cons v writes ih =>
    obtain ⟨hv, hwrites⟩ := List.pairwise_cons.mp h
    rcases List.mem_cons.mp hw with rfl | hw
    · rw [List.find?_cons_of_pos (by simp)]
    · rw [List.find?_cons_of_neg (by simpa using hv w hw)]
      exact ih hwrites hw

/-! ## Verify -/

/-- What `Verify` asks of the sector of a write while the plan is carried out (state 2) and
after it (state 3). -/
def Settled (crc32 : Bytes → UInt32) (state : ℕ) (w : Write) (block : Bytes) : Prop :=
  if state = 3 then block = w.after
  else block = w.before ∨ block = w.after ∨ validHeader crc32 block = false

theorem checkSector_of_write {state lba : ℕ} {before block : Bytes} {w : Write}
    (hstate : state = 2 ∨ state = 3) (hfind : plan.writes.find? (fun v => v.offset == lba) = some w) :
    checkSector crc32 plan state lba before block = .ok () ↔ Settled crc32 state w block := by
  unfold checkSector Settled
  rw [hfind]
  dsimp only
  rw [if_neg (by omega)]
  split
  · exact need_eq_ok
  · exact need_eq_ok

theorem forM_eq_ok {α : Type} {xs : List α} {f : α → Except String PUnit} :
    xs.forM f = .ok () ↔ ∀ x ∈ xs, f x = .ok () := by
  induction xs with
  | nil => exact ⟨fun _ x hx => (nomatch hx), fun _ => rfl⟩
  | cons x xs ih =>
    show (f x >>= fun _ => xs.forM f) = .ok () ↔ _
    rw [bind_eq_ok, List.forall_mem_cons, ← ih]
    constructor
    · rintro ⟨u, hx, hxs⟩
      exact ⟨hx, hxs⟩
    · rintro ⟨hx, hxs⟩
      exact ⟨(), hx, hxs⟩

/-- A range of whole sectors is compared sector by sector. -/
theorem checkRange_eq_ok {state lba count : ℕ} {before : Bytes} (hpos : 0 < plan.snapshot.sector)
    (hlength : before.length = count * plan.snapshot.sector)
    (hend : (lba + count) * plan.snapshot.sector ≤ current.sizeBytes) :
    checkRange crc32 current plan state (lba * plan.snapshot.sector) before = .ok () ↔
      ∀ k < count, checkSector crc32 plan state ((lba + k) * plan.snapshot.sector)
        (slice before (k * plan.snapshot.sector) plan.snapshot.sector)
        (current.sectors plan.snapshot.sector (lba + k)) = .ok () := by
  rw [Nat.add_mul] at hend
  unfold checkRange
  rw [Disk.read_of_le (by omega)]
  dsimp only
  rw [forM_eq_ok, hlength, Nat.mul_div_cancel _ hpos]
  constructor
  · intro h k hk
    have hsector := h k (List.mem_range.mpr hk)
    rw [← Nat.add_mul] at hsector
    rw [← Disk.take_drop_contents_sectors hk]
    exact hsector
  · intro h k hk
    have hk := List.mem_range.mp hk
    have hsector := h k hk
    rw [← Disk.take_drop_contents_sectors hk, Nat.add_mul] at hsector
    exact hsector

/-- A region of the snapshot passes when its written sectors do. -/
theorem Target.checkRange (h : Target crc32 s primary backup selected plan)
    (haround : Around plan disk current) {state lba count : ℕ} (hstate : state = 2 ∨ state = 3)
    {before : Bytes} (hlength : before.length = count * s.sector)
    (hend : (lba + count) * s.sector ≤ current.sizeBytes)
    (hbefore : ∀ k < count, disk.sectors s.sector (lba + k) = slice before (k * s.sector) s.sector)
    (hsettled : ∀ w ∈ plan.writes, ∀ lba, w.offset = lba * s.sector →
      Settled crc32 state w (current.sectors s.sector lba)) :
    checkRange crc32 current plan state (lba * s.sector) before = .ok () := by
  have hsnapshot := h.snapshot
  have hiff := @checkRange_eq_ok crc32 plan current state lba count before
  rw [hsnapshot] at hiff
  rw [hiff h.sector_pos hlength hend]
  intro k hk
  cases hfind : plan.writes.find? (fun v => v.offset == (lba + k) * s.sector) with
  | some w =>
    rw [checkSector_of_write hstate hfind]
    have hoffset := List.find?_some hfind
    exact hsettled w (List.mem_of_find?_eq_some hfind) (lba + k) (by simpa using hoffset)
  | none =>
    -- no write at this sector: it is the original's
    have hnone := List.find?_eq_none.mp hfind
    have hother := haround.other (lba + k) (by
      intro w hw
      rw [hsnapshot]
      simpa using hnone w hw)
    rw [hsnapshot] at hother
    unfold checkSector
    rw [hfind]
    dsimp only
    rw [need_eq_ok, hother]
    exact hbefore k hk

/-- The regions lie on the disk. -/
theorem Target.regions (h : Target crc32 s primary backup selected plan) :
    (0 + 1) * s.sector ≤ s.media.diskSizeBytes ∧ (1 + 1) * s.sector ≤ s.media.diskSizeBytes ∧
      (s.diskLast + 1) * s.sector ≤ s.media.diskSizeBytes ∧
      (primary.arrayLba + arraySectors s primary) * s.sector ≤ s.media.diskSizeBytes ∧
      (backup.arrayLba + arraySectors s primary) * s.sector ≤ s.media.diskSizeBytes := by
  have hlt := h.accepted.lba_lt
  have h2 := h.accepted.primary_high
  have h3 := h.accepted.usable
  have h4 := h.accepted.backup_low
  have h5 := h.accepted.backup_high
  rw [h.accepted.size]
  exact ⟨Nat.mul_le_mul_right _ (by omega), Nat.mul_le_mul_right _ (by omega),
    Nat.mul_le_mul_right _ (by omega), Nat.mul_le_mul_right _ (by omega),
    Nat.mul_le_mul_right _ (by omega)⟩

/-- The five comparisons of `Verify`. -/
theorem Target.verify_iff (h : Target crc32 s primary backup selected plan) {state : ℕ}
    (hstate : state = 2 ∨ state = 3) (hsize : current.sizeBytes = s.media.diskSizeBytes) :
    verify crc32 current plan state = .ok () ↔
      Geometry.checkRange crc32 current plan state (0 * s.sector) s.mbr = .ok () ∧
      Geometry.checkRange crc32 current plan state (1 * s.sector) s.primaryHeader = .ok () ∧
      Geometry.checkRange crc32 current plan state (s.diskLast * s.sector) s.backupHeader = .ok () ∧
      Geometry.checkRange crc32 current plan state (primary.arrayLba * s.sector) s.primaryArray =
        .ok () ∧
      Geometry.checkRange crc32 current plan state (backup.arrayLba * s.sector) s.backupArray =
        .ok () := by
  obtain ⟨hprimary, -, -⟩ := readN_of_headerOf h.accepted.primaryHeader
  obtain ⟨hbackup, -, -⟩ := readN_of_headerOf h.accepted.backupHeader
  unfold verify
  dsimp only
  rw [h.snapshot, hprimary, hbackup, Nat.zero_mul, Nat.one_mul, need_bind_eq_ok, bind_eq_ok]
  constructor
  · rintro ⟨-, u, h1, h⟩
    rw [bind_eq_ok] at h
    obtain ⟨u, h2, h⟩ := h
    rw [bind_eq_ok] at h
    obtain ⟨u, h3, h⟩ := h
    rw [bind_eq_ok] at h
    obtain ⟨u, h4, h5⟩ := h
    exact ⟨h1, h2, h3, h4, h5⟩
  · rintro ⟨h1, h2, h3, h4, h5⟩
    refine ⟨⟨hsize, by omega⟩, (), h1, ?_⟩
    rw [bind_eq_ok]
    refine ⟨(), h2, ?_⟩
    rw [bind_eq_ok]
    refine ⟨(), h3, ?_⟩
    rw [bind_eq_ok]
    exact ⟨(), h4, h5⟩

/-- The five regions of the snapshot in the original's sectors. -/
theorem Target.verify_of_settled (h : Target crc32 s primary backup selected plan)
    (hdisk : Holds disk s) (haround : Around plan disk current) {state : ℕ}
    (hstate : state = 2 ∨ state = 3)
    (hsettled : ∀ w ∈ plan.writes, ∀ lba, w.offset = lba * s.sector →
      Settled crc32 state w (current.sectors s.sector lba)) :
    verify crc32 current plan state = .ok () := by
  have hsectors := hdisk.sectors h.accepted
  have hsize : current.sizeBytes = s.media.diskSizeBytes := haround.size.trans hdisk.size
  obtain ⟨h1, h2, h3, h4, h5⟩ := h.regions
  rw [← hsize] at h1 h2 h3 h4 h5
  -- a region of one sector
  have hone : ∀ {lba : ℕ} {bytes : Bytes}, bytes.length = s.sector →
      disk.sectors s.sector lba = bytes → ∀ k < 1,
      disk.sectors s.sector (lba + k) = slice bytes (k * s.sector) s.sector := by
    intro lba bytes hlength hbytes k hk
    obtain rfl : k = 0 := by omega
    rw [Nat.add_zero, Nat.zero_mul, hbytes, ← hlength, slice_zero_length]
  have hprimary : s.primaryHeader.length = s.sector :=
    (readN_of_headerOf h.accepted.primaryHeader).2.2
  have hbackup : s.backupHeader.length = s.sector :=
    (readN_of_headerOf h.accepted.backupHeader).2.2
  rw [h.verify_iff hstate hsize]
  exact ⟨h.checkRange haround hstate (by rw [Nat.one_mul, h.accepted.mbr_length]) h1
      (hone h.accepted.mbr_length hsectors.mbr) hsettled,
    h.checkRange haround hstate (by rw [Nat.one_mul, hprimary]) h2
      (hone hprimary hsectors.primaryHeader) hsettled,
    h.checkRange haround hstate (by rw [Nat.one_mul, hbackup]) h3
      (hone hbackup hsectors.backupHeader) hsettled,
    h.checkRange haround hstate h.accepted.primaryArray_length h4 hsectors.primaryArray hsettled,
    h.checkRange haround hstate h.accepted.backupArray_length h5 hsectors.backupArray hsettled⟩

/-- Every written sector is among those that `Verify` compares. -/
theorem Target.settled_of_verify (h : Target crc32 s primary backup selected plan)
    (hsize : current.sizeBytes = s.media.diskSizeBytes) {state : ℕ}
    (hstate : state = 2 ∨ state = 3) (hverify : verify crc32 current plan state = .ok ())
    {w : Write} (hw : w ∈ plan.writes) {lba : ℕ} (hlba : w.offset = lba * s.sector) :
    Settled crc32 state w (current.sectors s.sector lba) := by
  rw [h.verify_iff hstate hsize] at hverify
  obtain ⟨-, hprimaryHeader, hbackupHeader, hprimaryArray, hbackupArray⟩ := hverify
  obtain ⟨-, h2, h3, h4, h5⟩ := h.regions
  rw [← hsize] at h2 h3 h4 h5
  have hfind := find?_offset h.offsets hw
  rw [hlba] at hfind
  -- the sector `k` of a region that passes is settled when it is the write's
  have hregion : ∀ {start count k : ℕ} {before : Bytes}, before.length = count * s.sector →
      (start + count) * s.sector ≤ current.sizeBytes →
      Geometry.checkRange crc32 current plan state (start * s.sector) before = .ok () →
      k < count → lba = start + k → Settled crc32 state w (current.sectors s.sector lba) := by
    intro start count k before hlength hend hcheck hk hstart
    have hiff := @checkRange_eq_ok crc32 plan current state start count before
    rw [h.snapshot] at hiff
    have hsector := (hiff h.sector_pos hlength hend).mp hcheck k hk
    rw [← hstart] at hsector
    exact (checkSector_of_write hstate hfind).mp hsector
  have hprimary : s.primaryHeader.length = 1 * s.sector := by
    rw [Nat.one_mul]
    exact (readN_of_headerOf h.accepted.primaryHeader).2.2
  have hbackup : s.backupHeader.length = 1 * s.sector := by
    rw [Nat.one_mul]
    exact (readN_of_headerOf h.accepted.backupHeader).2.2
  have hcancel : ∀ {a : ℕ}, a * s.sector = lba * s.sector → lba = a :=
    fun heq => (Nat.eq_of_mul_eq_mul_right h.sector_pos heq).symm
  rw [h.writes] at hw
  simp only [List.mem_cons, List.not_mem_nil, or_false] at hw
  rcases hw with rfl | rfl | rfl | rfl
  · exact hregion h.accepted.backupArray_length h5 hbackupArray h.accepted.changedSector_lt
      (hcancel hlba)
  · exact hregion hbackup h3 hbackupHeader Nat.one_pos (hcancel hlba)
  · exact hregion h.accepted.primaryArray_length h4 hprimaryArray h.accepted.changedSector_lt
      (hcancel hlba)
  · exact hregion hprimary h2 hprimaryHeader Nat.one_pos (hcancel hlba)

/-! ## Publish -/

/-- The disk after whole writes. -/
def applyWrites (disk : Disk UInt8) (writes : List Write) : Disk UInt8 :=
  writes.foldl (fun disk w => disk.write w.offset w.after) disk

/-- What the sector of the write in progress is left with. -/
def Course.torn (course : Course) (size : ℕ) : Bytes := (List.range size).map course.content

/-- A write that fits on the disk is made and read back. -/
theorem publishLoop_cons {w : Write} {writes : List Write} {course : Option Course}
    (hcourse : ∀ c, course = some c → c.completed ≠ 0)
    (hfits : w.offset + w.after.length ≤ disk.sizeBytes) :
    publishLoop crc32 plan (w :: writes) disk course =
      publishLoop crc32 plan writes (disk.write w.offset w.after)
        (course.map fun c => { c with completed := c.completed - 1 }) := by
  have hread : (disk.write w.offset w.after).read w.offset w.after.length = some w.after := by
    rw [Disk.read_of_le (by rwa [Disk.sizeBytes_write]), Disk.contents_write_self]
  cases course with
  | none =>
    rw [publishLoop]
    · rw [hread]
      dsimp only
      rw [if_pos rfl]
    · intro stop content hnone
      cases hnone
  | some c =>
    obtain ⟨completed, stop, content⟩ := c
    have hne := hcourse _ rfl
    rw [publishLoop]
    · rw [hread]
      dsimp only
      rw [if_pos rfl]
    · intro stop' content' heq
      cases heq
      exact hne rfl

/-- **A stopped run** leaves the completed writes and a torn sector. -/
theorem publishLoop_stopped {writes rest : List Write} {w : Write} {course : Course}
    (hcompleted : course.completed = writes.length)
    (hfits : ∀ v ∈ writes, v.offset + v.after.length ≤ disk.sizeBytes) :
    publishLoop crc32 plan (writes ++ w :: rest) disk (some course) =
      .stopped course.stop.error
        ((applyWrites disk writes).write w.offset (course.torn w.after.length)) := by
  induction writes generalizing disk course with
  | nil =>
    obtain ⟨completed, stop, content⟩ := course
    obtain rfl : completed = 0 := hcompleted
    rfl
  | cons v writes ih =>
    obtain ⟨hv, hwrites⟩ := List.forall_mem_cons.mp hfits
    rw [List.length_cons] at hcompleted
    rw [List.cons_append, publishLoop_cons (by
      intro c hc
      cases hc
      omega) hv, Option.map_some]
    exact ih (show course.completed - 1 = writes.length by omega) hwrites

/-- A run that is stopped after the last write. -/
theorem publishLoop_stopped_last {writes : List Write} {course : Course}
    (hcompleted : course.completed = writes.length)
    (hfits : ∀ v ∈ writes, v.offset + v.after.length ≤ disk.sizeBytes) :
    publishLoop crc32 plan writes disk (some course) =
      .stopped course.stop.error (applyWrites disk writes) := by
  induction writes generalizing disk course with
  | nil =>
    obtain ⟨completed, stop, content⟩ := course
    obtain rfl : completed = 0 := hcompleted
    rfl
  | cons v writes ih =>
    obtain ⟨hv, hwrites⟩ := List.forall_mem_cons.mp hfits
    rw [List.length_cons] at hcompleted
    rw [publishLoop_cons (by
      intro c hc
      cases hc
      omega) hv, Option.map_some]
    exact ih (show course.completed - 1 = writes.length by omega) hwrites

/-- **A run that nothing stops** makes every write and verifies the result. -/
theorem publishLoop_none {writes : List Write}
    (hfits : ∀ v ∈ writes, v.offset + v.after.length ≤ disk.sizeBytes) :
    publishLoop crc32 plan writes disk none =
      match verify crc32 (applyWrites disk writes) plan 3 with
      | .error error => .refused error (applyWrites disk writes)
      | .ok () => .published (applyWrites disk writes) := by
  induction writes generalizing disk with
  | nil => rfl
  | cons v writes ih =>
    obtain ⟨hv, hwrites⟩ := List.forall_mem_cons.mp hfits
    rw [publishLoop_cons (fun c hc => by cases hc) hv, Option.map_none]
    exact ih hwrites

theorem Target.fits (h : Target crc32 s primary backup selected plan)
    (hsize : current.sizeBytes = s.media.diskSizeBytes) :
    ∀ w ∈ plan.writes, w.offset + w.after.length ≤ current.sizeBytes := by
  intro w hw
  obtain ⟨hlength, lba, hlba, hoffset⟩ := h.write_sector hw
  rw [hlength, hoffset, hsize, h.accepted.size]
  calc lba * s.sector + s.sector = (lba + 1) * s.sector := by ring
    _ ≤ (s.diskLast + 1) * s.sector := Nat.mul_le_mul_right _ (by omega)

theorem Around.applyWrites (h : Around plan disk current)
    (htarget : Target crc32 s primary backup selected plan) {writes : List Write}
    (hsub : writes ⊆ plan.writes) : Around plan disk (applyWrites current writes) := by
  induction writes generalizing current with
  | nil => exact h
  | cons w writes ih =>
    have hw : w ∈ plan.writes := hsub (List.mem_cons_self ..)
    exact ih (h.write htarget hw (htarget.write_sector hw).1)
      fun v hv => hsub (List.mem_cons_of_mem w hv)

/-- Whole writes leave the other sectors. -/
theorem sectors_applyWrites_of_ne {sector lba : ℕ} {writes : List Write}
    (hwhole : ∀ w ∈ writes, w.after.length = sector ∧ ∃ lba, w.offset = lba * sector)
    (hne : ∀ w ∈ writes, w.offset ≠ lba * sector) :
    (applyWrites current writes).sectors sector lba = current.sectors sector lba := by
  induction writes generalizing current with
  | nil => rfl
  | cons w writes ih =>
    obtain ⟨⟨hlength, lba', hoffset⟩, hwhole⟩ := List.forall_mem_cons.mp hwhole
    obtain ⟨hw, hne⟩ := List.forall_mem_cons.mp hne
    show (applyWrites (current.write w.offset w.after) writes).sectors sector lba = _
    rw [ih hwhole hne, hoffset, Disk.sectors_write hlength, Function.update_of_ne]
    rintro rfl
    exact hw hoffset

/-- Whole writes at different offsets are all there. -/
theorem sectors_applyWrites_of_mem {sector lba : ℕ} {writes : List Write}
    (hwhole : ∀ w ∈ writes, w.after.length = sector ∧ ∃ lba, w.offset = lba * sector)
    (hoffsets : writes.Pairwise fun v w => v.offset ≠ w.offset) {w : Write} (hw : w ∈ writes)
    (hlba : w.offset = lba * sector) :
    (applyWrites current writes).sectors sector lba = w.after := by
  induction writes generalizing current with
  | nil => cases hw
  | cons v writes ih =>
    obtain ⟨⟨hlength, -⟩, hrest⟩ := List.forall_mem_cons.mp hwhole
    obtain ⟨hv, hlater⟩ := List.pairwise_cons.mp hoffsets
    show (applyWrites (current.write v.offset v.after) writes).sectors sector lba = _
    rcases List.mem_cons.mp hw with rfl | hw
    · rw [sectors_applyWrites_of_ne hrest (fun u hu heq => hv u hu (hlba.trans heq.symm)), hlba,
        Disk.sectors_write hlength, Function.update_self]
    · exact ih hrest hlater hw

theorem Target.whole (h : Target crc32 s primary backup selected plan) :
    ∀ w ∈ plan.writes, w.after.length = s.sector ∧ ∃ lba, w.offset = lba * s.sector := by
  intro w hw
  obtain ⟨hlength, lba, -, hoffset⟩ := h.write_sector hw
  exact ⟨hlength, lba, hoffset⟩

/-- **A complete run** from any disk around the original succeeds exactly when no written
sector holds a foreign valid header, and then every write is there. -/
theorem Target.publish_none (h : Target crc32 s primary backup selected plan)
    (hdisk : Holds disk s) (haround : Around plan disk current) :
    ((∃ final, publish crc32 plan current none = .published final) ↔
      ∀ w ∈ plan.writes, ∀ lba, w.offset = lba * s.sector →
        Settled crc32 2 w (current.sectors s.sector lba)) ∧
    ∀ final, publish crc32 plan current none = .published final →
      final = applyWrites current plan.writes := by
  have hsize : current.sizeBytes = s.media.diskSizeBytes := haround.size.trans hdisk.size
  have hfinal : verify crc32 (applyWrites current plan.writes) plan 3 = .ok () := by
    refine h.verify_of_settled hdisk (haround.applyWrites h (List.Subset.refl _)) (.inr rfl) ?_
    intro w hw lba hlba
    unfold Settled
    rw [if_pos rfl]
    exact sectors_applyWrites_of_mem h.whole h.offsets hw hlba
  have hloop : publishLoop crc32 plan plan.writes current none =
      .published (applyWrites current plan.writes) := by
    rw [publishLoop_none (h.fits hsize), hfinal]
  cases hverify : verify crc32 current plan 2 with
  | error e =>
    have hrefused : publish crc32 plan current none = .refused e current := by
      unfold publish
      rw [hverify]
    rw [hrefused]
    refine ⟨⟨fun ⟨final, hpublished⟩ => (nomatch hpublished), fun hsettled => ?_⟩,
      fun final hpublished => (nomatch hpublished)⟩
    rw [h.verify_of_settled hdisk haround (.inl rfl) hsettled] at hverify
    cases hverify
  | ok u =>
    have hpublished : publish crc32 plan current none =
        .published (applyWrites current plan.writes) := by
      unfold publish
      rw [hverify]
      exact hloop
    rw [hpublished]
    refine ⟨⟨fun _ w hw lba hlba => h.settled_of_verify hsize (.inl rfl) hverify hw hlba,
      fun _ => ⟨_, rfl⟩⟩, fun final heq => (Outcome.published.inj heq).symm⟩

/-! ## The two copies -/

/-- The sectors of the primary array that are not written. -/
theorem Target.primary_other (h : Target crc32 s primary backup selected plan) {k : ℕ}
    (hk : k < arraySectors s primary) (hne : k ≠ changedSector s selected) :
    ∀ w ∈ plan.writes, w.offset ≠ (primary.arrayLba + k) * s.sector := by
  have h1 := h.accepted.lba_lt
  have h2 := h.accepted.primary_low
  have h3 := h.accepted.primary_high
  have h4 := h.accepted.usable
  have h5 := h.accepted.backup_low
  have hlba : ∀ {a b : ℕ}, a ≠ b → a * s.sector ≠ b * s.sector :=
    fun hab heq => hab (Nat.eq_of_mul_eq_mul_right h.sector_pos heq)
  rw [h.writes]
  simp only [List.forall_mem_cons]
  exact ⟨hlba (by omega), hlba (by omega), hlba (by omega), hlba (by omega), by simp⟩

/-- The sectors of the backup array that are not written. -/
theorem Target.backup_other (h : Target crc32 s primary backup selected plan) {k : ℕ}
    (hk : k < arraySectors s primary) (hne : k ≠ changedSector s selected) :
    ∀ w ∈ plan.writes, w.offset ≠ (backup.arrayLba + k) * s.sector := by
  have h1 := h.accepted.lba_lt
  have h2 := h.accepted.primary_low
  have h3 := h.accepted.primary_high
  have h4 := h.accepted.usable
  have h5 := h.accepted.backup_low
  have h6 := h.accepted.backup_high
  have h7 := h.accepted.changedSector_lt
  have hlba : ∀ {a b : ℕ}, a ≠ b → a * s.sector ≠ b * s.sector :=
    fun hab heq => hab (Nat.eq_of_mul_eq_mul_right h.sector_pos heq)
  rw [h.writes]
  simp only [List.forall_mem_cons]
  exact ⟨hlba (by omega), hlba (by omega), hlba (by omega), hlba (by omega), by simp⟩

/-- The old table. -/
def oldTable (s : Snapshot) (primary : Header) : Table :=
  ⟨primary.first, primary.last, s.primaryArray.take (primary.count * 128)⟩

theorem Accepted.take_moveEnd (h : Accepted crc32 s primary backup selected) {array : Bytes}
    (hlength : array.length = arraySectors s primary * s.sector) :
    (moveEnd array selected s.newLast).take (primary.count * 128) =
      moveEnd (array.take (primary.count * 128)) selected s.newLast := by
  have h1 := h.selected_lt
  have h2 := h.entries_le
  exact (splice_take (by rw [length_leBytes]; omega) (by omega)).symm

/-- The primary copy, from what its two changing sectors hold. -/
theorem Target.describes_primary (h : Target crc32 s primary backup selected plan)
    (hdisk : Holds disk s) (haround : Around plan disk current) {bytes array : Bytes}
    (hheader : headerOf crc32 bytes 1 s.diskLast s.original.binding = .ok primary)
    (hcrc : (crc32 (array.take (primary.count * 128))).toNat = readD bytes 88)
    (hlength : array.length = s.primaryArray.length)
    (hsame : ∀ k, k ≠ changedSector s selected →
      slice array (k * s.sector) s.sector = slice s.primaryArray (k * s.sector) s.sector)
    (hbytes : current.sectors s.sector 1 = bytes)
    (hchanged : current.sectors s.sector (primary.arrayLba + changedSector s selected) =
      slice array (changedSector s selected * s.sector) s.sector) :
    Describes crc32 current s 1 s.diskLast
      ⟨primary.first, primary.last, array.take (primary.count * 128)⟩ := by
  obtain ⟨-, h2, -, h4, -⟩ := h.regions
  have hsize : current.sizeBytes = s.media.diskSizeBytes := haround.size.trans hdisk.size
  rw [← hsize] at h2 h4
  refine describes_of_sectors h.sector_pos h2 h4 hheader
    (hlength.trans h.accepted.primaryArray_length)
    (by rw [hlength, h.accepted.primaryArray_length]; exact h.accepted.entries_le) hcrc hbytes ?_
  intro k hk
  by_cases hne : k = changedSector s selected
  · rw [hne, hchanged]
  · have hother := haround.other (primary.arrayLba + k) (by
      rw [h.snapshot]
      exact h.primary_other hk hne)
    rw [h.snapshot] at hother
    rw [hother, (hdisk.sectors h.accepted).primaryArray k hk, hsame k hne]

/-- The backup copy, from what its two changing sectors hold. -/
theorem Target.describes_backup (h : Target crc32 s primary backup selected plan)
    (hdisk : Holds disk s) (haround : Around plan disk current) {bytes array : Bytes}
    (hheader : headerOf crc32 bytes s.diskLast 1 s.original.binding = .ok backup)
    (hcrc : (crc32 (array.take (primary.count * 128))).toNat = readD bytes 88)
    (hlength : array.length = s.backupArray.length)
    (hsame : ∀ k, k ≠ changedSector s selected →
      slice array (k * s.sector) s.sector = slice s.backupArray (k * s.sector) s.sector)
    (hbytes : current.sectors s.sector s.diskLast = bytes)
    (hchanged : current.sectors s.sector (backup.arrayLba + changedSector s selected) =
      slice array (changedSector s selected * s.sector) s.sector) :
    Describes crc32 current s s.diskLast 1
      ⟨primary.first, primary.last, array.take (primary.count * 128)⟩ := by
  obtain ⟨-, -, h3, -, h5⟩ := h.regions
  have hsize : current.sizeBytes = s.media.diskSizeBytes := haround.size.trans hdisk.size
  rw [← hsize] at h3 h5
  rw [← h.accepted.first_eq, ← h.accepted.last_eq]
  rw [← h.accepted.count_eq] at hcrc ⊢
  refine describes_of_sectors h.sector_pos h3 h5 hheader
    (hlength.trans h.accepted.backupArray_length)
    (by rw [hlength, h.accepted.backupArray_length, h.accepted.count_eq]
        exact h.accepted.entries_le) hcrc hbytes ?_
  intro k hk
  by_cases hne : k = changedSector s selected
  · rw [hne, hchanged]
  · have hother := haround.other (backup.arrayLba + k) (by
      rw [h.snapshot]
      exact h.backup_other hk hne)
    rw [h.snapshot] at hother
    rw [hother, (hdisk.sectors h.accepted).backupArray k hk, hsame k hne]

/-- The original holds what the plan expects there. -/
theorem Target.sectors_before (h : Target crc32 s primary backup selected plan)
    (hdisk : Holds disk s) {w : Write} (hw : w ∈ plan.writes) {lba : ℕ}
    (hlba : w.offset = lba * s.sector) : disk.sectors s.sector lba = w.before := by
  have hsectors := hdisk.sectors h.accepted
  have hcancel : ∀ {a : ℕ}, a * s.sector = lba * s.sector → lba = a :=
    fun heq => (Nat.eq_of_mul_eq_mul_right h.sector_pos heq).symm
  rw [h.writes] at hw
  simp only [List.mem_cons, List.not_mem_nil, or_false] at hw
  rcases hw with rfl | rfl | rfl | rfl
  · rw [hcancel hlba]
    exact hsectors.backupArray _ h.accepted.changedSector_lt
  · rw [hcancel hlba]
    exact hsectors.backupHeader
  · rw [hcancel hlba]
    exact hsectors.primaryArray _ h.accepted.changedSector_lt
  · rw [hcancel hlba]
    exact hsectors.primaryHeader

/-- The new table. -/
def newTable (s : Snapshot) (primary : Header) (selected : ℕ) : Table :=
  (oldTable s primary).moveEnd selected s.newLast

theorem Target.old_primary (h : Target crc32 s primary backup selected plan)
    (hdisk : Holds disk s) (haround : Around plan disk current)
    (hheader : current.sectors s.sector 1 = s.primaryHeader)
    (hchanged : current.sectors s.sector (primary.arrayLba + changedSector s selected) =
      slice s.primaryArray (changedSector s selected * s.sector) s.sector) :
    Describes crc32 current s 1 s.diskLast (oldTable s primary) :=
  h.describes_primary hdisk haround h.accepted.primaryHeader h.accepted.primaryArray_crc rfl
    (fun _ _ => rfl) hheader hchanged

theorem Target.old_backup (h : Target crc32 s primary backup selected plan)
    (hdisk : Holds disk s) (haround : Around plan disk current)
    (hheader : current.sectors s.sector s.diskLast = s.backupHeader)
    (hchanged : current.sectors s.sector (backup.arrayLba + changedSector s selected) =
      slice s.backupArray (changedSector s selected * s.sector) s.sector) :
    Describes crc32 current s s.diskLast 1 (oldTable s primary) := by
  unfold oldTable
  rw [h.accepted.arrays_eq]
  exact h.describes_backup hdisk haround h.accepted.backupHeader h.accepted.backupArray_crc rfl
    (fun _ _ => rfl) hheader hchanged

theorem Accepted.header_size (h : Accepted crc32 s primary backup selected) :
    92 ≤ s.primaryHeader.length ∧ 92 ≤ s.backupHeader.length := by
  have hprimary : s.primaryHeader.length = s.sector := (readN_of_headerOf h.primaryHeader).2.2
  have hbackup : s.backupHeader.length = s.sector := (readN_of_headerOf h.backupHeader).2.2
  have := h.sector
  omega

theorem Target.new_primary (h : Target crc32 s primary backup selected plan)
    (hdisk : Holds disk s) (haround : Around plan disk current)
    (hheader : current.sectors s.sector 1 =
      headerChecksum crc32 s.primaryHeader (moveEnd s.primaryArray selected s.newLast)
        (primary.count * 128))
    (hchanged : current.sectors s.sector (primary.arrayLba + changedSector s selected) =
      slice (moveEnd s.primaryArray selected s.newLast) (changedSector s selected * s.sector)
        s.sector) :
    Describes crc32 current s 1 s.diskLast (newTable s primary selected) := by
  obtain ⟨hok, hcrc, -⟩ := headerOf_headerChecksum h.accepted.header_size.1
    h.accepted.primaryHeader
  have hdescribes := h.describes_primary hdisk haround hok hcrc.symm
    (length_moveEnd h.accepted.end_le_primary)
    (fun k hk => slice_moveEnd_of_ne h.accepted.sector h.accepted.end_le_primary hk) hheader hchanged
  rw [h.accepted.take_moveEnd h.accepted.primaryArray_length] at hdescribes
  exact hdescribes

theorem Target.new_backup (h : Target crc32 s primary backup selected plan)
    (hdisk : Holds disk s) (haround : Around plan disk current)
    (hheader : current.sectors s.sector s.diskLast =
      headerChecksum crc32 s.backupHeader (moveEnd s.backupArray selected s.newLast)
        (primary.count * 128))
    (hchanged : current.sectors s.sector (backup.arrayLba + changedSector s selected) =
      slice (moveEnd s.backupArray selected s.newLast) (changedSector s selected * s.sector)
        s.sector) :
    Describes crc32 current s s.diskLast 1 (newTable s primary selected) := by
  obtain ⟨hok, hcrc, -⟩ := headerOf_headerChecksum h.accepted.header_size.2
    h.accepted.backupHeader
  have hdescribes := h.describes_backup hdisk haround hok hcrc.symm
    (length_moveEnd h.accepted.end_le_backup)
    (fun k hk => slice_moveEnd_of_ne h.accepted.sector h.accepted.end_le_backup hk) hheader hchanged
  rw [h.accepted.take_moveEnd h.accepted.backupArray_length, ← h.accepted.arrays_eq] at hdescribes
  exact hdescribes

/-- The new table is well formed. -/
theorem Accepted.wellFormed (h : Accepted crc32 s primary backup selected) :
    (newTable s primary selected).WellFormed := by
  have hle := h.entries_le
  have hlt := h.selected_lt
  have hentries : (newTable s primary selected).entries =
      (moveEnd s.primaryArray selected s.newLast).take (primary.count * 128) :=
    (h.take_moveEnd h.primaryArray_length).symm
  have hlength : (moveEnd s.primaryArray selected s.newLast).length = s.primaryArray.length :=
    length_moveEnd h.end_le_primary
  have hcount : (newTable s primary selected).count = primary.count := by
    unfold Table.count
    rw [hentries, List.length_take, hlength, h.primaryArray_length,
      Nat.min_eq_left hle, Nat.mul_div_cancel _ (by norm_num)]
  -- an entry of the table is an entry of the array
  have hentry : ∀ i < primary.count, entryOf (newTable s primary selected).entries i =
      entryOf (moveEnd s.primaryArray selected s.newLast) i := by
    intro i hi
    rw [hentries]
    unfold entryOf slice
    rw [List.drop_take, List.take_take, Nat.min_eq_left (by omega)]
  have hfields : ∀ i < primary.count,
      (used (newTable s primary selected).entries i →
        used (moveEnd s.primaryArray selected s.newLast) i) ∧
      firstOf (newTable s primary selected).entries i =
        firstOf (moveEnd s.primaryArray selected s.newLast) i ∧
      lastOf (newTable s primary selected).entries i =
        lastOf (moveEnd s.primaryArray selected s.newLast) i := by
    intro i hi
    unfold used firstOf lastOf
    rw [hentry i hi]
    exact ⟨id, rfl, rfl⟩
  refine ⟨fun i hi hused => ?_, fun i hi j hj hne hui huj => ?_⟩
  · rw [hcount] at hi
    obtain ⟨hu, hfirst, hlast⟩ := hfields i hi
    rw [hfirst, hlast]
    exact h.inside hi (hu hused)
  · rw [hcount] at hi hj
    obtain ⟨hui', hfirst, hlast⟩ := hfields i hi
    obtain ⟨huj', hfirst', hlast'⟩ := hfields j hj
    rw [hfirst, hlast, hfirst', hlast']
    exact h.apart hi hj hne (hui' hui) (huj' huj)

/-! ## Stopped runs -/

theorem Target.publish_eq_loop (h : Target crc32 s primary backup selected plan)
    (hdisk : Holds disk s) (course : Option Course) :
    publish crc32 plan disk course = publishLoop crc32 plan plan.writes disk course := by
  have hverify : verify crc32 disk plan 2 = .ok () := by
    refine h.verify_of_settled hdisk (Around.refl plan disk) (.inl rfl) fun w hw lba hlba => ?_
    unfold Settled
    rw [if_neg (by norm_num)]
    exact .inl (h.sectors_before hdisk hw hlba)
  unfold publish
  rw [hverify]

/-- **A run stopped in a write.** -/
theorem Target.publish_stopped (h : Target crc32 s primary backup selected plan)
    (hdisk : Holds disk s) (before after : List Write) (w : Write)
    (hsplit : plan.writes = before ++ w :: after) {course : Course}
    (hcompleted : course.completed = before.length) :
    ∃ crashed, publish crc32 plan disk (some course) = .stopped course.stop.error crashed ∧
      Around plan disk crashed ∧
      (∀ v ∈ before, ∀ lba, v.offset = lba * s.sector →
        crashed.sectors s.sector lba = v.after) ∧
      (∀ v ∈ after, ∀ lba, v.offset = lba * s.sector →
        crashed.sectors s.sector lba = v.before) ∧
      (∀ lba, w.offset = lba * s.sector →
        crashed.sectors s.sector lba = course.torn s.sector) := by
  have hmem : ∀ v ∈ before, v ∈ plan.writes := fun v hv => hsplit ▸ List.mem_append_left _ hv
  have hw : w ∈ plan.writes := hsplit ▸ List.mem_append_right _ (List.mem_cons_self ..)
  have hafter : ∀ v ∈ after, v ∈ plan.writes :=
    fun v hv => hsplit ▸ List.mem_append_right _ (List.mem_cons_of_mem w hv)
  obtain ⟨hlength, lbaw, -, hoffset⟩ := h.write_sector hw
  have htorn : (course.torn s.sector).length = s.sector := by
    unfold Course.torn
    rw [List.length_map, List.length_range]
  have hoffsets := h.offsets
  rw [hsplit, List.pairwise_append, List.pairwise_cons] at hoffsets
  obtain ⟨hbefore, ⟨hwafter, -⟩, hcross⟩ := hoffsets
  refine ⟨(applyWrites disk before).write w.offset (course.torn s.sector), ?_, ?_, ?_, ?_, ?_⟩
  · rw [h.publish_eq_loop hdisk, hsplit, publishLoop_stopped hcompleted
      fun v hv => h.fits hdisk.size v (hmem v hv), hlength]
  · exact ((Around.refl plan disk).applyWrites h hmem).write h hw htorn
  · intro v hv lba hlba
    have hne : lba ≠ lbaw := by
      rintro rfl
      exact hcross v hv w (List.mem_cons_self ..) (hlba.trans hoffset.symm)
    rw [hoffset, Disk.sectors_write htorn, Function.update_of_ne hne]
    exact sectors_applyWrites_of_mem (fun u hu => h.whole u (hmem u hu)) hbefore hv hlba
  · intro v hv lba hlba
    have hne : lba ≠ lbaw := by
      rintro rfl
      exact hwafter v hv (hoffset.trans hlba.symm)
    rw [hoffset, Disk.sectors_write htorn, Function.update_of_ne hne,
      sectors_applyWrites_of_ne (fun u hu => h.whole u (hmem u hu)) fun u hu heq =>
        hcross u hu v (List.mem_cons_of_mem w hv) (heq.trans hlba.symm)]
    exact h.sectors_before hdisk (hafter v hv) hlba
  · intro lba hlba
    obtain rfl : lba = lbaw :=
      Nat.eq_of_mul_eq_mul_right h.sector_pos (hlba.symm.trans hoffset)
    rw [hoffset, Disk.sectors_write htorn, Function.update_self]

/-- The written sectors are settled when the torn one is. -/
theorem Target.settled_iff (h : Target crc32 s primary backup selected plan)
    (before after : List Write) (w : Write) (hsplit : plan.writes = before ++ w :: after)
    {course : Course} (hcompleted : course.completed = before.length)
    (hmade : ∀ v ∈ before, ∀ lba, v.offset = lba * s.sector →
      current.sectors s.sector lba = v.after)
    (hnotMade : ∀ v ∈ after, ∀ lba, v.offset = lba * s.sector →
      current.sectors s.sector lba = v.before)
    (htorn : ∀ lba, w.offset = lba * s.sector →
      current.sectors s.sector lba = course.torn s.sector) :
    (∀ w ∈ plan.writes, ∀ lba, w.offset = lba * s.sector →
        Settled crc32 2 w (current.sectors s.sector lba)) ↔
      ∀ w, plan.writes[course.completed]? = some w →
        Settled crc32 2 w (course.torn s.sector) := by
  have hget : plan.writes[course.completed]? = some w := by
    rw [hsplit, hcompleted, List.getElem?_append_right (Nat.le_refl _), Nat.sub_self,
      List.getElem?_cons_zero]
  have hw : w ∈ plan.writes := hsplit ▸ List.mem_append_right _ (List.mem_cons_self ..)
  obtain ⟨-, lbaw, -, hlbaw⟩ := h.write_sector hw
  rw [hget]
  constructor
  · intro hall v hv
    obtain rfl := Option.some.inj hv
    rw [← htorn lbaw hlbaw]
    exact hall w hw lbaw hlbaw
  · intro hsettled v hv lba hlba
    rw [hsplit, List.mem_append, List.mem_cons] at hv
    rcases hv with hv | rfl | hv
    · exact .inr (.inl (hmade v hv lba hlba))
    · rw [htorn lba hlba]
      exact hsettled v rfl
    · exact .inl (hnotMade v hv lba hlba)

/-- The four writes by name. -/
theorem Target.mem_writes (h : Target crc32 s primary backup selected plan) :
    arrayWrite s s.backupArray backup.arrayLba selected ∈ plan.writes ∧
      headerWrite crc32 s s.backupHeader s.backupArray s.diskLast primary.count selected ∈
        plan.writes ∧
      arrayWrite s s.primaryArray primary.arrayLba selected ∈ plan.writes ∧
      headerWrite crc32 s s.primaryHeader s.primaryArray 1 primary.count selected ∈
        plan.writes := by
  rw [h.writes]
  exact ⟨by simp, by simp, by simp, by simp⟩

/-- The original's copies. -/
theorem Target.old_copies (h : Target crc32 s primary backup selected plan)
    (hdisk : Holds disk s) : Describes crc32 disk s 1 s.diskLast (oldTable s primary) ∧
      Describes crc32 disk s s.diskLast 1 (oldTable s primary) := by
  have hsectors := hdisk.sectors h.accepted
  have hlt := h.accepted.changedSector_lt
  exact ⟨h.old_primary hdisk (Around.refl plan disk) hsectors.primaryHeader
      (hsectors.primaryArray _ hlt),
    h.old_backup hdisk (Around.refl plan disk) hsectors.backupHeader
      (hsectors.backupArray _ hlt)⟩

/-- The copies once every write has been made. -/
theorem Target.new_copies (h : Target crc32 s primary backup selected plan)
    (hdisk : Holds disk s) (haround : Around plan disk current) :
    Describes crc32 (applyWrites current plan.writes) s 1 s.diskLast (newTable s primary selected) ∧
      Describes crc32 (applyWrites current plan.writes) s s.diskLast 1
        (newTable s primary selected) := by
  have haround' := haround.applyWrites h (List.Subset.refl plan.writes)
  have hmade : ∀ w ∈ plan.writes, ∀ lba, w.offset = lba * s.sector →
      (applyWrites current plan.writes).sectors s.sector lba = w.after :=
    fun w hw lba hlba => sectors_applyWrites_of_mem h.whole h.offsets hw hlba
  obtain ⟨h1, h2, h3, h4⟩ := h.mem_writes
  exact ⟨h.new_primary hdisk haround' (hmade _ h4 1 rfl) (hmade _ h3 _ rfl),
    h.new_backup hdisk haround' (hmade _ h2 _ rfl) (hmade _ h1 _ rfl)⟩

/-- **What a stopped run leaves**: one of the copies is whole, and only the torn sector can
keep `Publish` from being run again. -/
theorem Target.stopped (h : Target crc32 s primary backup selected plan) (hdisk : Holds disk s)
    {course : Course} (hcourse : course.completed ≤ 4) :
    ∃ crashed, publish crc32 plan disk (some course) = .stopped course.stop.error crashed ∧
      Around plan disk crashed ∧
      (Describes crc32 crashed s 1 s.diskLast (oldTable s primary) ∨
        Describes crc32 crashed s s.diskLast 1 (newTable s primary selected)) ∧
      ((∀ w ∈ plan.writes, ∀ lba, w.offset = lba * s.sector →
          Settled crc32 2 w (crashed.sectors s.sector lba)) ↔
        ∀ w, plan.writes[course.completed]? = some w →
          Settled crc32 2 w (course.torn s.sector)) := by
  have hwrites := h.writes
  have hcases : course.completed = 0 ∨ course.completed = 1 ∨ course.completed = 2 ∨
      course.completed = 3 ∨ course.completed = 4 := by omega
  rcases hcases with hc | hc | hc | hc | hc
  · -- the backup array's sector: the primary copy has not been touched
    obtain ⟨crashed, hpublish, haround, hmade, hnotMade, htorn⟩ :=
      h.publish_stopped hdisk [] _ _ hwrites hc
    refine ⟨crashed, hpublish, haround, .inl ?_, h.settled_iff [] _ _ hwrites hc hmade hnotMade htorn⟩
    exact h.old_primary hdisk haround
      (hnotMade (headerWrite crc32 s s.primaryHeader s.primaryArray 1 primary.count selected)
        (by simp) 1 rfl)
      (hnotMade (arrayWrite s s.primaryArray primary.arrayLba selected) (by simp) _ rfl)
  · -- the backup header: the same
    obtain ⟨crashed, hpublish, haround, hmade, hnotMade, htorn⟩ :=
      h.publish_stopped hdisk [_] _ _ hwrites hc
    refine ⟨crashed, hpublish, haround, .inl ?_, h.settled_iff [_] _ _ hwrites hc hmade hnotMade htorn⟩
    exact h.old_primary hdisk haround
      (hnotMade (headerWrite crc32 s s.primaryHeader s.primaryArray 1 primary.count selected)
        (by simp) 1 rfl)
      (hnotMade (arrayWrite s s.primaryArray primary.arrayLba selected) (by simp) _ rfl)
  · -- the primary array's sector: the backup copy is new
    obtain ⟨crashed, hpublish, haround, hmade, hnotMade, htorn⟩ :=
      h.publish_stopped hdisk [_, _] _ _ hwrites hc
    refine ⟨crashed, hpublish, haround, .inr ?_, h.settled_iff [_, _] _ _ hwrites hc hmade hnotMade htorn⟩
    exact h.new_backup hdisk haround
      (hmade (headerWrite crc32 s s.backupHeader s.backupArray s.diskLast primary.count selected)
        (by simp) _ rfl)
      (hmade (arrayWrite s s.backupArray backup.arrayLba selected) (by simp) _ rfl)
  · -- the primary header: the same
    obtain ⟨crashed, hpublish, haround, hmade, hnotMade, htorn⟩ :=
      h.publish_stopped hdisk [_, _, _] _ _ hwrites hc
    refine ⟨crashed, hpublish, haround, .inr ?_, h.settled_iff [_, _, _] _ _ hwrites hc hmade hnotMade htorn⟩
    exact h.new_backup hdisk haround
      (hmade (headerWrite crc32 s s.backupHeader s.backupArray s.diskLast primary.count selected)
        (by simp) _ rfl)
      (hmade (arrayWrite s s.backupArray backup.arrayLba selected) (by simp) _ rfl)
  · -- every write has been made
    have hlength : course.completed = plan.writes.length := by rw [hwrites, hc]; rfl
    have haround := (Around.refl plan disk).applyWrites h (List.Subset.refl plan.writes)
    refine ⟨applyWrites disk plan.writes, ?_, haround,
      .inr (h.new_copies hdisk (Around.refl plan disk)).2, ?_⟩
    · rw [h.publish_eq_loop hdisk, publishLoop_stopped_last hlength (h.fits hdisk.size)]
    · refine ⟨fun _ w hw => ?_, fun _ w hw lba hlba => .inr (.inl ?_)⟩
      · rw [hlength, List.getElem?_eq_none (Nat.le_refl _)] at hw
        cases hw
      · exact sectors_applyWrites_of_mem h.whole h.offsets hw hlba

/-- The sector of the write in progress holds all of its old or all of its new content. -/
def Course.Whole (course : Course) (plan : Plan) : Prop :=
  ∀ w, plan.writes[course.completed]? = some w →
    course.torn plan.snapshot.sector = w.before ∨ course.torn plan.snapshot.sector = w.after

/-- **A crash while resizing never loses the partition table.**  Take a snapshot that
`Build` accepts in a partition profile, on the disk it was read from.  Both copies describe
the old table; the new one differs from it in the last sector of the selected partition
only, and its partitions are disjoint and inside the usable sectors.  Wherever `Publish` is
stopped, with any content in the sector of the write in progress, one of the copies is
valid and describes the old table or the new one.  Run again on what is left, `Publish`
ends with both copies valid and describing the new table when that sector holds all of its
old or all of its new content; it succeeds also when the content is no valid header, and in
no other case. -/
theorem resize_survives_crash {crc32 : Bytes → UInt32} {s : Snapshot} {plan : Plan}
    {disk : Disk UInt8} (hbuild : build crc32 s = .ok plan)
    (hprofile : s.profile ≠ .containerWindow) (hdisk : Holds disk s) :
    ∃ (old : Table) (selected : ℕ),
      (Describes crc32 disk s 1 s.diskLast old ∧ Describes crc32 disk s s.diskLast 1 old) ∧
      (selected < old.count ∧ used old.entries selected ∧
        guid (entryOf old.entries selected) 16 = s.media.partitionGuid ∧
        lastOf (old.moveEnd selected s.newLast).entries selected = s.newLast ∧
        ∀ i, i < selected * 128 + 40 ∨ selected * 128 + 48 ≤ i →
          (old.moveEnd selected s.newLast).entries[i]? = old.entries[i]?) ∧
      (old.moveEnd selected s.newLast).WellFormed ∧
      ∀ course : Course, course.completed ≤ 4 →
        ∃ crashed, publish crc32 plan disk (some course) = .stopped course.stop.error crashed ∧
          (∃ table, (table = old ∨ table = old.moveEnd selected s.newLast) ∧
            (Describes crc32 crashed s 1 s.diskLast table ∨
              Describes crc32 crashed s s.diskLast 1 table)) ∧
          (course.Whole plan → ∃ final, publish crc32 plan crashed none = .published final ∧
            Describes crc32 final s 1 s.diskLast (old.moveEnd selected s.newLast) ∧
            Describes crc32 final s s.diskLast 1 (old.moveEnd selected s.newLast)) ∧
          ((∃ final, publish crc32 plan crashed none = .published final) ↔
            ∀ w, plan.writes[course.completed]? = some w →
              course.torn s.sector = w.before ∨ course.torn s.sector = w.after ∨
                validHeader crc32 (course.torn s.sector) = false) := by
  obtain ⟨primary, backup, selected, h⟩ := build_target hbuild hprofile
  have haccepted := h.accepted
  have hlt := haccepted.selected_lt
  have hle := haccepted.entries_le
  obtain ⟨census, hcensus, hselected, -⟩ := haccepted.census
  obtain ⟨-, hused, hguid⟩ := (hcensus.selected selected).mp hselected
  have hlength : (oldTable s primary).entries.length = primary.count * 128 := by
    show (s.primaryArray.take (primary.count * 128)).length = _
    rw [List.length_take, haccepted.primaryArray_length, Nat.min_eq_left hle]
  have hentry : entryOf (oldTable s primary).entries selected =
      entryOf s.primaryArray selected := by
    show slice (s.primaryArray.take (primary.count * 128)) (selected * 128) 128 = _
    unfold entryOf slice
    rw [List.drop_take, List.take_take, Nat.min_eq_left (by omega)]
  have hend : selected * 128 + 128 ≤ (oldTable s primary).entries.length := by
    rw [hlength]
    omega
  refine ⟨oldTable s primary, selected, h.old_copies hdisk, ⟨?_, ?_, ?_, ?_, ?_⟩,
    haccepted.wellFormed, ?_⟩
  · unfold Table.count
    rw [hlength, Nat.mul_div_cancel _ (by norm_num)]
    exact hlt
  · unfold used
    rw [hentry]
    exact hused
  · rw [hentry]
    exact hguid
  · obtain ⟨-, -, -, hlast⟩ := moveEnd_fields (oldTable s primary).entries hend
      haccepted.newLast_lt selected
    unfold nextLastOf at hlast
    rw [if_pos rfl] at hlast
    exact hlast
  · intro i hi
    exact getElem?_putLE (by omega) hi
  · intro course hcourse
    obtain ⟨crashed, hpublish, haround, hvalid, hsettled⟩ := h.stopped hdisk hcourse
    obtain ⟨hagain, hfinal⟩ := h.publish_none hdisk haround
    have hiff : (∃ final, publish crc32 plan crashed none = .published final) ↔
        ∀ w, plan.writes[course.completed]? = some w →
          course.torn s.sector = w.before ∨ course.torn s.sector = w.after ∨
            validHeader crc32 (course.torn s.sector) = false := by
      rw [hagain, hsettled]
      unfold Settled
      simp only [Nat.reduceEqDiff, if_false]
    refine ⟨crashed, hpublish, ?_, ?_, hiff⟩
    · rcases hvalid with hold | hnew
      · exact ⟨_, .inl rfl, .inl hold⟩
      · exact ⟨_, .inr rfl, .inr hnew⟩
    · intro hwhole
      obtain ⟨final, hpublished⟩ := hiff.mpr fun w hw => by
        have := hwhole w hw
        rw [h.snapshot] at this
        exact this.imp_right .inl
      obtain rfl := hfinal final hpublished
      exact ⟨_, hpublished, h.new_copies hdisk haround⟩

/-- Every accepted snapshot is that of some disk. -/
theorem Accepted.exists_holds (h : Accepted crc32 s primary backup selected) :
    ∃ disk : Disk UInt8, Holds disk s := by
  obtain ⟨hprimary, -, hprimaryLength⟩ := readN_of_headerOf h.primaryHeader
  obtain ⟨hbackup, -, hbackupLength⟩ := readN_of_headerOf h.backupHeader
  have hprimaryLength : s.primaryHeader.length = s.sector := hprimaryLength
  have hbackupLength : s.backupHeader.length = s.sector := hbackupLength
  have hmbr := h.mbr_length
  have hpl := h.primaryArray_length
  have hbl := h.backupArray_length
  -- the regions follow one another
  have h2 : 2 * s.sector ≤ primary.arrayLba * s.sector := Nat.mul_le_mul_right _ h.primary_low
  have h3 : primary.arrayLba * s.sector + arraySectors s primary * s.sector ≤
      backup.arrayLba * s.sector := by
    rw [← Nat.add_mul]
    have := h.primary_high
    have := h.usable
    have := h.backup_low
    exact Nat.mul_le_mul_right _ (by omega)
  have h4 : backup.arrayLba * s.sector + arraySectors s primary * s.sector ≤
      s.diskLast * s.sector := by
    rw [← Nat.add_mul]
    exact Nat.mul_le_mul_right _ h.backup_high
  have hsize := h.size
  rw [Nat.add_mul, Nat.one_mul] at hsize
  let d0 : Disk UInt8 := ⟨s.media.diskSizeBytes, fun _ => 0⟩
  let d1 := d0.write 0 s.mbr
  let d2 := d1.write s.sector s.primaryHeader
  let d3 := d2.write (primary.arrayLba * s.sector) s.primaryArray
  let d4 := d3.write (backup.arrayLba * s.sector) s.backupArray
  let d5 := d4.write (s.diskLast * s.sector) s.backupHeader
  have hread : ∀ {offset : ℕ} {bytes : Bytes}, offset + bytes.length ≤ s.media.diskSizeBytes →
      d5.contents offset bytes.length = bytes → d5.read offset bytes.length = some bytes := by
    intro offset bytes hle hcontents
    rw [Disk.read_of_le hle, hcontents]
  refine ⟨d5, rfl, ?_, ?_, ?_, ?_, ?_⟩
  · rw [← hmbr]
    refine hread (by omega) ?_
    rw [Disk.contents_write_of_apart (by omega), Disk.contents_write_of_apart (by omega),
      Disk.contents_write_of_apart (by omega), Disk.contents_write_of_apart (by omega),
      Disk.contents_write_self]
  · have hcontents : d5.contents s.sector s.primaryHeader.length = s.primaryHeader := by
      rw [Disk.contents_write_of_apart (by omega), Disk.contents_write_of_apart (by omega),
        Disk.contents_write_of_apart (by omega), Disk.contents_write_self]
    have hresult := hread (by omega) hcontents
    rwa [hprimaryLength] at hresult
  · have hresult := hread (by omega) (Disk.contents_write_self d4 (s.diskLast * s.sector) s.backupHeader)
    rwa [hbackupLength] at hresult
  · rw [hprimary]
    refine hread (by omega) ?_
    rw [Disk.contents_write_of_apart (by omega), Disk.contents_write_of_apart (by omega),
      Disk.contents_write_self]
  · rw [hbackup]
    refine hread (by omega) ?_
    rw [Disk.contents_write_of_apart (by omega), Disk.contents_write_self]

end Writes

/-! ## A sample -/

/-- One bit of the checksum. -/
def crcBit (c : UInt32) : UInt32 := if c &&& 1 = 1 then (c >>> 1) ^^^ 0xedb88320 else c >>> 1

/-- The checksum that zlib computes. -/
def zlibCrc32 (bytes : Bytes) : UInt32 :=
  (bytes.foldl (fun c b => crcBit^[8] (c ^^^ b.toUInt32)) 0xffffffff) ^^^ 0xffffffff

example : zlibCrc32 [0x31, 0x32, 0x33, 0x34, 0x35, 0x36, 0x37, 0x38, 0x39] = 0xcbf43926 := by
  decide +kernel

/-- A disk of 2134 sectors with one partition of 2048 sectors. -/
def sampleMedia : RawSnapshotMediaBinding where
  diskGuid := fun _ => 1
  partitionGuid := fun _ => 2
  partitionOffsetBytes := 20480
  partitionLengthBytes := 1048576
  baseOffsetBytes := 20480
  limitBytes := 1048576
  diskSizeBytes := 1092608
  logicalSectorBytes := 512
  physicalSectorBytes := 0

/-- The device of the sample. -/
def sampleHardware : RawHardwareIdentity where
  kind := .qualifiedSerialTuple
  busType := busTypeUsb
  vendor := [0x41, 0x43, 0x4d, 0x45]
  product := [0x44, 0x49, 0x53, 0x4b]
  revision := [0x31]
  serial := [0x41, 0x42, 0x31, 0x32]
  vpdCodeSet := 0
  vpdType := 0
  vpdIdentifier := []

/-- The binding of the sample. -/
def sampleEnvelope : Envelope where
  binding := { version := 1, hardware := sampleHardware, media := sampleMedia }
  inst := [0x55, 0x53, 0x42, 0x5c, 0x44, 0x5c, 0x31]

/-- The entry of the sample's partition. -/
def sampleEntry : Bytes :=
  [0xef, 0x57, 0x34, 0x7c, 0, 0, 0xaa, 0x11, 0xaa, 0x11, 0, 0x30, 0x65, 0x43, 0xec, 0xac] ++
    List.replicate 16 2 ++ leBytes 8 40 ++ leBytes 8 2087 ++ List.replicate 80 0

/-- The array of the sample. -/
def sampleArray : Bytes := sampleEntry ++ List.replicate (127 * 128) 0

/-- A header of the sample before its checksums are filled in. -/
def sampleHeader (here other arrayLba : ℕ) : Bytes :=
  leBytes 8 0x5452415020494645 ++ leBytes 4 0x10000 ++ leBytes 4 92 ++ leBytes 8 0 ++
    leBytes 8 here ++ leBytes 8 other ++ leBytes 8 34 ++ leBytes 8 2100 ++ List.replicate 16 1 ++
    leBytes 8 arrayLba ++ leBytes 4 128 ++ leBytes 4 128 ++ List.replicate 424 0

/-- The snapshot of the sample; the partition is to grow by eight sectors. -/
def sampleSnapshot : Snapshot where
  original := sampleEnvelope
  targetBytes := 1052672
  mbr := List.replicate 450 0 ++ [0xee, 0, 0, 0] ++ leBytes 4 1 ++ leBytes 4 2133 ++
    List.replicate 48 0 ++ [0x55, 0xaa]
  primaryHeader := headerChecksum zlibCrc32 (sampleHeader 1 2133 2) sampleArray 16384
  backupHeader := headerChecksum zlibCrc32 (sampleHeader 2133 1 2101) sampleArray 16384
  primaryArray := sampleArray
  backupArray := sampleArray
  profile := .partition

theorem length_sampleEntry : sampleEntry.length = 128 := by
  decide +kernel

theorem length_sampleArray : sampleArray.length = 16384 := by
  unfold sampleArray
  rw [List.length_append, List.length_replicate, length_sampleEntry]

/-- The header of the sample's primary copy. -/
def samplePrimary : Header := ⟨34, 2100, 2, 128, 128⟩

/-- The header of the sample's backup copy. -/
def sampleBackup : Header := ⟨34, 2100, 2101, 128, 128⟩

theorem headerOf_sample :
    (headerOf zlibCrc32 sampleSnapshot.primaryHeader 1 2133 sampleEnvelope.binding =
        .ok samplePrimary ∧
      readD sampleSnapshot.primaryHeader 88 = (zlibCrc32 (sampleArray.take 16384)).toNat) ∧
    headerOf zlibCrc32 sampleSnapshot.backupHeader 2133 1 sampleEnvelope.binding =
        .ok sampleBackup ∧
      readD sampleSnapshot.backupHeader 88 = (zlibCrc32 (sampleArray.take 16384)).toNat := by
  obtain ⟨h1, h2, -⟩ := @headerOf_headerChecksum_of_profile zlibCrc32 (sampleHeader 1 2133 2)
    sampleArray 1 2133 16384 sampleEnvelope.binding (by decide +kernel) (by decide +kernel)
    (by decide +kernel)
  obtain ⟨h3, h4, -⟩ := @headerOf_headerChecksum_of_profile zlibCrc32 (sampleHeader 2133 1 2101)
    sampleArray 2133 1 16384 sampleEnvelope.binding (by decide +kernel) (by decide +kernel)
    (by decide +kernel)
  have hprimary : (⟨readN (sampleHeader 1 2133 2) 40, readN (sampleHeader 1 2133 2) 48,
      readN (sampleHeader 1 2133 2) 72, readD (sampleHeader 1 2133 2) 80,
      readD (sampleHeader 1 2133 2) 84⟩ : Header) = samplePrimary := by decide +kernel
  have hbackup : (⟨readN (sampleHeader 2133 1 2101) 40, readN (sampleHeader 2133 1 2101) 48,
      readN (sampleHeader 2133 1 2101) 72, readD (sampleHeader 2133 1 2101) 80,
      readD (sampleHeader 2133 1 2101) 84⟩ : Header) = sampleBackup := by decide +kernel
  rw [hprimary] at h1
  rw [hbackup] at h3
  exact ⟨⟨h1, h2⟩, h3, h4⟩

/-- The first entry of the sample. -/
theorem entryOf_sampleArray_zero : entryOf sampleArray 0 = sampleEntry := by
  unfold entryOf slice sampleArray
  rw [Nat.zero_mul, List.drop_zero, List.take_left' length_sampleEntry]

/-- The other entries of the sample are empty. -/
theorem entryOf_sampleArray_succ {i : ℕ} (hi : i < 127) :
    entryOf sampleArray (i + 1) = List.replicate 128 0 := by
  have hmin : min 128 (127 * 128 - ((i + 1) * 128 - 128)) = 128 := by omega
  unfold entryOf slice sampleArray
  rw [List.drop_append, List.drop_eq_nil_of_le (by rw [length_sampleEntry]; omega),
    List.nil_append, List.drop_replicate, List.take_replicate, length_sampleEntry, hmin]

/-- An empty entry leaves the census. -/
theorem censusStep_of_empty {media : RawSnapshotMediaBinding} {window : Bool} {newLast i : ℕ}
    {primary : Header} {array : Bytes} {census : Census}
    (h : entryOf array i = List.replicate 128 0) :
    censusStep media window newLast primary array census i = .ok census := by
  unfold censusStep
  dsimp only
  rw [h, if_pos (by decide +kernel), need_bind_eq_ok]
  exact ⟨by decide +kernel, rfl⟩

theorem foldlM_of_forall {α β : Type} {f : β → α → Except String β} {b : β} {xs : List α}
    (h : ∀ x ∈ xs, f b x = .ok b) : xs.foldlM f b = .ok b := by
  induction xs with
  | nil => rfl
  | cons x xs ih =>
    obtain ⟨hx, hxs⟩ := List.forall_mem_cons.mp h
    rw [List.foldlM_cons, bind_eq_ok]
    exact ⟨b, hx, ih hxs⟩

/-- The census of the sample. -/
def sampleCensus : Census where
  ids := [fun _ => 2]
  ranges := [(40, 2095)]
  originals := [(40, 2087)]
  selected := some 0

theorem foldlM_sample : (List.range 128).foldlM
    (censusStep sampleMedia false 2095 samplePrimary sampleArray) {} = .ok sampleCensus := by
  rw [List.range_succ_eq_map, List.foldlM_cons, bind_eq_ok]
  refine ⟨sampleCensus, ?_, foldlM_of_forall ?_⟩
  · have hid : guid sampleEntry 16 = fun _ => 2 := by decide +kernel
    have hfirst : readN sampleEntry 32 = 40 := by decide +kernel
    have hlast : readN sampleEntry 40 = 2087 := by decide +kernel
    unfold censusStep
    dsimp only
    rw [entryOf_sampleArray_zero, hid, hfirst, hlast, if_neg (by decide +kernel),
      need_bind_eq_ok]
    refine ⟨by decide +kernel, ?_⟩
    rw [if_pos (show (fun _ => 2) = sampleMedia.partitionGuid from rfl), need_bind_eq_ok]
    exact ⟨by decide +kernel, rfl⟩
  · intro i hi
    obtain ⟨k, hk, rfl⟩ := List.mem_map.mp hi
    exact censusStep_of_empty (entryOf_sampleArray_succ (List.mem_range.mp hk))

/-- One sector of each of the sample's arrays is written. -/
theorem addArray_sample (lba : ℕ) : (addArray sampleSnapshot.sector sampleArray
    (moveEnd sampleArray 0 sampleSnapshot.newLast) lba).length = 1 := by
  have hchanged : slice sampleArray (0 * sampleSnapshot.sector) sampleSnapshot.sector ≠
      slice (moveEnd sampleArray 0 sampleSnapshot.newLast) (0 * sampleSnapshot.sector)
        sampleSnapshot.sector := by
    decide +kernel
  have hsectors : 0 < sampleArray.length / sampleSnapshot.sector := by
    rw [length_sampleArray]
    decide +kernel
  have hlength : 0 * 128 + 48 ≤ sampleArray.length := by
    rw [length_sampleArray]
    omega
  have hsector : changedSector sampleSnapshot 0 = 0 := by decide +kernel
  unfold addArray
  rw [filterMap_range_eq (k := 0) fun k hk => if_pos
      (slice_moveEnd_of_ne (.inl rfl) hlength (hsector.symm ▸ hk)).symm,
    if_pos hsectors, if_neg hchanged]
  rfl

theorem length_writes_sample :
    (sampleSnapshot.writes zlibCrc32 samplePrimary sampleBackup 0).length = 4 := by
  have hbackup : (addArray sampleSnapshot.sector sampleSnapshot.backupArray
      (putU64 sampleSnapshot.backupArray (0 * 128 + 40) sampleSnapshot.newLast)
      sampleBackup.arrayLba).length = 1 := addArray_sample _
  have hprimary : (addArray sampleSnapshot.sector sampleSnapshot.primaryArray
      (putU64 sampleSnapshot.primaryArray (0 * 128 + 40) sampleSnapshot.newLast)
      samplePrimary.arrayLba).length = 1 := addArray_sample _
  unfold Snapshot.writes
  dsimp only
  rw [List.length_append, List.length_append, List.length_append, hbackup, hprimary]
  rfl

/-- `Build` accepts the sample. -/
theorem build_sample : ∃ plan, build zlibCrc32 sampleSnapshot = .ok plan := by
  obtain ⟨⟨hprimary, hpcrc⟩, hbackup, hbcrc⟩ := headerOf_sample
  have hlength := length_sampleArray
  refine ⟨⟨sampleSnapshot, sampleSnapshot.after,
    sampleSnapshot.writes zlibCrc32 samplePrimary sampleBackup 0⟩, ?_⟩
  unfold build
  dsimp only
  rw [need_bind_eq_ok]
  refine ⟨by decide +kernel, ?_⟩
  rw [bind_eq_ok]
  refine ⟨samplePrimary, hprimary, ?_⟩
  rw [bind_eq_ok]
  refine ⟨sampleBackup, hbackup, ?_⟩
  rw [need_bind_eq_ok]
  refine ⟨by decide +kernel, ?_⟩
  rw [need_bind_eq_ok]
  refine ⟨⟨by decide +kernel, by decide +kernel, by decide +kernel, by decide +kernel,
    by decide +kernel, by decide +kernel, hlength, hlength, rfl, hpcrc.symm, hbcrc.symm⟩, ?_⟩
  rw [need_bind_eq_ok]
  refine ⟨by decide +kernel, ?_⟩
  rw [need_bind_eq_ok]
  refine ⟨by decide +kernel, ?_⟩
  rw [bind_eq_ok]
  refine ⟨sampleCensus, foldlM_sample, ?_⟩
  rw [need_bind_eq_ok, need_bind_eq_ok, need_bind_eq_ok, need_bind_eq_ok, need_bind_eq_ok]
  refine ⟨rfl, by decide +kernel, by decide +kernel, by decide +kernel, .inr ?_, rfl⟩
  exact length_writes_sample

theorem resize_survives_crash_sample : ∃ plan disk,
    build zlibCrc32 sampleSnapshot = .ok plan ∧ Holds disk sampleSnapshot ∧
    ∃ crashed, publish zlibCrc32 plan disk (some ⟨2, .crash, fun _ => 0⟩) =
      .stopped none crashed := by
  obtain ⟨plan, hplan⟩ := build_sample
  have hprofile : sampleSnapshot.profile ≠ .containerWindow := by decide
  obtain ⟨primary, backup, selected, haccepted, -⟩ := build_accepted hplan hprofile
  obtain ⟨disk, hdisk⟩ := haccepted.exists_holds
  obtain ⟨old, selected', -, -, -, hcourse⟩ := resize_survives_crash hplan hprofile hdisk
  obtain ⟨crashed, hstopped, -⟩ := hcourse ⟨2, .crash, fun _ => 0⟩ (by norm_num)
  exact ⟨plan, disk, hplan, hdisk, crashed, hstopped⟩

end Geometry
end ApfsAccess
