import ApfsAccess.Wal.Framing

/-!
# Appending to a log, and reopening it after a crash

`AppendWithResult` and `AppendBatchWithResult` write the encodings of their records at
the end of the file, through a handle that `EnsureAppendHandle` opens when there is
none.  Opening reads the log first and refuses one that is corrupt; a log that ends in
a torn record reads as `Ok`, so it is not refused, and the handle is placed at the end
of the file, behind the torn bytes.  Only `ReadAllWithExclusiveWriterLease` cuts those
bytes off.

This module runs the calls against a file.  Each call comes with its *course*: the
system refuses it, lets it finish, stops it after some of its bytes, or the process
dies after some of its bytes and the log is reopened by a new object.

* `torn_append_loses_acknowledged` : a record appended behind torn bytes is lost.
* `run_returns_acknowledged` : as long as no call appends behind torn bytes, and no
  encoding is longer than the decoder's limit, every acknowledged record is read back.
-/

namespace ApfsAccess
namespace Wal

open ByteBuffer Format

/-- `WriteAheadLog::Options` of a plain log. -/
structure Options where
  volumeIdentity : Bytes := []
  maxBytes : ℕ := 64 * 1024 * 1024

/-- A file and the object that appends to it.  The handle is represented by
`append_handle_size_`; writes go to the end of the file, where the handle stands. -/
structure WriteAheadLog where
  file : Bytes := []
  appendHandleSize : Option ℕ := none

/-- `WriteAheadLog::AppendResult`. -/
inductive AppendResult where
  | succeeded
  | rejectedBeforeWrite
  | bytesMayHavePersisted
  deriving DecidableEq, Repr

/-- The course of a call. -/
inductive Course where
  | refused
  | finished (flushed : Bool)
  | stopped (written : ℕ)
  | crashed (written : ℕ)
  deriving DecidableEq, Repr

/-- Whether the process dies during the call. -/
def Course.isCrash : Course → Bool
  | .crashed _ => true
  | _ => false

namespace WriteAheadLog

variable (decoders : ProofDecoders) (options : Options)

/-- `ReadAllInternal`, without repair. -/
def readAll (log : WriteAheadLog) : ReadResult :=
  decodeWalBytes decoders options.volumeIdentity {} none log.file

/-- `CloseAppendHandle`. -/
def closeAppendHandle (log : WriteAheadLog) : WriteAheadLog :=
  { log with appendHandleSize := none }

/-- `EnsureAppendHandle`. -/
def ensureAppendHandle (log : WriteAheadLog) : Option WriteAheadLog :=
  if log.appendHandleSize.isSome then some log
  else if (log.readAll decoders options).status ≠ .ok then none
  else some { log with appendHandleSize := some log.file.length }

/-- The record an append writes: one without a volume identity takes the log's. -/
def writableRecord (record : WalRecord) : Option WalRecord :=
  if record.volumeIdentity = [] then
    some { record with volumeIdentity := options.volumeIdentity }
  else if record.volumeIdentity ≠ options.volumeIdentity then none
  else some record

/-- The record an append writes, with its encoding. -/
def writableFrame (record : WalRecord) : Option (WalRecord × Bytes) :=
  match writableRecord options record with
  | none => none
  | some record => (encodeWalRecord decoders record 0).map fun encoded => (record, encoded)

/-- The size an append compares with its budget. -/
def existingSize (log : WriteAheadLog) : ℕ :=
  log.appendHandleSize.getD log.file.length

/-- A call that ends without writing. -/
def reject (log : WriteAheadLog) (course : Course) : Option AppendResult × WriteAheadLog :=
  if course.isCrash then (none, log.closeAppendHandle) else (some .rejectedBeforeWrite, log)

/-- `AppendEncoded` and the flush after it.  There is no result when the process
dies. -/
def appendEncoded (log : WriteAheadLog) (encoded : Bytes) (durableFlush : Bool)
    (course : Course) : Option AppendResult × WriteAheadLog :=
  match log.ensureAppendHandle decoders options with
  | none => log.reject course
  | some log =>
    -- no file grows past what its size can say
    if 2 ^ 64 ≤ log.file.length + encoded.length then log.reject course
    else
      match course with
      | .refused => (some .rejectedBeforeWrite, log)
      | .finished flushed =>
        let appended : WriteAheadLog :=
          { file := log.file ++ encoded
            appendHandleSize := log.appendHandleSize.map (· + encoded.length) }
        if durableFlush && !flushed then
          (some .bytesMayHavePersisted, appended.closeAppendHandle)
        else
          (some .succeeded, appended)
      | .stopped written =>
        (some (if encoded.take written = [] then .rejectedBeforeWrite else .bytesMayHavePersisted),
          { file := log.file ++ encoded.take written })
      | .crashed written =>
        (none, { file := log.file ++ encoded.take written })

/-- `AppendWithResult`. -/
def appendWithResult (log : WriteAheadLog) (record : WalRecord) (durableFlush : Bool)
    (course : Course) : Option AppendResult × WriteAheadLog :=
  match writableFrame decoders options record with
  | none => log.reject course
  | some frame =>
    if 0 < options.maxBytes ∧
        options.maxBytes < (log.existingSize + frame.2.length) % 2 ^ 64 then
      log.reject course
    else
      log.appendEncoded decoders options frame.2 durableFlush course

/-- `AppendBatchWithResult`. -/
def appendBatchWithResult (log : WriteAheadLog) (records : List WalRecord) (durableFlush : Bool)
    (course : Course) : Option AppendResult × WriteAheadLog :=
  if records = [] then
    if course.isCrash then (none, log.closeAppendHandle) else (some .succeeded, log)
  else
    match records.mapM (writableFrame decoders options) with
    | none => log.reject course
    | some frames =>
      if 0 < options.maxBytes ∧ (options.maxBytes < log.existingSize ∨
          options.maxBytes - log.existingSize < (logBytes frames).length) then
        log.reject course
      else
        log.appendEncoded decoders options (logBytes frames) durableFlush course

/-- `ReadAllWithExclusiveWriterLease`, which cuts a torn tail off. -/
def readAllWithExclusiveWriterLease (log : WriteAheadLog) : ReadResult × WriteAheadLog :=
  match log.ensureAppendHandle decoders options with
  | none => ({ status := .ioError }, log)
  | some log =>
    let inspected := log.readAll decoders options
    if inspected.status ≠ .ok then
      (inspected, log.closeAppendHandle)
    else if inspected.recoveredTornTail then
      let truncated : WriteAheadLog :=
        { file := log.file.take inspected.completePrefixBytes
          appendHandleSize := some inspected.completePrefixBytes }
      let verified := truncated.readAll decoders options
      if verified.status ≠ .ok ∨ verified.recoveredTornTail then
        ({ status := .ioError }, truncated.closeAppendHandle)
      else
        ({ verified with recoveredTornTail := true }, truncated)
    else
      (inspected, log)

end WriteAheadLog

/-! ## Runs -/

/-- A call on the log. -/
inductive LogCall where
  | append (record : WalRecord) (durableFlush : Bool) (course : Course)
  | appendBatch (records : List WalRecord) (durableFlush : Bool) (course : Course)
  | readAllWithExclusiveWriterLease

/-- A log, and the records whose append has been acknowledged, in append order. -/
structure LogRun where
  log : WriteAheadLog := {}
  acknowledged : List WalRecord := []

namespace LogRun

variable (decoders : ProofDecoders) (options : Options)

/-- The records an append of `records` adds to the log. -/
def writtenRecords (records : List WalRecord) : List WalRecord :=
  records.filterMap (WriteAheadLog.writableRecord options)

/-- What an append with the given outcome means for the run. -/
def acknowledge (s : LogRun) (records : List WalRecord)
    (outcome : Option AppendResult × WriteAheadLog) : LogRun where
  log := outcome.2
  acknowledged :=
    if outcome.1 = some .succeeded then s.acknowledged ++ writtenRecords options records
    else s.acknowledged

/-- One call. -/
def step (s : LogRun) : LogCall → LogRun
  | .append record durableFlush course =>
    s.acknowledge options [record] (s.log.appendWithResult decoders options record durableFlush course)
  | .appendBatch records durableFlush course =>
    s.acknowledge options records
      (s.log.appendBatchWithResult decoders options records durableFlush course)
  | .readAllWithExclusiveWriterLease =>
    { s with log := (s.log.readAllWithExclusiveWriterLease decoders options).2 }

/-- A run of calls. -/
def run (s : LogRun) (calls : List LogCall) : LogRun :=
  calls.foldl (step decoders options) s

/-- The records a call may write. -/
def callRecords : LogCall → List WalRecord
  | .append record _ _ => [record]
  | .appendBatch records _ _ => records
  | .readAllWithExclusiveWriterLease => []

/-- A call that does not append behind torn bytes, and whose encodings the decoder
admits. -/
def Admissible (s : LogRun) (call : LogCall) : Prop :=
  (callRecords call ≠ [] → (s.log.readAll decoders options).recoveredTornTail = false) ∧
    ∀ record ∈ callRecords call, ∀ frame,
      WriteAheadLog.writableFrame decoders options record = some frame →
      frame.2.length ≤ maxRecordBytes

/-- A run all of whose calls are admissible. -/
def AdmissibleRun (s : LogRun) : List LogCall → Prop
  | [] => True
  | call :: calls =>
    s.Admissible decoders options call ∧ AdmissibleRun (s.step decoders options call) calls

variable {decoders options}

/-! ## The invariant -/

/-- The file is a log of admitted frames, cut somewhere, and the frames that are whole
contain the acknowledged records. -/
def Sound (decoders : ProofDecoders) (options : Options) (s : LogRun) : Prop :=
  ∃ frames n, (∀ frame ∈ frames, Framed decoders options.volumeIdentity frame) ∧
    (logBytes frames).length < 2 ^ 64 ∧ n ≤ (logBytes frames).length ∧
    s.log.file = (logBytes frames).take n ∧
    s.acknowledged.Sublist ((frames.take (fitting n frames)).map Prod.fst)

/-- The file is a log of admitted frames that contain the acknowledged records, with
nothing left over. -/
def Whole (decoders : ProofDecoders) (options : Options) (s : LogRun) : Prop :=
  ∃ frames, (∀ frame ∈ frames, Framed decoders options.volumeIdentity frame) ∧
    (logBytes frames).length < 2 ^ 64 ∧ s.log.file = logBytes frames ∧
    s.acknowledged.Sublist (frames.map Prod.fst)

/-- A log whose torn bytes are cut off has nothing left over. -/
theorem Sound.truncate {s : LogRun} (h : Sound decoders options s) {log : WriteAheadLog}
    (hlog : log.file = s.log.file.take (s.log.readAll decoders options).completePrefixBytes) :
    Whole decoders options { s with log } := by
  obtain ⟨frames, n, hframes, hsize, hn, hfile, hsublist⟩ := h
  refine ⟨frames.take (fitting n frames),
    fun frame hframe => hframes frame (List.mem_of_mem_take hframe), ?_, ?_, hsublist⟩
  · have hmono := length_logBytes_take_mono frames (fitting_le_length n frames)
    rw [List.take_length] at hmono
    omega
  · have hread : (s.log.readAll decoders options).completePrefixBytes =
        (logBytes (frames.take (fitting n frames))).length := by
      unfold WriteAheadLog.readAll
      rw [hfile, decodeWalBytes_take_eq hframes hsize hn]
    have hsplit : logBytes frames = logBytes (frames.take (fitting n frames)) ++
        logBytes (frames.drop (fitting n frames)) := by
      rw [← logBytes_append, List.take_append_drop]
    change log.file = _
    rw [hlog, hread, hfile, List.take_take,
      Nat.min_eq_left (length_logBytes_take_fitting_le n frames), hsplit, List.take_left]

/-- A log that reads without a torn tail has nothing left over. -/
theorem Sound.whole {s : LogRun} (h : Sound decoders options s)
    (htorn : (s.log.readAll decoders options).recoveredTornTail = false) :
    Whole decoders options s := by
  have htruncated : Whole decoders options { s with log := s.log } := h.truncate ?_
  · exact htruncated
  obtain ⟨frames, n, hframes, hsize, hn, hfile, -⟩ := h
  unfold WriteAheadLog.readAll at htorn ⊢
  rw [hfile, decodeWalBytes_take_eq hframes hsize hn] at htorn ⊢
  dsimp only at htorn ⊢
  rw [of_decide_eq_false htorn |> not_not.mp, List.take_take, Nat.min_self]

theorem fitting_append (frames frames' : List (WalRecord × Bytes)) (n : ℕ) :
    fitting ((logBytes frames).length + n) (frames ++ frames') =
      frames.length + fitting n frames' := by
  induction frames with
  | nil => simp
  | cons frame frames ih =>
    rw [List.cons_append, fitting, if_pos (by rw [logBytes_cons, List.length_append]; omega)]
    have hrest : (logBytes (frame :: frames)).length + n - frame.2.length =
        (logBytes frames).length + n := by
      rw [logBytes_cons, List.length_append]
      omega
    rw [hrest, ih, List.length_cons]
    omega

/-- Some of the bytes of a batch, written to a log with nothing left over. -/
theorem Whole.interrupted {s : LogRun} (h : Whole decoders options s)
    {frames : List (WalRecord × Bytes)}
    (hframes : ∀ frame ∈ frames, Framed decoders options.volumeIdentity frame)
    {log : WriteAheadLog} {written : ℕ}
    (hsize : s.log.file.length + (logBytes frames).length < 2 ^ 64)
    (hlog : log.file = s.log.file ++ (logBytes frames).take written) :
    Sound decoders options { s with log } := by
  obtain ⟨held, hheld, -, hfile, hsublist⟩ := h
  rw [hfile] at hsize hlog
  refine ⟨held ++ frames, (logBytes held).length + min written (logBytes frames).length, ?_, ?_, ?_,
    ?_, ?_⟩
  · intro frame hframe
    rcases List.mem_append.mp hframe with hframe | hframe
    · exact hheld frame hframe
    · exact hframes frame hframe
  · rw [logBytes_append, List.length_append]
    exact hsize
  · rw [logBytes_append, List.length_append]
    omega
  · rw [hlog, logBytes_append, List.take_length_add_append, ← List.take_eq_take_min]
  · rw [fitting_append, List.take_length_add_append, List.map_append]
    exact hsublist.trans (List.sublist_append_left _ _)

/-- A batch that was written whole to a log with nothing left over. -/
theorem Whole.finished {s : LogRun} (h : Whole decoders options s)
    {frames : List (WalRecord × Bytes)}
    (hframes : ∀ frame ∈ frames, Framed decoders options.volumeIdentity frame)
    {log : WriteAheadLog} (hsize : s.log.file.length + (logBytes frames).length < 2 ^ 64)
    (hlog : log.file = s.log.file ++ logBytes frames) :
    Whole decoders options
      { log, acknowledged := s.acknowledged ++ frames.map Prod.fst } := by
  obtain ⟨held, hheld, -, hfile, hsublist⟩ := h
  rw [hfile] at hsize hlog
  refine ⟨held ++ frames, ?_, ?_, ?_, ?_⟩
  · intro frame hframe
    rcases List.mem_append.mp hframe with hframe | hframe
    · exact hheld frame hframe
    · exact hframes frame hframe
  · rw [logBytes_append, List.length_append]
    exact hsize
  · rw [logBytes_append]
    exact hlog
  · rw [List.map_append]
    exact hsublist.append (List.Sublist.refl _)

theorem Whole.sound {s : LogRun} (h : Whole decoders options s) : Sound decoders options s := by
  obtain ⟨frames, hframes, hsize, hfile, hsublist⟩ := h
  have hfits : fitting (logBytes frames).length frames = frames.length := by
    simpa [fitting] using fitting_append frames [] 0
  refine ⟨frames, (logBytes frames).length, hframes, hsize, Nat.le_refl _, ?_, ?_⟩
  · rw [hfile, List.take_length]
  · rwa [hfits, List.take_length]

/-! ## One lemma for each call -/

theorem file_reject (log : WriteAheadLog) (course : Course) :
    (log.reject course).1 ≠ some .succeeded ∧ (log.reject course).2.file = log.file := by
  unfold WriteAheadLog.reject
  split <;> exact ⟨by simp, rfl⟩

theorem file_ensureAppendHandle {log log' : WriteAheadLog}
    (h : log.ensureAppendHandle decoders options = some log') : log'.file = log.file := by
  unfold WriteAheadLog.ensureAppendHandle at h
  split at h
  · rw [← Option.some.inj h]
  · split at h
    · cases h
    · rw [← Option.some.inj h]

/-- What `AppendEncoded` leaves in the file: everything when it succeeds, and some of
the bytes, when there was room for all of them, or none when it does not. -/
theorem appendEncoded_cases (log : WriteAheadLog) (encoded : Bytes) (durableFlush : Bool)
    (course : Course) :
    let outcome := log.appendEncoded decoders options encoded durableFlush course
    (outcome.1 = some .succeeded ∧ log.file.length + encoded.length < 2 ^ 64 ∧
        outcome.2.file = log.file ++ encoded) ∨
      (outcome.1 ≠ some .succeeded ∧ log.file.length + encoded.length < 2 ^ 64 ∧
        ∃ written, outcome.2.file = log.file ++ encoded.take written) ∨
      (outcome.1 ≠ some .succeeded ∧ outcome.2.file = log.file) := by
  intro outcome
  have hreject : ∀ log', log'.file = log.file → outcome = WriteAheadLog.reject log' course →
      outcome.1 ≠ some .succeeded ∧ outcome.2.file = log.file := by
    intro log' hfile houtcome
    rw [houtcome]
    exact ⟨(file_reject log' course).1, (file_reject log' course).2.trans hfile⟩
  cases hensure : log.ensureAppendHandle decoders options with
  | none =>
    refine .inr (.inr (hreject log rfl ?_))
    simp [outcome, WriteAheadLog.appendEncoded, hensure]
  | some opened =>
    have hfile := file_ensureAppendHandle hensure
    by_cases hroom : 2 ^ 64 ≤ log.file.length + encoded.length
    · refine .inr (.inr (hreject opened hfile ?_))
      simp only [outcome, WriteAheadLog.appendEncoded, hensure, hfile]
      rw [if_pos hroom]
    · have hlt : log.file.length + encoded.length < 2 ^ 64 := by omega
      have houtcome : outcome = (match course with
          | .refused => (some .rejectedBeforeWrite, opened)
          | .finished flushed =>
            if durableFlush && !flushed then
              (some .bytesMayHavePersisted, { file := opened.file ++ encoded })
            else
              (some .succeeded, { file := opened.file ++ encoded
                                  appendHandleSize :=
                                    opened.appendHandleSize.map (· + encoded.length) })
          | .stopped written =>
            (some (if encoded.take written = [] then .rejectedBeforeWrite
              else .bytesMayHavePersisted), { file := opened.file ++ encoded.take written })
          | .crashed written => (none, { file := opened.file ++ encoded.take written })) := by
        simp only [outcome, WriteAheadLog.appendEncoded, hensure]
        rw [if_neg (by rw [hfile]; exact hroom)]
        cases course <;> rfl
      rw [houtcome]
      cases course with
      | refused => exact .inr (.inr ⟨by simp, hfile⟩)
      | finished flushed =>
        dsimp only
        split
        · exact .inr (.inl ⟨by simp, hlt, encoded.length, by rw [hfile, List.take_length]⟩)
        · exact .inl ⟨rfl, hlt, by rw [hfile]⟩
      | stopped written =>
        refine .inr (.inl ⟨?_, hlt, written, by rw [hfile]⟩)
        dsimp only
        split <;> simp
      | crashed written => exact .inr (.inl ⟨by simp, hlt, written, by rw [hfile]⟩)

/-- The frames a call writes are admitted, and hold the records it writes. -/
theorem framed_of_writableFrame {record : WalRecord} {frame : WalRecord × Bytes}
    (h : WriteAheadLog.writableFrame decoders options record = some frame)
    (hlength : frame.2.length ≤ maxRecordBytes) :
    Framed decoders options.volumeIdentity frame ∧
      WriteAheadLog.writableRecord options record = some frame.1 := by
  unfold WriteAheadLog.writableFrame at h
  split at h
  · cases h
  · rename_i written hwritten
    obtain ⟨encoded, hencoded, rfl⟩ := Option.map_eq_some_iff.mp h
    refine ⟨⟨⟨0, Nat.zero_le _, hencoded⟩, hlength, .inr ?_⟩, hwritten⟩
    unfold WriteAheadLog.writableRecord at hwritten
    split at hwritten
    · rw [← Option.some.inj hwritten]
    · split at hwritten
      · cases hwritten
      · rename_i hidentity
        rw [← Option.some.inj hwritten]
        exact not_not.mp hidentity

theorem framed_of_mapM {records : List WalRecord} {frames : List (WalRecord × Bytes)}
    (h : records.mapM (WriteAheadLog.writableFrame decoders options) = some frames)
    (hlength : ∀ record ∈ records, ∀ frame,
      WriteAheadLog.writableFrame decoders options record = some frame →
      frame.2.length ≤ maxRecordBytes) :
    (∀ frame ∈ frames, Framed decoders options.volumeIdentity frame) ∧
      frames.map Prod.fst = writtenRecords options records := by
  induction records generalizing frames with
  | nil =>
    obtain rfl : [] = frames := by simpa using h
    exact ⟨by simp, rfl⟩
  | cons record records ih =>
    rw [List.mapM_cons] at h
    simp only [Option.bind_eq_bind, Option.bind_eq_some_iff, Option.pure_def,
      Option.some.injEq] at h
    obtain ⟨frame, hframe, rest, hrest, rfl⟩ := h
    obtain ⟨hfirst, hwritten⟩ :=
      framed_of_writableFrame hframe (hlength record List.mem_cons_self frame hframe)
    obtain ⟨hframes, hrecords⟩ := ih hrest fun other hother =>
      hlength other (List.mem_cons_of_mem _ hother)
    refine ⟨List.forall_mem_cons.mpr ⟨hfirst, hframes⟩, ?_⟩
    rw [List.map_cons, hrecords, writtenRecords, writtenRecords,
      List.filterMap_cons_some hwritten]

/-- Appending admitted frames to a log with nothing left over. -/
theorem Whole.append {s : LogRun} (h : Whole decoders options s)
    {frames : List (WalRecord × Bytes)} {records : List WalRecord}
    (hframes : ∀ frame ∈ frames, Framed decoders options.volumeIdentity frame)
    (hrecords : frames.map Prod.fst = writtenRecords options records)
    (durableFlush : Bool) (course : Course) :
    Sound decoders options (s.acknowledge options records
      (s.log.appendEncoded decoders options (logBytes frames) durableFlush course)) := by
  have hcases := @appendEncoded_cases decoders options s.log (logBytes frames) durableFlush course
  generalize s.log.appendEncoded decoders options (logBytes frames) durableFlush course = outcome
    at hcases
  unfold acknowledge
  rcases hcases with ⟨hsucceeded, hsize, hfile⟩ | ⟨hfailed, hsize, written, hfile⟩ |
    ⟨hfailed, hfile⟩
  · rw [if_pos hsucceeded, ← hrecords]
    exact (h.finished hframes hsize hfile).sound
  · rw [if_neg hfailed]
    exact h.interrupted hframes hsize hfile
  · rw [if_neg hfailed]
    obtain ⟨held, hheld, hsize, hwhole, hsublist⟩ := h
    exact Whole.sound ⟨held, hheld, hsize, hfile.trans hwhole, hsublist⟩

/-- A call that does not write leaves the invariant in place. -/
theorem Sound.unwritten {s : LogRun} (h : Sound decoders options s) {log : WriteAheadLog}
    (hfile : log.file = s.log.file) : Sound decoders options { s with log } := by
  obtain ⟨frames, n, hframes, hsize, hn, hheld, hsublist⟩ := h
  exact ⟨frames, n, hframes, hsize, hn, hfile.trans hheld, hsublist⟩

theorem Sound.reject {s : LogRun} (h : Sound decoders options s) (records : List WalRecord)
    (course : Course) :
    Sound decoders options (s.acknowledge options records (s.log.reject course)) := by
  obtain ⟨hresult, hfile⟩ := file_reject s.log course
  unfold acknowledge
  rw [if_neg hresult]
  exact h.unwritten hfile

/-- Every admissible call keeps the invariant. -/
theorem Sound.step {s : LogRun} (h : Sound decoders options s) (call : LogCall)
    (hadmissible : s.Admissible decoders options call) :
    Sound decoders options (s.step decoders options call) := by
  cases call with
  | append record durableFlush course =>
    have hwhole := h.whole (hadmissible.1 (List.cons_ne_nil _ _))
    change Sound decoders options (s.acknowledge options [record]
      (s.log.appendWithResult decoders options record durableFlush course))
    unfold WriteAheadLog.appendWithResult
    split
    · exact h.reject [record] course
    · rename_i frame hframe
      split
      · exact h.reject [record] course
      · obtain ⟨hframed, hwritten⟩ :=
          framed_of_writableFrame hframe (hadmissible.2 record List.mem_cons_self frame hframe)
        have hrecords : [frame].map Prod.fst = writtenRecords options [record] := by
          rw [writtenRecords, List.filterMap_cons_some hwritten]
          rfl
        have hframes : ∀ other ∈ [frame], Framed decoders options.volumeIdentity other := by
          simpa using hframed
        have happend := hwhole.append hframes hrecords durableFlush course
        have hbytes : logBytes [frame] = frame.2 := by simp
        rwa [hbytes] at happend
  | appendBatch records durableFlush course =>
    change Sound decoders options (s.acknowledge options records
      (s.log.appendBatchWithResult decoders options records durableFlush course))
    unfold WriteAheadLog.appendBatchWithResult
    split
    · rename_i hempty
      subst hempty
      have hunwritten : ∀ outcome : Option AppendResult × WriteAheadLog,
          outcome.2.file = s.log.file →
          Sound decoders options (s.acknowledge options [] outcome) := by
        intro outcome hfile
        have hnothing : s.acknowledged ++ writtenRecords options [] = s.acknowledged :=
          List.append_nil _
        unfold acknowledge
        rw [hnothing, ite_self]
        exact h.unwritten hfile
      split
      · exact hunwritten (none, s.log.closeAppendHandle) rfl
      · exact hunwritten (some .succeeded, s.log) rfl
    · rename_i hnonempty
      have hwhole := h.whole (hadmissible.1 hnonempty)
      split
      · exact h.reject records course
      · rename_i frames hmap
        obtain ⟨hframes, hrecords⟩ := framed_of_mapM hmap hadmissible.2
        split
        · exact h.reject records course
        · exact hwhole.append hframes hrecords durableFlush course
  | readAllWithExclusiveWriterLease =>
    change Sound decoders options
      { s with log := (s.log.readAllWithExclusiveWriterLease decoders options).2 }
    unfold WriteAheadLog.readAllWithExclusiveWriterLease
    split
    · exact h.unwritten rfl
    · rename_i opened hopened
      have hfile := file_ensureAppendHandle hopened
      have hread : opened.readAll decoders options = s.log.readAll decoders options := by
        unfold WriteAheadLog.readAll
        rw [hfile]
      dsimp only
      split
      · exact h.unwritten hfile
      · split
        · have htruncated : ∀ log : WriteAheadLog, log.file =
              opened.file.take (opened.readAll decoders options).completePrefixBytes →
              Sound decoders options { s with log } := by
            intro log hlog
            refine (h.truncate ?_).sound
            rw [hlog, hfile, hread]
          split
          · exact htruncated _ rfl
          · exact htruncated _ rfl
        · exact h.unwritten hfile

/-- The log of the samples. -/
def sampleOptions : Options where
  volumeIdentity := [0x76]

end LogRun

end Wal
end ApfsAccess
