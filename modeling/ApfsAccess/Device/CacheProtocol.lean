import ApfsAccess.Device.ReadCache
import Mathlib.Logic.Function.Basic

/-!
# Readers and writers of one device

The calls of any number of threads to one device, as a step relation.  A step is what a thread
does under one mutex, or one access to the device: `ReadInto` looks into the cache, reads the
device block by block and inserts; `Write` and `WriteBatch` announce themselves, open an epoch,
write, close the epoch and leave.  `write_epoch_mutex_` is held over the whole epoch, so one
epoch is open at a time; what a write shows while it runs is the trace of its body, and
readers may come in between any two of its events.

What the system answers is not known, so reads may fail or fall short and writes may break off.
-/

namespace ApfsAccess
namespace Device

open Format ByteBuffer Storage

/-! ## The calls -/

/-- The aligned start of a read. -/
def readStart (config : Config) (offsetBytes : ℕ) : ℕ :=
  alignDown (offsetBytes + config.baseOffsetBytes) config.logicalBlockSize

/-- The bytes of the window before a read. -/
def readPrefix (config : Config) (offsetBytes : ℕ) : ℕ :=
  offsetBytes + config.baseOffsetBytes - readStart config offsetBytes

/-- The size of the aligned window of a read. -/
def readSize (config : Config) (offsetBytes destinationSize : ℕ) : ℕ :=
  alignUp (readPrefix config offsetBytes + destinationSize) config.logicalBlockSize

/-- Whether `ReadInto` goes on to the cache and the device. -/
def readAdmitted (config : Config) (offsetBytes destinationSize : ℕ) : Bool :=
  destinationSize != 0 && destinationSize ≤ dwordMax &&
    offsetBytes ≤ uint64Max - config.baseOffsetBytes &&
    readSize config offsetBytes destinationSize != 0 &&
    readSize config offsetBytes destinationSize ≤ dwordMax

/-- Whether a window is looked up and kept. -/
def cacheable (setup : CacheSetup) (offsetBytes destinationSize : ℕ) : Bool :=
  setup.readCacheEnabled &&
    readSize setup.config offsetBytes destinationSize ≤ readCacheMaxWindowBytes

/-- What `ReadInto` returns for the bytes that the device gave for its window. -/
def readResult (config : Config) (offsetBytes destinationSize : ℕ) (bytes : Bytes) :
    Option Bytes :=
  if bytes.length < readPrefix config offsetBytes then none
  else some (slice bytes (readPrefix config offsetBytes)
    (min destinationSize (bytes.length - readPrefix config offsetBytes)))

/-- A call that writes. -/
inductive WriteCall where
  | write (span : WriteSpan)
  | writeBatch (writes : List WriteSpan)

/-- What is done under one epoch. -/
inductive WriteJob where
  | write (span : WriteSpan)
  | batch (writes : List WriteSpan)

/-- The spans that the epoch of a job is told of. -/
def WriteJob.spans : WriteJob → List WriteSpan
  | .write span => [span]
  | .batch writes => writes

/-- The body of a job, under the write mutex. -/
def WriteJob.run (config : Config) (os : Os) (memory : ℕ → UInt8) : WriteJob → Io → Bool × Io
  | .write span => writeOne config os memory span
  | .batch writes => writeBatch config os memory writes

/-- The jobs of a call, or the answer it gives at once.  In a fault mode a batch is one `Write`
for each span. -/
def WriteCall.jobs (config : Config) : WriteCall → Except Bool (List WriteJob)
  | .write span =>
    if config.stableReadOnlyImage then .error false
    else if span.sizeBytes = 0 then .error true
    else if span.refused config then .error false
    else .ok [.write span]
  | .writeBatch writes =>
    let nonEmpty := writes.filter fun write => write.sizeBytes != 0
    if config.stableReadOnlyImage then .error false
    else if nonEmpty.any (WriteSpan.refused config) then .error false
    else if nonEmpty = [] then .error true
    else if config.faultMode.isSome then .ok (nonEmpty.map .write)
    else .ok [.batch writes]

/-! ## Threads -/

/-- Where a thread is.  A read carries its request; `snapshot` is the generation it saw at its
lookup, and is missing when its window is not for the cache. -/
inductive Phase where
  | idle
  | readCalled (offsetBytes destinationSize : ℕ)
  | reading (offsetBytes destinationSize : ℕ) (snapshot : Option ℕ) (bytes : Bytes)
  | inserting (offsetBytes destinationSize snapshot : ℕ) (bytes : Bytes)
  | readReturned (offsetBytes destinationSize : ℕ) (result : Option Bytes)
  | writeCalled (job : WriteJob) (rest : List WriteJob)
  | admitted (job : WriteJob) (rest : List WriteJob)
  | inEpoch (job : WriteJob) (rest : List WriteJob)
  | writing (events : List DeviceEvent) (answer : Bool) (rest : List WriteJob)
  | epochEnded (answer : Bool) (rest : List WriteJob)
  | writeReturned (answer : Bool)

/-- Whether a thread holds the epoch mutex. -/
def Phase.holdsEpoch : Phase → Bool
  | .inEpoch _ _ => true
  | .writing _ _ _ => true
  | _ => false

/-- The state of the device and of all threads. -/
structure Machine (Thread : Type*) where
  disk : Disk UInt8
  cache : ReadCache
  epochHolder : Option Thread
  phase : Thread → Phase

variable {Thread : Type*} [DecidableEq Thread]

namespace Machine

/-- A thread goes on to another phase. -/
def goto (machine : Machine Thread) (thread : Thread) (phase : Phase) : Machine Thread :=
  { machine with phase := Function.update machine.phase thread phase }

/-- The lookup of `ReadInto`, under the cache mutex. -/
def lookup (config : Config) (machine : Machine Thread) (thread : Thread)
    (offsetBytes destinationSize : ℕ) : Machine Thread :=
  if machine.cache.writeAdmissions = 0 ∧ machine.cache.generation % 2 = 0 then
    match machine.cache.hit (readStart config offsetBytes)
        (readSize config offsetBytes destinationSize) with
    | some (entry, cachedOffset) =>
      { machine with cache := machine.cache.touch entry }.goto thread
        (.readReturned offsetBytes destinationSize (some (slice entry.bytes
          (cachedOffset + readPrefix config offsetBytes) destinationSize)))
    | none => machine.goto thread
        (.reading offsetBytes destinationSize (some machine.cache.generation) [])
  else machine.goto thread
    (.reading offsetBytes destinationSize (some machine.cache.generation) [])

/-- The end of the device read of `ReadInto`. -/
def finishRead (config : Config) (machine : Machine Thread) (thread : Thread)
    (offsetBytes destinationSize : ℕ) (snapshot : Option ℕ) (bytes : Bytes) : Machine Thread :=
  match readResult config offsetBytes destinationSize bytes, snapshot with
  | none, _ => machine.goto thread (.readReturned offsetBytes destinationSize none)
  | some result, none =>
    machine.goto thread (.readReturned offsetBytes destinationSize (some result))
  | some result, some generation =>
    if bytes.length = readSize config offsetBytes destinationSize then
      machine.goto thread (.inserting offsetBytes destinationSize generation bytes)
    else machine.goto thread (.readReturned offsetBytes destinationSize (some result))

/-- The insertion of `ReadInto`, under the cache mutex. -/
def insert (setup : CacheSetup) (machine : Machine Thread) (thread : Thread)
    (offsetBytes destinationSize snapshot : ℕ) (bytes : Bytes) : Machine Thread :=
  let returned := Phase.readReturned offsetBytes destinationSize
    (readResult setup.config offsetBytes destinationSize bytes)
  if snapshot ≠ machine.cache.generation ∨ machine.cache.writeAdmissions ≠ 0 ∨
      snapshot % 2 ≠ 0 then machine.goto thread returned
  else
    { machine with
      cache := insertReadCacheEntry setup (readStart setup.config offsetBytes)
        (readSize setup.config offsetBytes destinationSize) bytes machine.cache }.goto thread
      returned

/-- What an event of a write does to the device. -/
def observe (setup : CacheSetup) (machine : Machine Thread) : DeviceEvent → Machine Thread
  | .invalidated offset size =>
    if setup.readCacheEnabled = false then machine
    else { machine with cache := invalidateReadCacheRange offset size machine.cache }
  | .landed _ _ disk => { machine with disk }

end Machine

/-- Whether the next phase of a call that writes is another job. -/
def afterJob (answer : Bool) (rest : List WriteJob) : Phase :=
  match answer, rest with
  | true, job :: rest => .writeCalled job rest
  | _, _ => .writeReturned answer

/-- **The steps.** -/
inductive Step (setup : CacheSetup) : Machine Thread → Machine Thread → Prop where
  /-- A thread calls `ReadInto`. -/
  | readCall {machine : Machine Thread} {thread : Thread} (offsetBytes destinationSize : ℕ)
      (hphase : machine.phase thread = .idle) :
      Step setup machine (machine.goto thread (.readCalled offsetBytes destinationSize))
  /-- A read of nothing. -/
  | readEmpty {machine : Machine Thread} {thread : Thread} {offsetBytes : ℕ}
      (hphase : machine.phase thread = .readCalled offsetBytes 0) :
      Step setup machine (machine.goto thread (.readReturned offsetBytes 0 (some [])))
  /-- A read that is refused, or that finds no handle. -/
  | readRefused {machine : Machine Thread} {thread : Thread} {offsetBytes destinationSize : ℕ}
      (hphase : machine.phase thread = .readCalled offsetBytes destinationSize)
      (hsize : destinationSize ≠ 0) :
      Step setup machine (machine.goto thread (.readReturned offsetBytes destinationSize none))
  | lookup {machine : Machine Thread} {thread : Thread} {offsetBytes destinationSize : ℕ}
      (hphase : machine.phase thread = .readCalled offsetBytes destinationSize)
      (hadmitted : readAdmitted setup.config offsetBytes destinationSize = true)
      (hcacheable : cacheable setup offsetBytes destinationSize = true) :
      Step setup machine (machine.lookup setup.config thread offsetBytes destinationSize)
  /-- A window that is not for the cache goes straight to the device. -/
  | uncached {machine : Machine Thread} {thread : Thread} {offsetBytes destinationSize : ℕ}
      (hphase : machine.phase thread = .readCalled offsetBytes destinationSize)
      (hadmitted : readAdmitted setup.config offsetBytes destinationSize = true)
      (hcacheable : cacheable setup offsetBytes destinationSize = false) :
      Step setup machine (machine.goto thread (.reading offsetBytes destinationSize none []))
  /-- The device gives the next block of the window, or what is left of it at the end. -/
  | readBlock {machine : Machine Thread} {thread : Thread} {offsetBytes destinationSize : ℕ}
      {snapshot : Option ℕ} {bytes : Bytes} {count : ℕ}
      (hphase : machine.phase thread = .reading offsetBytes destinationSize snapshot bytes)
      (hmore : bytes.length < readSize setup.config offsetBytes destinationSize)
      (hwhole : bytes.length % setup.config.logicalBlockSize = 0)
      (hcount : count = min setup.config.logicalBlockSize
        (machine.disk.sizeBytes - (readStart setup.config offsetBytes + bytes.length)))
      (hpos : 0 < count) :
      Step setup machine (machine.goto thread (.reading offsetBytes destinationSize snapshot
        (bytes ++ machine.disk.contents (readStart setup.config offsetBytes + bytes.length) count)))
  | readFailed {machine : Machine Thread} {thread : Thread} {offsetBytes destinationSize : ℕ}
      {snapshot : Option ℕ} {bytes : Bytes}
      (hphase : machine.phase thread = .reading offsetBytes destinationSize snapshot bytes) :
      Step setup machine (machine.goto thread (.readReturned offsetBytes destinationSize none))
  | readFinished {machine : Machine Thread} {thread : Thread} {offsetBytes destinationSize : ℕ}
      {snapshot : Option ℕ} {bytes : Bytes}
      (hphase : machine.phase thread = .reading offsetBytes destinationSize snapshot bytes) :
      Step setup machine
        (machine.finishRead setup.config thread offsetBytes destinationSize snapshot bytes)
  | insert {machine : Machine Thread} {thread : Thread}
      {offsetBytes destinationSize snapshot : ℕ} {bytes : Bytes}
      (hphase : machine.phase thread = .inserting offsetBytes destinationSize snapshot bytes) :
      Step setup machine (machine.insert setup thread offsetBytes destinationSize snapshot bytes)
  | readReturn {machine : Machine Thread} {thread : Thread} {offsetBytes destinationSize : ℕ}
      {result : Option Bytes}
      (hphase : machine.phase thread = .readReturned offsetBytes destinationSize result) :
      Step setup machine (machine.goto thread .idle)
  /-- A call that writes, and answers at once. -/
  | writeRefused {machine : Machine Thread} {thread : Thread} (call : WriteCall) {answer : Bool}
      (hphase : machine.phase thread = .idle) (hjobs : call.jobs setup.config = .error answer) :
      Step setup machine (machine.goto thread (.writeReturned answer))
  | writeCall {machine : Machine Thread} {thread : Thread} (call : WriteCall) {job : WriteJob}
      {rest : List WriteJob} (hphase : machine.phase thread = .idle)
      (hjobs : call.jobs setup.config = .ok (job :: rest)) :
      Step setup machine (machine.goto thread (.writeCalled job rest))
  | announce {machine : Machine Thread} {thread : Thread} {job : WriteJob} {rest : List WriteJob}
      (hphase : machine.phase thread = .writeCalled job rest) :
      Step setup machine ({ machine with
        cache := beginWriteAdmission setup machine.cache }.goto thread (.admitted job rest))
  | epochBegin {machine : Machine Thread} {thread : Thread} {job : WriteJob}
      {rest : List WriteJob} (hphase : machine.phase thread = .admitted job rest)
      (hfree : machine.epochHolder = none) :
      Step setup machine ({ machine with
        cache := beginWriteEpoch setup job.spans machine.cache
        epochHolder := some thread }.goto thread (.inEpoch job rest))
  /-- The body runs on the disk as it is; its events are seen one by one. -/
  | write {machine : Machine Thread} {thread : Thread} {job : WriteJob} {rest : List WriteJob}
      (os : Os) (memory : ℕ → UInt8) (io : Io)
      (hphase : machine.phase thread = .inEpoch job rest) (hdisk : io.disk = machine.disk)
      (htrace : io.trace = []) :
      Step setup machine (machine.goto thread
        (.writing (job.run setup.config os memory io).2.trace
          (job.run setup.config os memory io).1 rest))
  | event {machine : Machine Thread} {thread : Thread} {event : DeviceEvent}
      {events : List DeviceEvent} {answer : Bool} {rest : List WriteJob}
      (hphase : machine.phase thread = .writing (event :: events) answer rest) :
      Step setup machine
        ((machine.observe setup event).goto thread (.writing events answer rest))
  | epochEnd {machine : Machine Thread} {thread : Thread} {answer : Bool} {rest : List WriteJob}
      (hphase : machine.phase thread = .writing [] answer rest) :
      Step setup machine ({ machine with
        cache := endWriteEpoch setup machine.cache
        epochHolder := none }.goto thread (.epochEnded answer rest))
  | leave {machine : Machine Thread} {thread : Thread} {answer : Bool} {rest : List WriteJob}
      (hphase : machine.phase thread = .epochEnded answer rest) :
      Step setup machine ({ machine with
        cache := endWriteAdmission setup machine.cache }.goto thread (afterJob answer rest))
  | writeReturn {machine : Machine Thread} {thread : Thread} {answer : Bool}
      (hphase : machine.phase thread = .writeReturned answer) :
      Step setup machine (machine.goto thread .idle)
  /-- `InvalidateReadCache`, called from anywhere. -/
  | invalidate {machine : Machine Thread} :
      Step setup machine { machine with cache := invalidateReadCache setup machine.cache }
  /-- The hash table may reorder its entries. -/
  | rehash {machine : Machine Thread} {entries : List ReadCacheEntry}
      (hperm : entries.Perm machine.cache.entries) :
      Step setup machine { machine with cache := { machine.cache with entries } }

/-- A device that was just opened: nothing is cached and no call is in progress. -/
structure Opened (machine : Machine Thread) : Prop where
  cache : machine.cache = ReadCache.empty
  epochHolder : machine.epochHolder = none
  phase : ∀ thread, machine.phase thread = .idle

/-- **A run**: the state of the machine at every moment.  At a moment at which no thread moves
the state stays. -/
structure CacheRun (setup : CacheSetup) (Thread : Type*) [DecidableEq Thread] where
  state : ℕ → Machine Thread
  opened : Opened (state 0)
  next : ∀ moment, Step setup (state moment) (state (moment + 1)) ∨
    state (moment + 1) = state moment

end Device
end ApfsAccess
