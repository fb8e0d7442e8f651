import ApfsAccess.ProtectedWal.Decoding

/-!
# Compaction of a protected log

Compaction keeps whole transactions, opens the frames it keeps and seals them again behind a checkpoint
of the log they come from.

* `mem_keptRecords` : retention is by transaction.
* `protectedRetention_decodes` : the replacement decodes to the records that were kept, and can be
  appended to.
-/

namespace ApfsAccess
namespace ProtectedWal

open ByteBuffer Format
open Wal (ReadStatus WalRecord WalReadLimits appendU64 length_appendU64 encodeWalRecord)

/-! ## Heads -/

/-- The sequence number of the last record. -/
def lastSequence (records : List WalRecord) : UInt64 :=
  (records.getLast?.map WalRecord.sequence).getD 0

section Compaction

variable (o : Options)

/-- `ProtectedHeadOf`, for a log that was decoded. -/
def protectedHeadOf (bytes : Bytes) (records : List WalRecord) : Option ProtectedHead :=
  let head : ProtectedHead :=
    { sha256 := o.sha256 bytes
      bytes := UInt64.ofNat bytes.length
      records := UInt64.ofNat records.length
      lastSequence := lastSequence records }
  if protectedHeadValid head false then some head else none

/-- `ReadProtected`, on the bytes of the log. -/
def readProtected (bytes : Bytes) : Except ReadStatus DecodeState :=
  decodeProtectedWal o { o.readLimits with bytes := min o.readLimits.bytes o.maxBytes }
    o.maxAllocationBytes {} bytes

/-! ## Retention -/

/-- The transaction of the record is kept on account of the record. -/
def retains (floor maximum : UInt64) (record : WalRecord) : Bool :=
  record.transactionId == 0 || decide (floor ≤ record.sequence) ||
    record.state != Wal.stateCode .prepared || record.operation == .transactionMarker ||
    record.operation == .durabilityWatermark || record.transactionId == maximum

/-- `maximum_id`. -/
def maximumId (records : List WalRecord) : UInt64 :=
  records.foldl (fun maximum record => max maximum record.transactionId) 0

/-- The transactions that are kept; the last record keeps its own. -/
def retainedTransactions (floor maximum : UInt64) : List WalRecord → List UInt64
  | [] => []
  | record :: rest =>
    if retains floor maximum record ∨ rest = [] then
      record.transactionId :: retainedTransactions floor maximum rest
    else retainedTransactions floor maximum rest

/-- `ProtectedRetention`. -/
def protectedRetention (records : List WalRecord) (floor : UInt64) : List Bool :=
  let transactions := retainedTransactions floor (maximumId records) records
  records.map fun record => transactions.contains record.transactionId

/-- The elements that are kept. -/
def keptOf {α : Type} (keep : List Bool) (xs : List α) : List α :=
  ((keep.zip xs).filter Prod.fst).map Prod.snd

/-! ## Walking over the frames -/

section Walk

variable {α : Type} (f : α → Bytes → Option α)

/-- The loop of `ProtectedWalkKept`. -/
def walkFrames : ℕ → ProtectedPosition → List (Bool × WalRecord) → Bytes → α → Option α
  | 0, _, pairs, _, result => if pairs = [] then some result else none
  | fuel + 1, at', pairs, left, result =>
    if left = [] then if pairs = [] then some result else none
    else if left.length < 80 then none
    else
      let length := leValue (slice left 16 4)
      if length < 80 ∨ left.length < length then none
      else
        let frame := left.take length
        if at'.ordinal = 0 then
          walkFrames fuel (protectedAdvance o at' frame at'.sequence) pairs (left.drop length) result
        else
          match pairs with
          | [] => none
          | (keep, record) :: pairs =>
            let next := if keep then
                match openAt o at' frame with
                | .error _ => none
                | .ok plain => f result plain
              else some result
            match next with
            | none => none
            | some result =>
              walkFrames fuel (protectedAdvance o at' frame record.sequence) pairs (left.drop length)
                result

/-- `ProtectedWalkKept`. -/
def protectedWalkKept (bytes : Bytes) (records : List WalRecord) (keep : List Bool) (init : α) :
    Option α :=
  walkFrames o f bytes.length { offset := protectedWalHeader.length } (keep.zip records)
    (bytes.drop protectedWalHeader.length) init

end Walk

/-! ## Sealing -/

/-- The epoch, the position behind the last frame, and the frames so far. -/
structure Sealing where
  epoch : Epoch o.slot o.sourceBinding
  position : ProtectedPosition
  encrypted : Bytes

/-- `seal`: one more frame. -/
def sealFrame (s : Sealing o) (plain : Bytes) (sequence : UInt64) : Option (Sealing o) :=
  match sealRecord o.gcm s.epoch (protectedContext o s.position) plain with
  | (none, _) => none
  | (some frame, epoch) =>
    some
      { epoch
        position := protectedAdvance o s.position frame sequence
        encrypted := s.encrypted ++ frame }

/-- The walk that seals: `index` stands before the next record that is kept, `pairs` is what is left
from there on. -/
def sealNext (s : Sealing o × List (Bool × WalRecord)) (plain : Bytes) :
    Option (Sealing o × List (Bool × WalRecord)) :=
  match s.2.dropWhile fun pair => !pair.1 with
  | [] => none
  | (_, record) :: pairs => (sealFrame o s.1 plain record.sequence).map (·, pairs)

/-- What `CompactProtectedWithResult` seals, from the log it has read. -/
def sealReplacement (floor : UInt64) (expected : ProtectedHead) (original : Bytes)
    (records : List WalRecord) (epoch : Epoch o.slot o.sourceBinding) :
    Option (ProtectedCheckpoint × Bytes) :=
  let keep := protectedRetention records floor
  match protectedWalkKept o (fun digest plain => some (protectedSemanticStep o digest plain)) original
      records keep (protectedSemanticStart o) with
  | none => none
  | some semantic =>
    let proof : ProtectedCheckpoint :=
      { previous := expected, floor, retained := UInt64.ofNat (keep.count true), semantic }
    match protectedWalkKept o (fun size plain => some (size + (plain.length + 80))) original records
        keep (16 + checkpointPlainBytes + 80) with
    | none => none
    | some size =>
      if o.maxBytes < size ∨ o.maxAllocationBytes / 8 < original.length + size ∨
          (o.maxAllocationBytes - (original.length + size) * 8) / (2 * o.recordBytes + 64) <
            records.length + keep.count true then none
      else
        match sealFrame o ⟨epoch, { offset := 16 }, protectedWalHeader⟩
            (protectedCheckpointEncode proof) 0 with
        | none => none
        | some anchored =>
          match protectedWalkKept o (sealNext o) original records keep
              (anchored, keep.zip records) with
          | none => none
          | some (s, _) => if s.encrypted.length ≠ size then none else some (proof, s.encrypted)

/-- `CompactProtectedWithResult`, up to where the replacement is written. -/
def compactProtected (floor : UInt64) (expected : ProtectedHead) (original : Bytes)
    (epoch : Epoch o.slot o.sourceBinding) : Option (ProtectedCheckpoint × Bytes) :=
  if protectedHeadValid expected false = false ∨ floor = 0 ∨ expected.lastSequence + 1 < floor ∨
      protectedConfigValid o = false then none
  else
    match readProtected o original with
    | .error _ => none
    | .ok before =>
      if o.maxBytes < original.length ∨ protectedHeadOf o original before.records ≠ some expected then
        none
      else sealReplacement o floor expected original before.records epoch

/-- The checks `AppendProtected` makes on its records, and their plaintexts. -/
def encodeBatch : UInt64 → List WalRecord → Option (List (Bytes × UInt64))
  | _, [] => some []
  | sequence, record :: rest =>
    if (record.volumeIdentity ≠ [] ∧ record.volumeIdentity ≠ o.volumeIdentity) ∨
        record.sequence = 0 ∨ record.sequence = 0xffffffffffffffff ∨ record.sequence ≤ sequence ∨
        record.operation = .compactionIndex ∨ record.state < Wal.stateCode .prepared ∨
        Wal.stateCode .cleanupArmed < record.state then none
    else
      match encodeWalRecord o.decoders { record with volumeIdentity := o.volumeIdentity } 0,
          encodeBatch record.sequence rest with
      | some plain, some more => some ((plain, record.sequence) :: more)
      | _, _ => none

/-- `AppendProtected`, up to where the frames are written, on a log that is there. -/
def appendProtected (at' : ProtectedPosition) (epoch : Epoch o.slot o.sourceBinding)
    (records : List WalRecord) : Option (Sealing o) :=
  if 8 < records.length then none
  else
    match encodeBatch o 0 records with
    | none => none
    | some batch =>
      let added := (batch.map fun plain => plain.1.length + 80).sum
      let count := at'.ordinal - 1
      if (∃ record ∈ records.head?, record.sequence ≤ at'.sequence) ∨ o.maxBytes < at'.offset ∨
          o.maxBytes - at'.offset < added ∨ o.readLimits.records < count ∨
          o.readLimits.records - count < records.length ∨
          o.maxAllocationBytes / 4 < at'.offset + added ∨
          (o.maxAllocationBytes - (at'.offset + added) * 4) / (2 * o.recordBytes + 4) <
            count + records.length then none
      else batch.foldlM (fun s plain => sealFrame o s plain.1 plain.2) ⟨epoch, at', []⟩

end Compaction

/-! ## What retention keeps -/

section Retention

variable {records : List WalRecord} {floor : UInt64}

/-- The records that are kept. -/
def keptRecords (records : List WalRecord) (floor : UInt64) : List WalRecord :=
  keptOf (protectedRetention records floor) records

theorem mem_retainedTransactions_of_retains {maximum : UInt64} {record : WalRecord}
    (hmem : record ∈ records) (h : retains floor maximum record = true) :
    record.transactionId ∈ retainedTransactions floor maximum records := by
  induction records with
  | nil => cases hmem
  | cons first rest ih =>
    rw [retainedTransactions]
    rcases List.mem_cons.mp hmem with rfl | hrest
    · rw [if_pos (Or.inl h)]
      exact List.mem_cons_self
    · split_ifs
      · exact List.mem_cons_of_mem _ (ih hrest)
      · exact ih hrest

theorem mem_retainedTransactions_of_last {maximum : UInt64} {record : WalRecord}
    (h : records.getLast? = some record) :
    record.transactionId ∈ retainedTransactions floor maximum records := by
  induction records with
  | nil => cases h
  | cons first rest ih =>
    rw [retainedTransactions]
    by_cases hnil : rest = []
    · subst hnil
      obtain rfl := Option.some.inj h
      rw [if_pos (Or.inr rfl)]
      exact List.mem_cons_self
    · have hlast : rest.getLast? = some record := by
        rw [← h, List.getLast?_cons_of_ne_nil hnil]
      split_ifs
      · exact List.mem_cons_of_mem _ (ih hlast)
      · exact ih hlast

/-- What the filter of a column keeps. -/
theorem keptOf_map {α β : Type} (p : β → Bool) (f : α → β) (xs : List α) :
    keptOf (xs.map fun x => p (f x)) xs = xs.filter fun x => p (f x) := by
  unfold keptOf
  induction xs with
  | nil => rfl
  | cons x xs ih =>
    simp only [List.map_cons, List.zip_cons_cons, List.filter_cons]
    split_ifs with h
    · rw [List.map_cons, ih]
    · exact ih

/-- **Retention is by transaction.** -/
theorem mem_keptRecords {record : WalRecord} :
    record ∈ keptRecords records floor ↔ record ∈ records ∧
      record.transactionId ∈ retainedTransactions floor (maximumId records) records := by
  unfold keptRecords protectedRetention
  rw [keptOf_map (fun id => (retainedTransactions floor (maximumId records) records).contains id)
    WalRecord.transactionId, List.mem_filter, List.contains_iff_mem]

theorem max_le_iff {a b bound : UInt64} : max a b ≤ bound ↔ a ≤ bound ∧ b ≤ bound := by
  show (if a ≤ b then b else a) ≤ bound ↔ _
  split_ifs with h
  · exact ⟨fun hb => ⟨UInt64.le_trans h hb, hb⟩, And.right⟩
  · exact ⟨fun ha => ⟨ha, UInt64.le_trans (UInt64.le_of_lt (UInt64.not_le.mp h)) ha⟩, And.left⟩

/-- The largest transaction is bounded exactly by what bounds all of them. -/
theorem maximumId_le_iff {bound : UInt64} :
    maximumId records ≤ bound ↔ ∀ record ∈ records, record.transactionId ≤ bound := by
  have hfold : ∀ (xs : List WalRecord) (start : UInt64),
      xs.foldl (fun maximum record => max maximum record.transactionId) start ≤ bound ↔
        start ≤ bound ∧ ∀ x ∈ xs, x.transactionId ≤ bound := by
    intro xs
    induction xs with
    | nil => exact fun start => ⟨fun h => ⟨h, nofun⟩, And.left⟩
    | cons x xs ih =>
      intro start
      rw [List.foldl_cons, ih, max_le_iff, List.forall_mem_cons, and_assoc]
  rw [maximumId, hfold]
  exact and_iff_right (UInt64.le_iff_toNat_le.mpr (Nat.zero_le _))

/-- **A record at or above the floor is kept**, and so are the last record and one of the largest
transaction. -/
theorem mem_keptRecords_of {record : WalRecord} (hmem : record ∈ records)
    (h : floor ≤ record.sequence ∨ records.getLast? = some record ∨
      ∀ other ∈ records, other.transactionId ≤ record.transactionId) :
    record ∈ keptRecords records floor := by
  refine mem_keptRecords.mpr ⟨hmem, ?_⟩
  rcases h with hfloor | hlast | hlargest
  · refine mem_retainedTransactions_of_retains hmem ?_
    simp [retains, hfloor]
  · exact mem_retainedTransactions_of_last hlast
  · have hmaximum : record.transactionId = maximumId records := by
      refine UInt64.le_antisymm ?_ (maximumId_le_iff.mpr hlargest)
      exact maximumId_le_iff.mp UInt64.le_rfl record hmem
    refine mem_retainedTransactions_of_retains hmem ?_
    simp [retains, ← hmaximum]

end Retention

/-! ## Walking over the items of a log -/

section Items

variable {o : Options} {items : List Item} {keep : WalRecord → Bool}

/-- The column of a log with which of its records are kept. -/
def marked (keep : WalRecord → Bool) (items : List Item) : List (Bool × WalRecord) :=
  items.map fun item => (keep item.record, item.record)

/-- The items that are kept. -/
def keptItems (keep : WalRecord → Bool) (items : List Item) : List Item :=
  items.filter fun item => keep item.record

theorem zip_recordsOf : ((recordsOf items).map keep).zip (recordsOf items) = marked keep items := by
  induction items with
  | nil => rfl
  | cons item items ih => exact congrArg _ ih

/-- **The walk calls on the plaintexts that are kept**, one after another. -/
theorem walkFrames_items {α : Type} {f : α → Bytes → Option α} {at' : ProtectedPosition} {fuel : ℕ}
    {init : α} (hchain : Chain o at' items) (hordinal : at'.ordinal ≠ 0)
    (hfuel : (bytesOf items).length ≤ fuel) :
    walkFrames o f fuel at' (marked keep items) (bytesOf items) init =
      ((keptItems keep items).map Item.plain).foldlM f init := by
  induction items generalizing at' fuel init with
  | nil =>
    cases fuel with
    | zero => rfl
    | succ fuel =>
      show (if ([] : Bytes) = [] then _ else _) = some init
      rw [if_pos rfl]
      rfl
  | cons item items ih =>
    obtain ⟨hframed, hopen, -, hnext⟩ := hchain
    have hbytes : bytesOf (item :: items) = item.frame ++ bytesOf items := rfl
    have hlong := hframed.le_length
    rw [hbytes, List.length_append] at hfuel
    match fuel with
    | 0 => omega
    | fuel + 1 =>
      have hne : item.frame ++ bytesOf items ≠ [] := by
        intro hnil
        rw [(List.append_eq_nil_iff.mp hnil).1, List.length_nil] at hlong
        omega
      have hlength : leValue (slice (item.frame ++ bytesOf items) 16 4) = item.frame.length := by
        rw [slice_append_left (by omega), hframed.length]
      have hwalk : ∀ result, walkFrames o f fuel
          (protectedAdvance o at' item.frame item.record.sequence) (marked keep items)
          (bytesOf items) result = ((keptItems keep items).map Item.plain).foldlM f result :=
        fun result => ih hnext (Nat.succ_ne_zero _) (by omega)
      have hmarked : marked keep (item :: items) =
        (keep item.record, item.record) :: marked keep items := rfl
      rw [hbytes, hmarked, walkFrames, if_neg hne, if_neg (by rw [List.length_append]; omega)]
      dsimp only
      rw [hlength, if_neg (by rw [List.length_append]; omega), List.take_left, List.drop_left,
        if_neg hordinal, hopen, keptItems, List.filter_cons]
      dsimp only
      by_cases hkeep : keep item.record = true
      · rw [if_pos hkeep, if_pos hkeep, List.map_cons, List.foldlM_cons]
        match f init item.plain with
        | none => rfl
        | some result => exact hwalk result
      · rw [if_neg hkeep, if_neg hkeep]
        exact hwalk init

/-- The walk over a whole log. -/
theorem protectedWalkKept_logOf {α : Type} {f : α → Bytes → Option α} {anchor : Bytes} {init : α}
    (hframed : Framed anchor) (hchain : Chain o (afterAnchor o anchor) items) :
    protectedWalkKept o f (logOf anchor items) (recordsOf items) ((recordsOf items).map keep) init =
      ((keptItems keep items).map Item.plain).foldlM f init := by
  have hdrop : (logOf anchor items).drop protectedWalHeader.length = anchor ++ bytesOf items :=
    List.drop_left
  have hlong := hframed.le_length
  have hlength : (logOf anchor items).length = 16 + (anchor ++ bytesOf items).length :=
    List.length_append
  rw [List.length_append] at hlength
  have hpositive : (logOf anchor items).length ≠ 0 := by omega
  obtain ⟨fuel, hfuel⟩ := Nat.exists_eq_succ_of_ne_zero hpositive
  have hne : anchor ++ bytesOf items ≠ [] := by
    intro hnil
    rw [(List.append_eq_nil_iff.mp hnil).1, List.length_nil] at hlong
    omega
  have hsize : leValue (slice (anchor ++ bytesOf items) 16 4) = anchor.length := by
    rw [slice_append_left (by omega), hframed.length]
  rw [protectedWalkKept, hdrop, hfuel, zip_recordsOf, walkFrames, if_neg hne,
    if_neg (by rw [List.length_append]; omega)]
  dsimp only
  rw [hsize, if_neg (by rw [List.length_append]; omega), if_pos rfl, List.take_left, List.drop_left]
  exact walkFrames_items hchain (Nat.succ_ne_zero _) (by omega)

/-! ## Sealing items -/

/-- Seal plaintexts with their sequence numbers, one after another. -/
def sealAll (o : Options) (s : Sealing o) (contents : List (Bytes × UInt64)) : Option (Sealing o) :=
  contents.foldlM (fun s plain => sealFrame o s plain.1 plain.2) s

/-- The plaintexts and the sequence numbers of records. -/
def sequenced (contents : List (Bytes × WalRecord)) : List (Bytes × UInt64) :=
  contents.map fun content => (content.1, content.2.sequence)

/-- **The walk that seals gives each frame the sequence number of its record.** -/
theorem foldlM_sealNext {s : Sealing o} :
    (((keptItems keep items).map Item.plain).foldlM (sealNext o) (s, marked keep items)).map
        Prod.fst =
      sealAll o s (sequenced ((keptItems keep items).map Item.content)) := by
  induction items generalizing s with
  | nil => rfl
  | cons item items ih =>
    have hmarked : marked keep (item :: items) =
      (keep item.record, item.record) :: marked keep items := rfl
    rw [hmarked, keptItems, List.filter_cons]
    by_cases hkeep : keep item.record = true
    · rw [if_pos hkeep, hkeep, List.map_cons, List.map_cons, List.foldlM_cons]
      have hnext : sealNext o (s, (true, item.record) :: marked keep items) item.plain =
        (sealFrame o s item.plain item.record.sequence).map (·, marked keep items) := rfl
      rw [hnext]
      show _ = (sealFrame o s item.plain item.record.sequence).bind _
      match sealFrame o s item.plain item.record.sequence with
      | none => rfl
      | some next => exact ih
    · have hrest := @ih s
      rw [keptItems] at hrest
      rw [if_neg hkeep, Bool.eq_false_of_not_eq_true hkeep, ← hrest]
      -- the walk skips the pair before it seals the next frame
      generalize (items.filter fun item => keep item.record).map Item.plain = plains
      cases plains with
      | nil => rfl
      | cons plain plains => rfl

/-- What one call of `seal` gives. -/
theorem sealFrame_eq_some (hgcm : o.gcm.Inverse) {s next : Sealing o} {plain : Bytes}
    {sequence : UInt64} (h : sealFrame o s plain sequence = some next) :
    ∃ frame, Framed frame ∧ openAt o s.position frame = .ok plain ∧
      frame.length = plain.length + 80 ∧ next.encrypted = s.encrypted ++ frame ∧
      next.position = protectedAdvance o s.position frame sequence := by
  unfold sealFrame at h
  match hseal : sealRecord o.gcm s.epoch (protectedContext o s.position) plain with
  | (none, _) =>
    rw [hseal] at h
    cases h
  | (some frame, epoch) =>
    rw [hseal] at h
    obtain rfl := Option.some.inj h
    have hsome : (sealRecord o.gcm s.epoch (protectedContext o s.position) plain).1 = some frame := by
      rw [hseal]
    obtain ⟨hlength, hshort, hmagic, hversion, hheader, htotal⟩ := sealRecord_header hgcm hsome []
    rw [List.append_nil] at hmagic hversion hheader htotal
    exact ⟨frame, ⟨by omega, hshort, hmagic, hversion, hheader, htotal⟩,
      unsealRecord_sealRecord hgcm hsome, hlength, rfl, rfl⟩

/-- **What was sealed is a chain** that holds what was sealed. -/
theorem exists_chain_of_sealAll (hgcm : o.gcm.Inverse) {s final : Sealing o}
    {contents : List (Bytes × WalRecord)} (hread : Readable o s.position.sequence contents)
    (h : sealAll o s (sequenced contents) = some final) :
    ∃ items, items.map Item.content = contents ∧ Chain o s.position items ∧
      final.encrypted = s.encrypted ++ bytesOf items ∧
      final.position = positionAfter o s.position items ∧
      (bytesOf items).length = (contents.map fun content => content.1.length + 80).sum := by
  induction contents generalizing s with
  | nil =>
    obtain rfl := Option.some.inj h
    exact ⟨[], rfl, trivial, (List.append_nil _).symm, rfl, rfl⟩
  | cons content contents ih =>
    obtain ⟨plain, record⟩ := content
    obtain ⟨next, hnext, hrest⟩ := Option.bind_eq_some_iff.mp
      (show (sealFrame o s plain record.sequence).bind
        (fun next => sealAll o next (sequenced contents)) = some final from h)
    obtain ⟨frame, hframed, hopen, hlength, hencrypted, hposition⟩ := sealFrame_eq_some hgcm hnext
    obtain ⟨items, hcontent, hchain, hfinal, hafter, hsum⟩ :=
      ih (by rw [hposition]; exact hread.2) hrest
    refine ⟨⟨frame, plain, record⟩ :: items, ?_, ⟨hframed, hopen, hread.1, ?_⟩, ?_, ?_, ?_⟩
    · rw [List.map_cons, hcontent]
      rfl
    · rw [← hposition]
      exact hchain
    · rw [hfinal, hencrypted]
      exact List.append_assoc _ _ _
    · rw [hafter, hposition]
      rfl
    · show (frame ++ bytesOf items).length = _
      rw [List.length_append, hlength, hsum]
      rfl

theorem positionAfter_fields {at' : ProtectedPosition} :
    (positionAfter o at' items).offset = at'.offset + (bytesOf items).length ∧
      (positionAfter o at' items).ordinal = at'.ordinal + items.length ∧
      (positionAfter o at' items).sequence =
        ((recordsOf items).getLast?.map WalRecord.sequence).getD at'.sequence := by
  induction items generalizing at' with
  | nil => exact ⟨rfl, rfl, rfl⟩
  | cons item items ih =>
    obtain ⟨hoffset, hordinal, hsequence⟩ := @ih (protectedAdvance o at' item.frame
      item.record.sequence)
    refine ⟨?_, ?_, ?_⟩
    · rw [positionAfter, hoffset]
      show at'.offset + item.frame.length + _ = at'.offset + (item.frame ++ bytesOf items).length
      rw [List.length_append, Nat.add_assoc]
    · rw [positionAfter, hordinal, List.length_cons]
      show at'.ordinal + 1 + items.length = _
      omega
    · rw [positionAfter, hsequence]
      show _ = ((item.record :: recordsOf items).getLast?.map WalRecord.sequence).getD at'.sequence
      rw [List.getLast?_cons]
      cases (recordsOf items).getLast? with
      | none => rfl
      | some last => rfl

theorem bytesOf_append (xs ys : List Item) : bytesOf (xs ++ ys) = bytesOf xs ++ bytesOf ys :=
  List.flatMap_append

theorem meets_append {s : DecodeState} {xs ys : List Item} :
    Meets o s (xs ++ ys) ↔ Meets o s xs ∧ Meets o (xs.foldl (DecodeState.after o) s) ys := by
  induction xs generalizing s with
  | nil => exact (and_iff_right trivial).symm
  | cons item xs ih => simp only [List.cons_append, Meets, List.foldl_cons, ih, and_assoc]

/-- The last item is kept, where its record is. -/
theorem getLast?_keptItems (h : ∀ item ∈ items.getLast?, keep item.record = true) :
    (keptItems keep items).getLast? = items.getLast? := by
  rcases List.eq_nil_or_concat items with rfl | ⟨front, last, rfl⟩
  · rfl
  · have hlast := h last (by simp)
    rw [keptItems, List.concat_eq_append, List.filter_append, List.filter_singleton, hlast,
      cond_true, List.getLast?_concat, List.getLast?_concat]

end Items

/-! ## Encoded records -/

section Append

variable {o : Options}

/-- **A record that is encoded can be read.** -/
theorem decodePlain_of_encodeWalRecord {record : WalRecord} {plain : Bytes}
    (h : encodeWalRecord o.decoders record 0 = some plain)
    (hidentity : record.volumeIdentity = o.volumeIdentity) : decodePlain o plain = .ok record := by
  obtain ⟨hlength, hlegacy⟩ := Wal.length_of_encodeWalRecord h
  obtain ⟨hadmitted, -, hsize, hbytes⟩ := Wal.encodeWalRecord_eq_some h
  have hdecode := Wal.decodeRecord_of_encodeWalRecord h (Or.inr hidentity)
  have hknown := Wal.recordVersion_known record (Nat.zero_le Wal.unlinkOutcomeVersion)
  generalize Wal.recordVersion record 0 = version at *
  have hunchecked : 16 ≤ (Wal.unchecked record version).length := by
    rw [Wal.length_unchecked hadmitted, ← hlength]
    unfold Wal.legacyHeaderSize at hlegacy
    omega
  have htake : plain.take 12 = Wal.frameHead version plain.length := by
    rw [hlength, hbytes, Wal.take_storeChecksum hunchecked, Wal.take_unchecked]
  have hheader : Wal.headerSize version ≤ plain.length := by
    rw [hlength]
    unfold Wal.recordSize
    omega
  obtain ⟨hmagic, hversion, hheaderValue, hsizeValue, -⟩ :=
    Wal.values_frameHead hknown (show plain.length < 2 ^ 32 by rw [hlength]; omega)
  have hslice : ∀ off len, off + len ≤ 12 →
      slice (plain.take 12) off len = slice plain off len := by
    intro off len hoff
    rw [slice, slice, List.drop_take, List.take_take, Nat.min_eq_left (by omega)]
  rw [← htake, hslice _ _ (by norm_num)] at hmagic hversion hheaderValue hsizeValue
  unfold decodePlain
  rw [if_neg (by simp only [not_or, not_lt, not_not]; exact ⟨hlegacy, hmagic, hsizeValue⟩), hversion,
    hheaderValue]
  dsimp only
  have hsame : (if version = 1 then Wal.legacyHeaderSize else if version = 2 then
      Wal.inlinePayloadHeaderSize else if version = 3 then Wal.unlinkOutcomeHeaderSize else 0) =
      Wal.headerSize version := by
    rcases hknown with rfl | rfl | rfl <;> rfl
  have hpositive := Wal.legacyHeaderSize_le_headerSize version
  unfold Wal.legacyHeaderSize at hpositive
  rw [hsame, if_neg (by simp only [not_or, not_lt, not_not]; exact ⟨by omega, trivial, hheader⟩)]
  exact hdecode

/-- The record as it is written. -/
def written (o : Options) (record : WalRecord) : WalRecord :=
  { record with volumeIdentity := o.volumeIdentity }

/-- **A batch that is encoded can be read**, after any sequence number before its first. -/
theorem exists_contents_of_encodeBatch {sequence : UInt64} {records : List WalRecord}
    {batch : List (Bytes × UInt64)} (h : encodeBatch o sequence records = some batch) :
    ∃ contents, batch = sequenced contents ∧ contents.map Prod.snd = records.map (written o) ∧
      Readable o sequence contents := by
  induction records generalizing sequence batch with
  | nil =>
    obtain rfl := Option.some.inj h
    exact ⟨[], rfl, rfl, trivial⟩
  | cons record records ih =>
    rw [encodeBatch] at h
    split_ifs at h with hrejected
    simp only [not_or] at hrejected
    obtain ⟨-, hzero, hmaximum, hsequence, hoperation, hlow, hhigh⟩ := hrejected
    match hplain : encodeWalRecord o.decoders { record with volumeIdentity := o.volumeIdentity } 0,
        hmore : encodeBatch o record.sequence records with
    | none, _ =>
      rw [hplain] at h
      cases h
    | some plain, none =>
      rw [hplain, hmore] at h
      cases h
    | some plain, some more =>
      rw [hplain, hmore] at h
      obtain rfl := Option.some.inj h
      obtain ⟨contents, rfl, hrecords, hread⟩ := ih hmore
      refine ⟨(plain, written o record) :: contents, rfl, ?_, ?_, hread⟩
      · rw [List.map_cons, hrecords]
        rfl
      · exact readPlain_eq_ok_iff.mpr ⟨decodePlain_of_encodeWalRecord hplain rfl,
          UInt64.not_le.mp hsequence, hzero, hmaximum, hoperation, hlow, hhigh⟩

end Append

/-! ## The replacement -/

section Replacement

variable {o : Options} {floor : UInt64} {expected : ProtectedHead}
  {epoch : Epoch o.slot o.sourceBinding} {proof : ProtectedCheckpoint} {encrypted : Bytes}

/-- Whether a record's transaction is kept. -/
def keeps (records : List WalRecord) (floor : UInt64) (record : WalRecord) : Bool :=
  (retainedTransactions floor (maximumId records) records).contains record.transactionId

theorem protectedRetention_eq (records : List WalRecord) :
    protectedRetention records floor = records.map (keeps records floor) := rfl

theorem recordsOf_keptItems {items : List Item} :
    recordsOf (keptItems (keeps (recordsOf items) floor) items) =
      keptRecords (recordsOf items) floor := by
  have hkept : keptRecords (recordsOf items) floor =
      (recordsOf items).filter (keeps (recordsOf items) floor) :=
    keptOf_map (keeps (recordsOf items) floor) id (recordsOf items)
  rw [hkept]
  generalize keeps (recordsOf items) floor = keep
  show (items.filter (keep ∘ Item.record)).map Item.record = (items.map Item.record).filter keep
  rw [List.filter_map]

theorem count_protectedRetention {items : List Item} :
    (protectedRetention (recordsOf items) floor).count true =
      (keptItems (keeps (recordsOf items) floor) items).length := by
  rw [protectedRetention_eq, keptItems, ← List.countP_eq_length_filter, List.count_eq_countP,
    List.countP_map]
  nth_rewrite 2 [recordsOf]
  rw [List.countP_map]
  refine List.countP_congr fun item _ => ?_
  simp

/-- What is sealed, as a log of its own. -/
structure Replaces (o : Options) (floor : UInt64) (expected : ProtectedHead) (items : List Item)
    (proof : ProtectedCheckpoint) (anchor : Bytes) (sealed : List Item) : Prop where
  framed : Framed anchor
  opens : openAt o { offset := protectedWalHeader.length } anchor =
    .ok (protectedCheckpointEncode proof)
  chain : Chain o (afterAnchor o anchor) sealed
  contents : sealed.map Item.content =
    (keptItems (keeps (recordsOf items) floor) items).map Item.content
  proof_eq : proof =
    { previous := expected, floor, retained := UInt64.ofNat sealed.length
      semantic := (sealed.map Item.plain).foldl (protectedSemanticStep o)
        (protectedSemanticStart o) }
  anchor_length : anchor.length = 192
  length_le : (logOf anchor sealed).length ≤ o.maxBytes
  allocation : (logOf anchor sealed).length ≤ o.maxAllocationBytes / 8
  room : sealed.length ≤
    (o.maxAllocationBytes - (logOf anchor sealed).length * 8) / (2 * o.recordBytes + 64)

/-- What a replacement that was sealed went through. -/
theorem sealReplacement_eq_some {original : Bytes} {records : List WalRecord}
    (h : sealReplacement o floor expected original records epoch = some (proof, encrypted)) :
    let keep := protectedRetention records floor
    ∃ semantic size anchored s pairs,
      protectedWalkKept o (fun digest plain => some (protectedSemanticStep o digest plain)) original
        records keep (protectedSemanticStart o) = some semantic ∧
      proof = { previous := expected, floor, retained := UInt64.ofNat (keep.count true), semantic } ∧
      protectedWalkKept o (fun size plain => some (size + (plain.length + 80))) original records keep
        (16 + checkpointPlainBytes + 80) = some size ∧
      (size ≤ o.maxBytes ∧ original.length + size ≤ o.maxAllocationBytes / 8 ∧
        records.length + keep.count true ≤
          (o.maxAllocationBytes - (original.length + size) * 8) / (2 * o.recordBytes + 64)) ∧
      sealFrame o ⟨epoch, { offset := 16 }, protectedWalHeader⟩ (protectedCheckpointEncode proof) 0 =
        some anchored ∧
      protectedWalkKept o (sealNext o) original records keep (anchored, keep.zip records) =
        some (s, pairs) ∧
      s.encrypted.length = size ∧ encrypted = s.encrypted := by
  dsimp only
  unfold sealReplacement at h
  dsimp only at h
  match hsemantic : protectedWalkKept o
      (fun digest plain => some (protectedSemanticStep o digest plain)) original records
      (protectedRetention records floor) (protectedSemanticStart o) with
  | none =>
    rw [hsemantic] at h
    cases h
  | some semantic =>
    rw [hsemantic] at h
    dsimp only at h
    match hsize : protectedWalkKept o (fun size plain => some (size + (plain.length + 80))) original
        records (protectedRetention records floor) (16 + checkpointPlainBytes + 80) with
    | none =>
      rw [hsize] at h
      cases h
    | some size =>
      rw [hsize] at h
      dsimp only at h
      by_cases hlimits : o.maxBytes < size ∨ o.maxAllocationBytes / 8 < original.length + size ∨
          (o.maxAllocationBytes - (original.length + size) * 8) / (2 * o.recordBytes + 64) <
            records.length + (protectedRetention records floor).count true
      · rw [if_pos hlimits] at h
        cases h
      rw [if_neg hlimits] at h
      match hanchor : sealFrame o ⟨epoch, { offset := 16 }, protectedWalHeader⟩
          (protectedCheckpointEncode
            { previous := expected, floor
              retained := UInt64.ofNat ((protectedRetention records floor).count true)
              semantic }) 0 with
      | none =>
        rw [hanchor] at h
        cases h
      | some anchored =>
        rw [hanchor] at h
        dsimp only at h
        match hwalk : protectedWalkKept o (sealNext o) original records
            (protectedRetention records floor)
            (anchored, (protectedRetention records floor).zip records) with
        | none =>
          rw [hwalk] at h
          cases h
        | some (s, pairs) =>
          rw [hwalk] at h
          dsimp only at h
          by_cases hlength : s.encrypted.length ≠ size
          · rw [if_pos hlength] at h
            cases h
          rw [if_neg hlength] at h
          obtain ⟨rfl, rfl⟩ := Prod.mk.inj (Option.some.inj h)
          simp only [not_or, not_lt] at hlimits
          exact ⟨semantic, size, anchored, s, pairs, rfl, rfl, rfl, hlimits, hanchor, hwalk,
            not_not.mp hlength, rfl⟩

/-- **What sealing gives** is a log of its own, with the plaintexts that were kept. -/
theorem exists_replaces (hgcm : o.gcm.Inverse) {anchor : Bytes} {items : List Item}
    (hframed : Framed anchor) (hchain : Chain o (afterAnchor o anchor) items)
    (h : sealReplacement o floor expected (logOf anchor items) (recordsOf items) epoch =
      some (proof, encrypted)) :
    ∃ anchor' sealed, encrypted = logOf anchor' sealed ∧
      Replaces o floor expected items proof anchor' sealed := by
  obtain ⟨semantic, size, anchored, s, pairs, hsemantic, hproof, -, ⟨hbytes, hallocation, hroom⟩,
    hanchor, hwalk, hlength, rfl⟩ := sealReplacement_eq_some h
  rw [protectedRetention_eq, protectedWalkKept_logOf hframed hchain] at hsemantic hwalk
  rw [zip_recordsOf] at hwalk
  rw [count_protectedRetention] at hroom hproof
  -- the anchor first, then the records that are kept
  obtain ⟨frame, hframe, hopen, hframeLength, hstart, hposition⟩ := sealFrame_eq_some hgcm hanchor
  have hafter : anchored.position = afterAnchor o frame := hposition
  have hseal : sealAll o anchored (sequenced
      ((keptItems (keeps (recordsOf items) floor) items).map Item.content)) = some s := by
    rw [← foldlM_sealNext, hwalk]
    rfl
  have hread : Readable o anchored.position.sequence
      ((keptItems (keeps (recordsOf items) floor) items).map Item.content) := by
    rw [hafter]
    exact hchain.readable.sublist (List.Sublist.map _ List.filter_sublist)
  obtain ⟨sealed, hcontents, hsealed, hencrypted, -, -⟩ :=
    exists_chain_of_sealAll hgcm hread hseal
  have hcount : sealed.length = (keptItems (keeps (recordsOf items) floor) items).length := by
    rw [← List.length_map (f := Item.content), hcontents, List.length_map]
  have hplains : (keptItems (keeps (recordsOf items) floor) items).map Item.plain =
      sealed.map Item.plain := by
    have hfirst := congrArg (List.map Prod.fst) hcontents
    rw [List.map_map, List.map_map] at hfirst
    exact hfirst.symm
  have hlog : s.encrypted = logOf frame sealed := by
    rw [hencrypted, hstart, logOf]
    exact List.append_assoc _ _ _
  rw [hlog] at hlength ⊢
  refine ⟨frame, sealed, rfl, hframe, hopen, hafter ▸ hsealed, hcontents, ?_, ?_, ?_, ?_, ?_⟩
  · rw [hproof, hcount, ← hplains]
    congr 1
    refine Option.some.inj (hsemantic.symm.trans ?_)
    exact List.foldlM_pure
  · rw [hframeLength, length_protectedCheckpointEncode]
    rfl
  · rw [hlength]
    exact hbytes
  · rw [hlength]
    omega
  · rw [hlength, hcount]
    refine (Nat.le_add_left _ _).trans (hroom.trans (Nat.div_le_div_right ?_))
    omega

/-- What a head says of the log it was taken from. -/
theorem protectedHeadOf_eq_some {bytes : Bytes} {records : List WalRecord}
    (h : protectedHeadOf o bytes records = some expected) :
    protectedHeadValid expected false = true ∧ expected.records = UInt64.ofNat records.length ∧
      expected.lastSequence = lastSequence records := by
  unfold protectedHeadOf at h
  dsimp only at h
  split_ifs at h with hvalid
  obtain rfl := Option.some.inj h
  exact ⟨hvalid, rfl, rfl⟩

/-- What an append that seals its records went through. -/
theorem appendProtected_eq_some {at' : ProtectedPosition} {records : List WalRecord}
    {appended : Sealing o} (h : appendProtected o at' epoch records = some appended) :
    ∃ batch, encodeBatch o 0 records = some batch ∧
      sealAll o ⟨epoch, at', []⟩ batch = some appended ∧
      (∀ record ∈ records.head?, at'.sequence < record.sequence) ∧
      at'.offset + (batch.map fun plain => plain.1.length + 80).sum ≤ o.maxBytes ∧
      at'.ordinal - 1 + records.length ≤ o.readLimits.records ∧
      at'.offset + (batch.map fun plain => plain.1.length + 80).sum ≤ o.maxAllocationBytes / 4 ∧
      at'.ordinal - 1 + records.length ≤ (o.maxAllocationBytes -
        (at'.offset + (batch.map fun plain => plain.1.length + 80).sum) * 4) /
          (2 * o.recordBytes + 4) := by
  unfold appendProtected at h
  split_ifs at h with hmany
  match hbatch : encodeBatch o 0 records with
  | none =>
    rw [hbatch] at h
    cases h
  | some batch =>
    rw [hbatch] at h
    dsimp only at h
    split_ifs at h with hlimits
    simp only [not_or, not_lt, not_exists, not_and] at hlimits
    obtain ⟨hsequence, hbase, hadded, hcount, hroom, hallocation, hbudget⟩ := hlimits
    exact ⟨batch, rfl, h, fun record hmem => UInt64.not_le.mp (hsequence record hmem), by omega,
      by omega, hallocation, hbudget⟩

/-- A batch can be read after whatever comes before its first record. -/
theorem readable_of_head {sequence : UInt64} {contents : List (Bytes × WalRecord)}
    (hread : Readable o 0 contents)
    (hhead : ∀ content ∈ contents.head?, sequence < content.2.sequence) :
    Readable o sequence contents := by
  match contents with
  | [] => trivial
  | content :: rest =>
    have hfirst := readPlain_eq_ok_iff.mp hread.1
    exact ⟨readPlain_eq_ok_iff.mpr ⟨hfirst.1, hhead content rfl, hfirst.2.2⟩, hread.2⟩

section Checked

variable {anchor : Bytes} {items sealed : List Item}

/-- The last record of the log is kept. -/
theorem Replaces.getLast? (h : Replaces o floor expected items proof anchor sealed) :
    (recordsOf sealed).getLast? = (recordsOf items).getLast? := by
  have hrecords : recordsOf sealed = recordsOf (keptItems (keeps (recordsOf items) floor) items) := by
    have hsecond := congrArg (List.map Prod.snd) h.contents
    rw [List.map_map, List.map_map] at hsecond
    exact hsecond
  rw [hrecords, recordsOf, recordsOf, List.getLast?_map, List.getLast?_map, getLast?_keptItems]
  intro item hitem
  have hlast : (recordsOf items).getLast? = some item.record := by
    rw [recordsOf, List.getLast?_map, Option.mem_def.mp hitem]
    rfl
  exact List.contains_iff_mem.mpr (mem_retainedTransactions_of_last hlast)

theorem Replaces.length_le_length (h : Replaces o floor expected items proof anchor sealed) :
    sealed.length ≤ items.length := by
  have hlength := congrArg List.length h.contents
  rw [List.length_map, List.length_map] at hlength
  rw [hlength]
  exact List.length_filter_le _ _

/-- Nothing is kept only of an empty log. -/
theorem Replaces.length_eq_zero_iff (h : Replaces o floor expected items proof anchor sealed) :
    sealed.length = 0 ↔ items.length = 0 := by
  refine ⟨fun hsealed => ?_, fun hitems => Nat.le_zero.mp (hitems ▸ h.length_le_length)⟩
  obtain rfl := List.length_eq_zero_iff.mp hsealed
  have hlast := h.getLast?
  rw [recordsOf, List.map_nil, List.getLast?_nil] at hlast
  have hnil := List.getLast?_eq_none_iff.mp hlast.symm
  rw [← List.length_map (f := Item.record)]
  exact List.length_eq_zero_iff.mpr hnil

variable (hcount : items.length < 2 ^ 64) (hfloor : floor ≠ 0)
  (hle : ¬expected.lastSequence + 1 < floor)
  (hvalid : protectedHeadValid expected false = true)
  (hrecords : expected.records = UInt64.ofNat (recordsOf items).length)
  (hlast : expected.lastSequence = lastSequence (recordsOf items))

include hcount hfloor hle hvalid hrecords in
/-- The checkpoint of a replacement is one that is accepted. -/
theorem Replaces.anchors (h : Replaces o floor expected items proof anchor sealed) :
    Anchors o anchor proof := by
  have hless := h.length_le_length
  have hitems : (recordsOf items).length = items.length := List.length_map _
  have hcheckpoint : checkpointValid proof = true := by
    rw [h.proof_eq]
    simp only [checkpointValid, hvalid, hrecords, hitems, Bool.true_and, Bool.and_eq_true, bne_iff_ne,
      ne_eq, hfloor, not_false_eq_true, true_and, decide_eq_true_eq]
    refine ⟨⟨UInt64.not_lt.mp hle, ?_⟩, ?_⟩
    · rw [UInt64.le_iff_toNat_le, UInt64.toNat_ofNat_of_lt' hcount,
        UInt64.toNat_ofNat_of_lt' (hless.trans_lt hcount)]
      exact hless
    · have hzero : ∀ n < 2 ^ 64, (UInt64.ofNat n == 0) = decide (n = 0) := by
        intro n hn
        rw [Bool.eq_iff_iff, beq_iff_eq, decide_eq_true_eq, ← UInt64.toNat_inj,
          UInt64.toNat_ofNat_of_lt' hn]
        rfl
      rw [hzero _ hcount, hzero _ (by omega), beq_iff_eq]
      exact decide_eq_decide.mpr h.length_eq_zero_iff
  refine ⟨h.framed, _, h.opens, Or.inr ⟨?_, protectedCheckpointDecode_encode hcheckpoint⟩⟩
  rw [length_protectedCheckpointEncode]
  decide

include hcount hfloor hlast in
/-- **The records that were kept meet the checkpoint.** -/
theorem Replaces.meets (h : Replaces o floor expected items proof anchor sealed) :
    Meets o (anchored o anchor proof) sealed ∧
      (sealed.foldl (DecodeState.after o) (anchored o anchor proof)).semantic = proof.semantic ∧
      (sealed.foldl (DecodeState.after o) (anchored o anchor proof)).records = recordsOf sealed ∧
      proof.retained.toNat = sealed.length := by
  have hless := h.length_le_length
  have hretained : proof.retained.toNat = sealed.length := by
    rw [h.proof_eq]
    exact UInt64.toNat_ofNat_of_lt' (hless.trans_lt hcount)
  have hmeets := @meets_of_checkpoint o (anchored o anchor proof) sealed
    (by show proof.floor ≠ 0; rw [h.proof_eq]; exact hfloor)
    (by rw [anchored, List.length_nil, Nat.zero_add, hretained])
    (by show _ = proof.semantic; rw [h.proof_eq]; rfl)
    (fun item hitem => by
      show item.record.sequence = proof.previous.lastSequence
      have hrecord : (recordsOf items).getLast? = some item.record := by
        rw [← h.getLast?, recordsOf, List.getLast?_map, Option.mem_def.mp hitem]
        rfl
      rw [h.proof_eq, hlast, lastSequence, hrecord]
      rfl)
  exact ⟨hmeets.1, hmeets.2, (@foldl_after o (anchored o anchor proof) sealed).2.1, hretained⟩

include hcount hfloor hle hvalid hrecords hlast in
/-- **The replacement is accepted**, and so is whatever is sealed behind it, within the limits. -/
theorem Replaces.decode (h : Replaces o floor expected items proof anchor sealed)
    {limits : WalReadLimits} {allocation : ℕ} {more : List Item}
    (hmore : Chain o (positionAfter o (afterAnchor o anchor) sealed) more)
    (hbytes : (logOf anchor (sealed ++ more)).length ≤ limits.bytes)
    (hallocation : (logOf anchor (sealed ++ more)).length ≤ allocation / 4)
    (hroom : (sealed ++ more).length ≤
      recordRoom o limits allocation (logOf anchor (sealed ++ more)).length) :
    decodeProtectedWal o limits allocation {} (logOf anchor (sealed ++ more)) =
      .ok ((sealed ++ more).foldl (DecodeState.after o) (anchored o anchor proof)) := by
  obtain ⟨hmeets, hsemantic, hkept, hretained⟩ := h.meets hcount hfloor hlast
  obtain ⟨-, -, hproof⟩ := @foldl_after o (anchored o anchor proof) sealed
  have hsealed : (recordsOf sealed).length = sealed.length := List.length_map _
  have hsettled : (sealed.foldl (DecodeState.after o) (anchored o anchor proof)).pending = false := by
    rw [DecodeState.pending, hproof, hkept, hsealed]
    show (_ && decide (sealed.length < proof.retained.toNat)) = false
    rw [hretained, decide_eq_false (lt_irrefl _), Bool.and_false]
  obtain ⟨hmoreMeets, hmoreSemantic⟩ := @meets_of_settled o _ more hsettled
  obtain ⟨-, hfinal, hfinalProof⟩ := @foldl_after o (anchored o anchor proof) (sealed ++ more)
  refine decodeProtectedWal_logOf (h.anchors hcount hfloor hle hvalid hrecords)
    (chain_append.mpr ⟨h.chain, hmore⟩) (meets_append.mpr ⟨hmeets, hmoreMeets⟩) ?_ ?_ hbytes
    hallocation hroom
  · unfold finishDecode
    rw [if_neg]
    rintro ⟨-, hshort | ⟨-, hdiffers⟩⟩
    · rw [hfinal, hfinalProof] at hshort
      change (recordsOf (sealed ++ more)).length < proof.retained.toNat at hshort
      rw [hretained, recordsOf, List.length_map, List.length_append] at hshort
      omega
    · rw [hfinalProof, List.foldl_append, hmoreSemantic] at hdiffers
      exact hdiffers hsemantic
  · have hanchor := h.anchor_length
    rw [logOf, List.length_append, List.length_append, hanchor]
    unfold protectedAnchorBytes
    omega

include hcount hfloor hle hvalid hrecords hlast in
/-- **What is appended to the replacement is read behind it.** -/
theorem Replaces.append (h : Replaces o floor expected items proof anchor sealed)
    (hgcm : o.gcm.Inverse) {limits : WalReadLimits} (hlimit : o.maxBytes ≤ limits.bytes)
    (hsame : limits.records = o.readLimits.records) {records : List WalRecord} {appended : Sealing o}
    (happend : appendProtected o (positionAfter o (afterAnchor o anchor) sealed) epoch records =
      some appended) :
    ∃ final, decodeProtectedWal o limits o.maxAllocationBytes {}
        (logOf anchor sealed ++ appended.encrypted) = .ok final ∧
      final.records = recordsOf sealed ++ records.map (written o) ∧
      final.position = appended.position := by
  obtain ⟨batch, hbatch, hsealed, hhead, hbytes, hcountAll, hallocation, hbudget⟩ :=
    appendProtected_eq_some happend
  obtain ⟨contents, rfl, hcontents, hreadable⟩ := exists_contents_of_encodeBatch hbatch
  have hafterHead : Readable o (positionAfter o (afterAnchor o anchor) sealed).sequence contents := by
    refine readable_of_head hreadable fun content hcontent => ?_
    have hwritten : (records.map (written o)).head? = some content.2 := by
      rw [← hcontents, List.head?_map, Option.mem_def.mp hcontent]
      rfl
    rw [List.head?_map, Option.map_eq_some_iff] at hwritten
    obtain ⟨record, hrecord, hwrittenRecord⟩ := hwritten
    rw [← hwrittenRecord]
    exact hhead record hrecord
  obtain ⟨more, hmoreContents, hmore, hencrypted, hmorePosition, hmoreBytes⟩ :=
    exists_chain_of_sealAll hgcm hafterHead hsealed
  have hmoreLength : more.length = records.length := by
    rw [← List.length_map (f := Item.content), hmoreContents, ← List.length_map (f := Prod.snd),
      hcontents, List.length_map]
  have hmoreRecords : recordsOf more = records.map (written o) := by
    have hsecond := congrArg (List.map Prod.snd) hmoreContents
    rw [List.map_map, hcontents] at hsecond
    exact hsecond
  have hsum : ((sequenced contents).map fun plain => plain.1.length + 80).sum =
      (bytesOf more).length := by
    rw [hmoreBytes, sequenced, List.map_map]
    rfl
  have hlog : logOf anchor sealed ++ appended.encrypted = logOf anchor (sealed ++ more) := by
    rw [hencrypted, logOf, logOf, bytesOf_append]
    simp only [List.append_assoc, List.nil_append]
  have hlogLength : (logOf anchor (sealed ++ more)).length =
      (logOf anchor sealed).length + (bytesOf more).length := by
    rw [logOf, logOf, bytesOf_append]
    simp only [List.length_append]
    omega
  obtain ⟨hoffset, hordinal, -⟩ := @positionAfter_fields o sealed (afterAnchor o anchor)
  have hstart : (afterAnchor o anchor).offset + (bytesOf sealed).length =
      (logOf anchor sealed).length := by
    rw [logOf, List.length_append, List.length_append]
    exact Nat.add_assoc _ _ _
  have hfirst : (afterAnchor o anchor).ordinal = 1 := rfl
  rw [hoffset, hstart, hsum, ← hlogLength] at hbytes hallocation hbudget
  rw [hordinal, hfirst, Nat.add_sub_cancel_left] at hcountAll hbudget
  obtain ⟨hfinalPosition, hfinalRecords, -⟩ :=
    @foldl_after o (anchored o anchor proof) (sealed ++ more)
  have hroom : (sealed ++ more).length ≤ recordRoom o limits o.maxAllocationBytes
      (logOf anchor (sealed ++ more)).length := by
    rw [List.length_append, hmoreLength, recordRoom, hsame]
    exact le_min hcountAll hbudget
  refine ⟨(sealed ++ more).foldl (DecodeState.after o) (anchored o anchor proof), ?_, ?_, ?_⟩
  · rw [hlog]
    exact h.decode hcount hfloor hle hvalid hrecords hlast hmore (hbytes.trans hlimit) hallocation
      hroom
  · rw [hfinalRecords, recordsOf, List.map_append, ← hmoreRecords]
    rfl
  · rw [hfinalPosition, positionAfter_append, hmorePosition]
    rfl

end Checked

/-! ## Compaction -/

/-- What a compaction that seals a replacement went through. -/
theorem compactProtected_eq_some {original : Bytes}
    (h : compactProtected o floor expected original epoch = some (proof, encrypted)) :
    (floor ≠ 0 ∧ ¬expected.lastSequence + 1 < floor ∧ protectedConfigValid o = true) ∧
      ∃ before, readProtected o original = .ok before ∧
        protectedHeadOf o original before.records = some expected ∧
        sealReplacement o floor expected original before.records epoch = some (proof, encrypted) := by
  unfold compactProtected at h
  split_ifs at h with hrejected
  simp only [not_or] at hrejected
  refine ⟨⟨hrejected.2.1, hrejected.2.2.1, Bool.eq_true_of_not_eq_false hrejected.2.2.2⟩, ?_⟩
  match hread : readProtected o original with
  | .error status =>
    rw [hread] at h
    cases h
  | .ok before =>
    rw [hread] at h
    dsimp only at h
    by_cases hhead : o.maxBytes < original.length ∨
        protectedHeadOf o original before.records ≠ some expected
    · rw [if_pos hhead] at h
      cases h
    · rw [if_neg hhead] at h
      exact ⟨before, rfl, not_not.mp (not_or.mp hhead).2, h⟩

/-- A replacement of a log that was read decodes to what was kept, and can be appended to. -/
theorem decodes_of_compactProtected (hgcm : o.gcm.Inverse) {original : Bytes} {before : DecodeState}
    (hread : readProtected o original = .ok before)
    (h : compactProtected o floor expected original epoch = some (proof, encrypted)) :
    ∃ after, decodeProtectedWal o o.readLimits o.maxAllocationBytes {} encrypted = .ok after ∧
      readProtected o encrypted = .ok after ∧
      after.records = keptRecords before.records floor ∧
      after.proof = proof ∧ proof.previous = expected ∧
      lastSequence after.records = lastSequence before.records ∧
      after.position.sequence = before.position.sequence ∧
      ∀ (next : Epoch o.slot o.sourceBinding) (records : List WalRecord) (appended : Sealing o),
        appendProtected o after.position next records = some appended →
        ∃ final, readProtected o (encrypted ++ appended.encrypted) = .ok final ∧
          final.records = after.records ++ records.map (written o) ∧
          final.position = appended.position := by
  obtain ⟨⟨hfloor, hle, hconfig⟩, before', hread', hhead, hseal⟩ := compactProtected_eq_some h
  obtain rfl := Except.ok.inj (hread.symm.trans hread')
  obtain ⟨hvalid, hrecords, hlast⟩ := protectedHeadOf_eq_some hhead
  obtain ⟨anchor, proof₀, items, rfl, hanchor, hchain, rfl, hcount⟩ :=
    exists_items_of_decodeProtectedWal hread
  obtain ⟨hbefore, hbeforeRecords, -⟩ := @foldl_after o (anchored o anchor proof₀) items
  have hitems : (items.foldl (DecodeState.after o) (anchored o anchor proof₀)).records =
      recordsOf items := hbeforeRecords
  rw [hitems] at hrecords hlast hseal
  simp only [protectedConfigValid, Bool.and_eq_true, decide_eq_true_eq] at hconfig
  obtain ⟨⟨⟨⟨⟨⟨-, hmaximum⟩, -⟩, -⟩, hlimit⟩, -⟩, -⟩ := hconfig
  have hsmall : items.length < 2 ^ 64 := by
    have hrecordLimit : items.length ≤ o.readLimits.records := hcount
    omega
  obtain ⟨anchor', sealed, rfl, hreplaces⟩ := exists_replaces hgcm hanchor.framed hchain hseal
  have hless := hreplaces.length_le_length
  have hkept : recordsOf sealed = keptRecords (recordsOf items) floor := by
    have hsecond := congrArg (List.map Prod.snd) hreplaces.contents
    rw [List.map_map, List.map_map] at hsecond
    rw [← recordsOf_keptItems]
    exact hsecond
  have hsealedBytes := hreplaces.length_le
  have hsealedAllocation := hreplaces.allocation
  have hroom : ∀ limits : WalReadLimits, limits.records = o.readLimits.records →
      sealed.length ≤ recordRoom o limits o.maxAllocationBytes (logOf anchor' sealed).length := by
    intro limits hsame
    rw [recordRoom, hsame]
    refine le_min (hless.trans hcount) (hreplaces.room.trans ?_)
    exact (Nat.div_le_div_left (by omega) (by omega)).trans (Nat.div_le_div_right (by omega))
  have hplain : ∀ limits : WalReadLimits, limits.records = o.readLimits.records →
      o.maxBytes ≤ limits.bytes →
      decodeProtectedWal o limits o.maxAllocationBytes {} (logOf anchor' sealed) =
        .ok (sealed.foldl (DecodeState.after o) (anchored o anchor' proof)) := by
    intro limits hsame hbytes
    have hall := @Replaces.decode o floor expected proof anchor' items sealed hsmall hfloor hle hvalid
      hrecords hlast hreplaces limits o.maxAllocationBytes []
    rw [List.append_nil] at hall
    exact hall trivial (hsealedBytes.trans hbytes) (hsealedAllocation.trans (by omega))
      (hroom limits hsame)
  obtain ⟨hposition, hafterRecords, hafterProof⟩ := @foldl_after o (anchored o anchor' proof) sealed
  have hafter : (sealed.foldl (DecodeState.after o) (anchored o anchor' proof)).records =
      recordsOf sealed := hafterRecords
  have hsameLast : lastSequence (recordsOf sealed) = lastSequence (recordsOf items) := by
    rw [lastSequence, lastSequence, hreplaces.getLast?]
  refine ⟨_, hplain _ rfl (by omega), hplain _ rfl (le_min (by omega) le_rfl), ?_, hafterProof,
    by rw [hreplaces.proof_eq], ?_, ?_, ?_⟩
  · rw [hafter, hitems, hkept]
  · rw [hafter, hitems, hsameLast]
  · rw [hposition, hbefore, (positionAfter_fields).2.2, (positionAfter_fields).2.2]
    exact hsameLast
  · intro next records appended happend
    rw [hposition] at happend
    have hbound : o.maxBytes ≤ ({ o.readLimits with
        bytes := min o.readLimits.bytes o.maxBytes } : WalReadLimits).bytes :=
      le_min hmaximum le_rfl
    obtain ⟨final, hfinal, hfinalRecords, hfinalPosition⟩ := hreplaces.append hsmall hfloor hle hvalid
      hrecords hlast hgcm hbound rfl happend
    refine ⟨final, hfinal, ?_, hfinalPosition⟩
    rw [hfinalRecords, hafter]

/-- **Compaction keeps whole transactions and stays decodable.**  What is kept is closed under
transactions and has every record at or above the floor, the last one and those of the largest
transaction; the replacement decodes to it, with the checkpoint and the last sequence number of the log
it replaces; and what is appended to the replacement is read behind it. -/
theorem protectedRetention_decodes (o : Options) (hgcm : o.gcm.Inverse) (original : Bytes)
    (before : DecodeState) (hread : readProtected o original = .ok before) (floor : UInt64) :
    (∀ record ∈ before.records, ∀ other ∈ before.records,
      record.transactionId = other.transactionId →
        (record ∈ keptRecords before.records floor ↔ other ∈ keptRecords before.records floor)) ∧
    (∀ record ∈ before.records, (floor ≤ record.sequence ∨
      before.records.getLast? = some record ∨
      ∀ other ∈ before.records, other.transactionId ≤ record.transactionId) →
        record ∈ keptRecords before.records floor) ∧
    ∀ expected epoch proof encrypted,
      compactProtected o floor expected original epoch = some (proof, encrypted) →
      ∃ after, decodeProtectedWal o o.readLimits o.maxAllocationBytes {} encrypted = .ok after ∧
        readProtected o encrypted = .ok after ∧
        after.records = keptRecords before.records floor ∧
        after.proof = proof ∧ proof.previous = expected ∧
        lastSequence after.records = lastSequence before.records ∧
        after.position.sequence = before.position.sequence ∧
        ∀ (next : Epoch o.slot o.sourceBinding) (records : List WalRecord) (appended : Sealing o),
          appendProtected o after.position next records = some appended →
          ∃ final, readProtected o (encrypted ++ appended.encrypted) = .ok final ∧
            final.records = after.records ++ records.map (written o) ∧
            final.position = appended.position := by
  refine ⟨fun record hmem other hother hsame => ?_, fun record hmem hreason =>
    mem_keptRecords_of hmem hreason, fun expected epoch proof encrypted h =>
    decodes_of_compactProtected hgcm hread h⟩
  rw [mem_keptRecords, mem_keptRecords, hsame]
  exact and_congr_left fun _ => iff_of_true hmem hother

end Replacement

/-- A tag over everything a cipher is given. -/
def sampleTag (key nonce plaintext aad : Bytes) : Bytes :=
  leBytes 16 (leValue key + leValue nonce + leValue plaintext + leValue aad)

/-- A cipher that only tags. -/
def sampleGcm : Gcm where
  encrypt key nonce plaintext aad := some (plaintext ++ sampleTag key nonce plaintext aad)
  decrypt key nonce record aad :=
    let plaintext := record.take (record.length - 16)
    if record.drop (record.length - 16) = sampleTag key nonce plaintext aad then .ok plaintext
    else .error .checksumMismatch

theorem sampleGcm_inverse : sampleGcm.Inverse where
  decrypt := by
    rintro key nonce plaintext aad record h
    obtain rfl := Option.some.inj h
    have hlength : (plaintext ++ sampleTag key nonce plaintext aad).length - 16 =
        plaintext.length := by
      rw [List.length_append, sampleTag, length_leBytes, Nat.add_sub_cancel]
    simp only [sampleGcm, hlength, List.take_left, List.drop_left, if_true]
  length := by
    rintro key nonce plaintext aad record h
    obtain rfl := Option.some.inj h
    rw [List.length_append, sampleTag, length_leBytes]

/-- A digest that tells the inputs of the sample apart. -/
def sampleSha256 (bytes : Bytes) : Digest := ⟨leBytes 32 (leValue bytes + 1), length_leBytes _ _⟩

/-- Options with the tagging cipher and one key. -/
def sampleOptions : Options where
  decoders := Wal.refusingDecoders
  sha256 := sampleSha256
  gcm := sampleGcm
  slot := fun _ => .ok [7]
  recordBytes := 400
  volumeIdentity := [0x76]
  maxBytes := 65536
  sourceBinding := List.Vector.replicate 32 1
  journalIdentity := List.Vector.replicate 32 2
  readLimits := { bytes := 65536, records := 64 }
  maxAllocationBytes := 2 ^ 24

/-- An epoch of the sample. -/
def sampleEpoch : Epoch sampleOptions.slot sampleOptions.sourceBinding where
  id := List.Vector.replicate 16 3
  key := [7]
  published := rfl
  bound := rfl

/-- Two writes of different transactions. -/
def sampleWrites : List WalRecord :=
  [1, 2].map fun n =>
    { volumeIdentity := [0x76], transactionId := n, sequence := n, operation := .write,
      objectId := 7, payloadLength := 3, logicalLength := 3, inlinePayload := [1, 2, 3],
      pathUtf8 := [0x5c, 0x61] }

/-- The log of the two writes. -/
def sampleLog : Bytes :=
  ((sealFrame sampleOptions ⟨sampleEpoch, { offset := 16 }, protectedWalHeader⟩ protectedAnchor
    0).bind fun anchored =>
      (appendProtected sampleOptions anchored.position anchored.epoch sampleWrites).map
        fun appended => anchored.encrypted ++ appended.encrypted).getD []

/-- The head of that log. -/
def sampleHead : ProtectedHead :=
  (protectedHeadOf sampleOptions sampleLog sampleWrites).getD {}

/-- The second of the two writes is kept. -/
theorem protectedRetention_decodes_sample :
    ∃ before after encrypted, readProtected sampleOptions sampleLog = .ok before ∧
      readProtected sampleOptions encrypted = .ok after ∧
      after.records = keptRecords before.records 3 := by
  have hsome : (compactProtected sampleOptions 3 sampleHead sampleLog sampleEpoch).isSome = true := by
    decide +kernel
  obtain ⟨⟨proof, encrypted⟩, h⟩ := Option.isSome_iff_exists.mp hsome
  obtain ⟨-, before, hbefore, -, -⟩ := compactProtected_eq_some h
  obtain ⟨after, -, hafter, hkept, -⟩ :=
    (protectedRetention_decodes sampleOptions sampleGcm_inverse sampleLog before hbefore 3).2.2
      sampleHead sampleEpoch proof encrypted h
  exact ⟨before, after, encrypted, hbefore, hafter, hkept⟩

end ProtectedWal
end ApfsAccess
