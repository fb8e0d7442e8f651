import ApfsAccess.Btree.Keys

/-!
# The order of keys is total, and only equal keys are equal in it

`compareKeys_eq_compareValues` says that validated keys are compared by their ranks.  Ranks are in
a linear order, so what is left is that no byte of a validated key is ignored: the object id and
the record type are the first word, the length of a name is the length of the key, and its last
byte is zero.

* `keyRank_injective` : validated keys of one rank are the same bytes.
* `sortAppleBtreeRecords_unique` : two orders of the same records are sorted alike.
* `sortAppleBtreeRecords_duplicate_iff` : equal keys are found, wherever they stand.
-/

namespace ApfsAccess
namespace Btree

open Format ByteBuffer Extents Sorting

/-! ## Bytes that are read back -/

/-- Two fronts are equal when their parts are. -/
theorem slice_add_congr {α : Type*} {xs ys : List α} {len len' : ℕ}
    (hfront : slice xs 0 len = slice ys 0 len) (hback : slice xs len len' = slice ys len len') :
    slice xs 0 (len + len') = slice ys 0 (len + len') := by
  have hxs := slice_append_slice xs 0 len len'
  have hys := slice_append_slice ys 0 len len'
  rw [Nat.zero_add] at hxs hys
  rw [← hxs, ← hys, hfront, hback]

/-- Two lists of one length are equal when their parts are. -/
theorem eq_of_slice_eq {α : Type*} {xs ys : List α} (len len' : ℕ) (hxs : xs.length = len + len')
    (hys : ys.length = len + len') (hfront : slice xs 0 len = slice ys 0 len)
    (hback : slice xs len len' = slice ys len len') : xs = ys := by
  have hall := slice_add_congr hfront hback
  rwa [← hxs, slice_zero_length, hxs, ← hys, slice_zero_length] at hall

theorem leValue_injective {xs ys : List UInt8} (hlength : xs.length = ys.length)
    (h : leValue xs = leValue ys) : xs = ys := by
  rw [← leBytes_leValue xs, ← leBytes_leValue ys, hlength, h]

theorem byteRank_injective {xs ys : Bytes} (h : byteRank xs = byteRank ys) : xs = ys :=
  List.map_injective_iff.mpr (fun _ _ heq => UInt8.toNat_inj.mp heq) h

/-- A number read from two buffers, both of them long enough, comes from the same bytes. -/
theorem slice_eq_of_readLE {width offset : ℕ} {xs ys : Bytes} (hxs : offset + width ≤ xs.length)
    (hys : offset + width ≤ ys.length)
    (h : (readLE width xs offset).getD 0 = (readLE width ys offset).getD 0) :
    slice xs offset width = slice ys offset width := by
  rw [readLE, readLE, if_pos hxs, if_pos hys, Option.getD_some, Option.getD_some] at h
  exact leValue_injective (by rw [length_slice_of_le hxs, length_slice_of_le hys]) h

/-- A word of a buffer is the buffer when it is as long. -/
theorem eq_of_readLE {width : ℕ} {xs ys : Bytes} (hxs : xs.length = width)
    (hys : ys.length = width) (h : (readLE width xs 0).getD 0 = (readLE width ys 0).getD 0) :
    xs = ys := by
  have hslice := slice_eq_of_readLE (by omega) (by omega) h
  rwa [← hxs, slice_zero_length, hxs, ← hys, slice_zero_length] at hslice

/-! ## The shape of validated keys -/

/-- A key that ends in a name: a header, a count of `width` bytes, the name and a zero. -/
structure NamedKey (width : ℕ) (key : Bytes) : Prop where
  length : 8 + width < key.length
  terminated : key.getLast? = some 0

theorem NamedKey.slice_last {width : ℕ} {key : Bytes} (h : NamedKey width key) :
    slice key (key.length - 1) 1 = [0] := by
  obtain ⟨init, hinit⟩ := List.getLast?_eq_some_iff.mp h.terminated
  rw [hinit, List.length_append, List.length_singleton, Nat.add_sub_cancel, slice, List.drop_left,
    List.take_of_length_le (by rfl)]

/-- Named keys are the same bytes when their headers, counts and names are. -/
theorem NamedKey.eq_of_slice_eq {width : ℕ} {left right : Bytes} (hleft : NamedKey width left)
    (hright : NamedKey width right) (hheader : slice left 0 8 = slice right 0 8)
    (hcount : slice left 8 width = slice right 8 width)
    (hname : slice left (8 + width) (left.length - (9 + width)) =
      slice right (8 + width) (right.length - (9 + width))) : left = right := by
  have hleftLength := hleft.length
  have hrightLength := hright.length
  have hlengths := congrArg List.length hname
  rw [length_slice_of_le (by omega), length_slice_of_le (by omega)] at hlengths
  have hlength : left.length = right.length := by omega
  have hwithoutLast : slice left 0 (8 + width + (left.length - (9 + width))) =
      slice right 0 (8 + width + (left.length - (9 + width))) :=
    slice_add_congr (slice_add_congr hheader hcount) (by rw [hname, hlengths])
  refine Btree.eq_of_slice_eq _ 1 (by omega) (by omega) hwithoutLast ?_
  have hend : 8 + width + (left.length - (9 + width)) = left.length - 1 := by omega
  rw [hend, hleft.slice_last, hlength, hright.slice_last]

/-- The record types whose keys end in a name after a count of two bytes. -/
def NamedType (order : AppleBtreeKeyOrder) (type : ℕ) : Prop :=
  type = 4 ∨ type = 11 ∨ type = 9 ∧ order ≠ .fileSystemHashedDirectory

/-- **The shapes of the file-system keys** that the validation lets through. -/
structure FsKeyShape (order : AppleBtreeKeyOrder) (type : ℕ) (key : Bytes) : Prop where
  named : NamedType order type → NamedKey 2 key ∧ (readU16LE key 8).getD 0 = key.length - 10
  hashed : type = 9 → order = .fileSystemHashedDirectory →
    NamedKey 4 key ∧ (readU32LE key 8).getD 0 % 2 ^ 10 = key.length - 12
  word : type = 5 ∨ type = 8 ∨ type = 13 → key.length = 16
  bare : ¬NamedType order type → type ≠ 9 → ¬(type = 5 ∨ type = 8 ∨ type = 13) → key.length = 8

theorem fsKeyShape_of_validateFsKey {key : Bytes} {order : AppleBtreeKeyOrder}
    (h : validateFsKey key order = .ok ()) :
    FsKeyShape order (recordType ((readU64LE key 0).getD 0)) key := by
  rw [validateFsKey] at h
  by_cases hsize : key.length < 8 ∨ maximumFsKeyBytes < key.length
  · rw [if_pos hsize] at h
    cases h
  rw [if_neg hsize] at h
  dsimp only at h
  generalize recordType ((readU64LE key 0).getD 0) = type at h ⊢
  rw [not_or, not_lt, not_lt] at hsize
  by_cases hname : type = 4 ∨ type = 11
  · rw [if_pos hname] at h
    split_ifs at h with hheader hshort
    simp only [not_or, not_not] at hshort
    refine ⟨fun _ => ⟨⟨by omega, hshort.2.2.1⟩, by omega⟩, fun hdirectory => by omega,
      fun hword => by omega, fun hnot => absurd ?_ hnot⟩
    rw [NamedType]
    omega
  rw [if_neg hname] at h
  by_cases hdirectory : type = 9
  · rw [if_pos hdirectory] at h
    split_ifs at h with hheader horder hshort hshort
    all_goals simp only [not_or, not_not] at hshort
    · refine ⟨fun hnamed => ?_, fun _ _ => ⟨⟨by omega, hshort.2.2⟩, by omega⟩,
        fun hword => by omega, fun _ hnot => absurd hdirectory hnot⟩
      rcases hnamed with hnamed | hnamed | ⟨-, hplain⟩
      · omega
      · omega
      · exact absurd horder hplain
    · exact ⟨fun _ => ⟨⟨by omega, hshort.2.2⟩, by omega⟩, fun _ hhashed => absurd hhashed horder,
        fun hword => by omega, fun _ hnot => absurd hdirectory hnot⟩
  rw [if_neg hdirectory] at h
  split_ifs at h with hheader hword hbare
  refine ⟨fun hnamed => ?_, fun hcontra => absurd hcontra hdirectory, fun htype => ?_,
    fun _ _ htype => ?_⟩
  · rcases hnamed with hnamed | hnamed | hnamed
    · omega
    · omega
    · omega
  · by_contra hlength
    exact hword ⟨htype, hlength⟩
  · by_contra hlength
    exact hbare ⟨by omega, hlength⟩

/-! ## Ranks tell keys apart -/

/-- A header is its object id and its type. -/
theorem header_eq {left right : ℕ} (hid : recordObjectId left = recordObjectId right)
    (htype : recordType left = recordType right) : left = right := by
  rw [← Nat.div_add_mod left (2 ^ 60), ← Nat.div_add_mod right (2 ^ 60)]
  rw [recordObjectId, recordObjectId] at hid
  rw [recordType, recordType] at htype
  rw [hid, htype]

theorem fsTailRank_named {order : AppleBtreeKeyOrder} {type : ℕ} (h : NamedType order type)
    (key : Bytes) : fsTailRank order type key = byteRank (slice key 10 (key.length - 11)) := by
  rw [fsTailRank]
  rcases h with htype | htype | ⟨htype, horder⟩
  · rw [if_pos (Or.inl htype)]
  · rw [if_pos (Or.inr htype)]
  · rw [if_neg (by omega), if_pos htype, if_neg horder]

theorem fsTailRank_word {order : AppleBtreeKeyOrder} {type : ℕ}
    (h : type = 5 ∨ type = 8 ∨ type = 13) (key : Bytes) :
    fsTailRank order type key = [(readU64LE key 8).getD 0] := by
  rw [fsTailRank, if_neg (by omega), if_neg (by omega), if_pos h]

theorem fsKey_eq_of_rank {order : AppleBtreeKeyOrder} {left right : Bytes}
    (hleft : validateFsKey left order = .ok ()) (hright : validateFsKey right order = .ok ())
    (hheader : (readU64LE left 0).getD 0 = (readU64LE right 0).getD 0)
    (htail : fsTailRank order (recordType ((readU64LE left 0).getD 0)) left =
      fsTailRank order (recordType ((readU64LE left 0).getD 0)) right) : left = right := by
  have hleftShape := fsKeyShape_of_validateFsKey hleft
  have hrightShape := fsKeyShape_of_validateFsKey hright
  rw [← hheader] at hrightShape
  have hleftLength := (validateFsKey_length hleft).1
  have hrightLength := (validateFsKey_length hright).1
  have hfront : slice left 0 8 = slice right 0 8 :=
    slice_eq_of_readLE (by omega) (by omega) hheader
  generalize recordType ((readU64LE left 0).getD 0) = type at hleftShape hrightShape htail
  by_cases hnamed : NamedType order type
  · -- the name gives the length, and the length the count
    obtain ⟨hleftNamed, hleftCount⟩ := hleftShape.named hnamed
    obtain ⟨hrightNamed, hrightCount⟩ := hrightShape.named hnamed
    rw [fsTailRank_named hnamed, fsTailRank_named hnamed] at htail
    have hname := byteRank_injective htail
    have hlengths := congrArg List.length hname
    have hleftLong := hleftNamed.length
    have hrightLong := hrightNamed.length
    rw [length_slice_of_le (by omega), length_slice_of_le (by omega)] at hlengths
    have hcount : (readU16LE left 8).getD 0 = (readU16LE right 8).getD 0 := by
      rw [hleftCount, hrightCount]
      omega
    exact hleftNamed.eq_of_slice_eq hrightNamed hfront
      (slice_eq_of_readLE (by omega) (by omega) hcount) hname
  by_cases hdirectory : type = 9
  · -- the hash is the upper part of the count
    have horder : order = .fileSystemHashedDirectory := by
      by_contra hplain
      exact hnamed (Or.inr (Or.inr ⟨hdirectory, hplain⟩))
    obtain ⟨hleftNamed, hleftCount⟩ := hleftShape.hashed hdirectory horder
    obtain ⟨hrightNamed, hrightCount⟩ := hrightShape.hashed hdirectory horder
    rw [fsTailRank, fsTailRank, if_neg (by omega), if_pos hdirectory, if_pos horder,
      if_neg (by omega), if_pos hdirectory, if_pos horder, List.cons.injEq] at htail
    obtain ⟨hhash, hname⟩ := htail
    have hname := byteRank_injective hname
    have hlengths := congrArg List.length hname
    have hleftLong := hleftNamed.length
    have hrightLong := hrightNamed.length
    rw [length_slice_of_le (by omega), length_slice_of_le (by omega)] at hlengths
    have hcount : (readU32LE left 8).getD 0 = (readU32LE right 8).getD 0 := by omega
    exact hleftNamed.eq_of_slice_eq hrightNamed hfront
      (slice_eq_of_readLE (by omega) (by omega) hcount) hname
  by_cases hword : type = 5 ∨ type = 8 ∨ type = 13
  · have hleftSize := hleftShape.word hword
    have hrightSize := hrightShape.word hword
    rw [fsTailRank_word hword, fsTailRank_word hword, List.cons.injEq] at htail
    exact eq_of_slice_eq 8 8 hleftSize hrightSize hfront
      (slice_eq_of_readLE (by omega) (by omega) htail.1)
  · exact eq_of_readLE (hleftShape.bare hnamed hdirectory hword)
      (hrightShape.bare hnamed hdirectory hword) hheader

/-- **Validated keys of one rank are the same bytes.** -/
theorem keyRank_injective {order : AppleBtreeKeyOrder} {left right : Bytes}
    (hleft : KeyValid order left) (hright : KeyValid order right)
    (h : keyRank order left = keyRank order right) : left = right := by
  have hpair : left.length = 16 → right.length = 16 →
      [(readU64LE left 0).getD 0, (readU64LE left 8).getD 0] =
        [(readU64LE right 0).getD 0, (readU64LE right 8).getD 0] → left = right := by
    intro hleft hright hpair
    rw [List.cons.injEq, List.cons.injEq] at hpair
    exact eq_of_slice_eq 8 8 hleft hright (slice_eq_of_readLE (by omega) (by omega) hpair.1)
      (slice_eq_of_readLE (by omega) (by omega) hpair.2.1)
  have hword : left.length = 8 → right.length = 8 →
      [(readU64LE left 0).getD 0] = [(readU64LE right 0).getD 0] → left = right := by
    intro hleft hright hword
    rw [List.cons.injEq] at hword
    exact eq_of_readLE hleft hright hword.1
  have hfs : ∀ order, validateFsKey left order = .ok () → validateFsKey right order = .ok () →
      recordObjectId ((readU64LE left 0).getD 0) :: recordType ((readU64LE left 0).getD 0) ::
          fsTailRank order (recordType ((readU64LE left 0).getD 0)) left =
        recordObjectId ((readU64LE right 0).getD 0) :: recordType ((readU64LE right 0).getD 0) ::
          fsTailRank order (recordType ((readU64LE right 0).getD 0)) right → left = right := by
    intro order hleft hright hranks
    rw [List.cons.injEq, List.cons.injEq] at hranks
    obtain ⟨hid, htype, htail⟩ := hranks
    rw [← htype] at htail
    exact fsKey_eq_of_rank hleft hright (header_eq hid htype) htail
  cases order with
  | lexicographic => exact byteRank_injective h
  | objectMap => exact hpair hleft hright h
  | spacemanFreeQueue => exact hpair hleft hright h
  | physicalExtent => exact hword hleft hright h
  | snapshotObjectMap => exact hword hleft hright h
  | fileSystemCaseSensitive => exact hfs _ hleft hright h
  | fileSystemHashedDirectory => exact hfs _ hleft hright h

/-! ## The comparison as an order -/

section Order

variable {order : AppleBtreeKeyOrder}

/-- The comparison has a result, the other way round the opposite one, and `eq` for equal bytes
only. -/
theorem compareKeys_total {left right : Bytes} (hleft : KeyValid order left)
    (hright : KeyValid order right) :
    ∃ ordering, compareKeys order left right = some ordering ∧
      compareKeys order right left = some ordering.swap ∧ (ordering = .eq ↔ left = right) := by
  rw [compareKeys_eq_compareValues hleft hright, compareKeys_eq_compareValues hright hleft]
  rcases lt_trichotomy (keyRank order left) (keyRank order right) with hlt | heq | hgt
  · have hne : left ≠ right := fun heq => hlt.ne (heq ▸ rfl)
    refine ⟨.lt, congrArg some (compareValues_eq_lt_iff.mpr hlt),
      congrArg some (compareValues_eq_gt_iff.mpr hlt), ?_⟩
    exact ⟨nofun, fun heq => absurd heq hne⟩
  · exact ⟨.eq, congrArg some (compareValues_eq_eq_iff.mpr heq),
      congrArg some (compareValues_eq_eq_iff.mpr heq.symm),
      fun _ => keyRank_injective hleft hright heq, fun _ => rfl⟩
  · have hne : left ≠ right := fun heq => hgt.ne (heq ▸ rfl)
    refine ⟨.gt, congrArg some (compareValues_eq_gt_iff.mpr hgt),
      congrArg some (compareValues_eq_lt_iff.mpr hgt), ?_⟩
    exact ⟨nofun, fun heq => absurd heq hne⟩

theorem compareKeys_trans {a b c : Bytes} (ha : KeyValid order a) (hb : KeyValid order b)
    (hc : KeyValid order c) (hab : compareKeys order a b = some .lt)
    (hbc : compareKeys order b c = some .lt) : compareKeys order a c = some .lt := by
  rw [compareKeys_eq_compareValues ha hb, Option.some_inj, compareValues_eq_lt_iff] at hab
  rw [compareKeys_eq_compareValues hb hc, Option.some_inj, compareValues_eq_lt_iff] at hbc
  rw [compareKeys_eq_compareValues ha hc, Option.some_inj, compareValues_eq_lt_iff]
  exact hab.trans hbc

/-- **Sorted lists are unique**: the order in which the records were given does not matter. -/
theorem sortAppleBtreeRecords_unique {records records' sorted sorted' : List BtreeRecord}
    (hperm : records.Perm records') (h : sortAppleBtreeRecords records order = .ok sorted)
    (h' : sortAppleBtreeRecords records' order = .ok sorted') : sorted = sorted' := by
  obtain ⟨hsortedPerm, -, hsorted⟩ := sortAppleBtreeRecords_spec h
  obtain ⟨hsortedPerm', -, hsorted'⟩ := sortAppleBtreeRecords_spec h'
  exact ((hsortedPerm.trans hperm).trans hsortedPerm'.symm).eq_of_pairwise
    (fun a b _ _ hab hba => absurd (hab.trans hba) (lt_irrefl _)) hsorted hsorted'

/-- **Equal keys are found**, wherever they stand among validated records, and nothing else is. -/
theorem sortAppleBtreeRecords_duplicate_iff {records : List BtreeRecord}
    (h : validateAppleBtreeRecords order records = .ok ()) :
    sortAppleBtreeRecords records order = .error "AppleBtreeDuplicateKey" ↔
      ¬(records.map (·.key)).Nodup := by
  have hvalid : ∀ record ∈ records, KeyValid order record.key := fun record hrecord =>
    (validateAppleBtreeRecord_key (validateAppleBtreeRecord_of_mem h record hrecord)).2
  have hsort : sortAppleBtreeRecords records order =
      if (sortBy records fun a b => compareKeys order b.key a.key != some .lt).IsChain
          fun a b => compareKeys order a.key b.key ≠ some .eq then
        .ok (sortBy records fun a b => compareKeys order b.key a.key != some .lt)
      else .error "AppleBtreeDuplicateKey" := by
    rw [sortAppleBtreeRecords, h]
  have hperm := sortBy_perm records fun a b => compareKeys order b.key a.key != some .lt
  constructor
  · intro herror hnodup
    rw [hsort, if_pos] at herror
    · cases herror
    · have hsortedNodup := (hperm.map (·.key)).nodup_iff.mpr hnodup
      refine (List.Pairwise.isChain (List.pairwise_map.mp hsortedNodup)).imp_of_mem_imp
        fun a b ha hb hne heq => hne ?_
      rw [compareKeys_eq_compareValues (hvalid a (hperm.subset ha)) (hvalid b (hperm.subset hb)),
        Option.some_inj, compareValues_eq_eq_iff] at heq
      exact keyRank_injective (hvalid a (hperm.subset ha)) (hvalid b (hperm.subset hb)) heq
  · intro hnodup
    by_contra hok
    rw [hsort] at hok
    split_ifs at hok with hchain
    · obtain ⟨-, -, hsorted⟩ := sortAppleBtreeRecords_spec (hsort.trans (if_pos hchain))
      refine hnodup ((hperm.map (·.key)).nodup_iff.mp (List.pairwise_map.mpr
        (hsorted.imp fun hlt heq => ?_)))
      rw [heq] at hlt
      exact lt_irrefl _ hlt
    · exact hok rfl

end Order

/-- **The comparison of the writer is a strict total order** on validated keys, for each order of
keys: so sorted lists are unique, and duplicates are found as neighbours. -/
theorem compareKeys_strictTotalOrder (order : AppleBtreeKeyOrder) :
    (∀ left right, KeyValid order left → KeyValid order right →
      ∃ ordering, compareKeys order left right = some ordering ∧
        compareKeys order right left = some ordering.swap ∧ (ordering = .eq ↔ left = right)) ∧
    (∀ a b c, KeyValid order a → KeyValid order b → KeyValid order c →
      compareKeys order a b = some .lt → compareKeys order b c = some .lt →
        compareKeys order a c = some .lt) ∧
    (∀ records records' sorted sorted', records.Perm records' →
      sortAppleBtreeRecords records order = .ok sorted →
      sortAppleBtreeRecords records' order = .ok sorted' → sorted = sorted') ∧
    ∀ records, validateAppleBtreeRecords order records = .ok () →
      (∀ record ∈ records, KeyValid order record.key) ∧
      (sortAppleBtreeRecords records order = .error "AppleBtreeDuplicateKey" ↔
        ¬(records.map (·.key)).Nodup) :=
  ⟨fun _ _ => compareKeys_total, fun _ _ _ => compareKeys_trans,
    fun _ _ _ _ => sortAppleBtreeRecords_unique, fun _ h =>
      ⟨fun record hrecord => (validateAppleBtreeRecord_key
        (validateAppleBtreeRecord_of_mem h record hrecord)).2,
      sortAppleBtreeRecords_duplicate_iff h⟩⟩

end Btree
end ApfsAccess
