import Mathlib

/-!
# Mapping bits from one word to another

A table of pairs of masks maps the bits of a word one by one: where a source is set in the input, the
target is set in the output, and an input with a bit that is no source is refused.  When the masks of
each side are single bits, no two of them the same, the mapping along the turned table is the inverse.

* `mapBits_iff` : the bits of the output.
* `mapBits_turn_iff` : the turned table maps back.
-/

namespace BitMapping

variable {w : ℕ}

/-- The mapping of the bits that remain, onto the output so far. -/
def mapFrom : List (BitVec w × BitVec w) → BitVec w → BitVec w → Option (BitVec w)
  | [], input, output => if input = 0 then some output else none
  | (source, target) :: rest, input, output =>
    if input &&& source ≠ 0 then mapFrom rest (input &&& ~~~source) (output ||| target)
    else mapFrom rest input output

/-- The output, if every bit of the input is a source. -/
def mapBits (table : List (BitVec w × BitVec w)) (input : BitVec w) : Option (BitVec w) :=
  mapFrom table input 0

/-- The table with sources and targets turned. -/
def turn (table : List (BitVec w × BitVec w)) : List (BitVec w × BitVec w) :=
  table.map Prod.swap

/-- The table of single bits at some positions. -/
def masks (positions : List (ℕ × ℕ)) : List (BitVec w × BitVec w) :=
  positions.map fun position => (BitVec.twoPow w position.1, BitVec.twoPow w position.2)

/-- Positions of single bits that a word has, no two of them the same on either side. -/
structure Separates (w : ℕ) (positions : List (ℕ × ℕ)) : Prop where
  bounds : ∀ position ∈ positions, position.1 < w ∧ position.2 < w
  sources : (positions.map Prod.fst).Nodup
  targets : (positions.map Prod.snd).Nodup

section Mapping

variable {positions : List (ℕ × ℕ)} {input output result : BitVec w}

theorem and_twoPow_ne_zero {position : ℕ} (h : position < w) :
    input &&& BitVec.twoPow w position ≠ 0 ↔ input.getLsbD position = true := by
  rw [BitVec.and_twoPow]
  split_ifs with hset
  · refine iff_of_true (fun hzero => ?_) hset
    have hbit := congrArg (·.getLsbD position) hzero
    simp only [BitVec.getLsbD_twoPow, h, decide_true, Bool.true_and, BitVec.ofNat_eq_ofNat,
      BitVec.getLsbD_zero] at hbit
    cases hbit
  · exact iff_of_false (fun hne => hne rfl) hset

/-- The bits that are left when one is cleared. -/
theorem getLsbD_clear {position k : ℕ} (h : position < w) :
    (input &&& ~~~BitVec.twoPow w position).getLsbD k = true ↔
      input.getLsbD k = true ∧ k ≠ position := by
  rw [BitVec.getLsbD_and, BitVec.getLsbD_not, BitVec.getLsbD_twoPow, Bool.and_eq_true]
  refine and_congr_right fun hset => ?_
  have hk : k < w := BitVec.lt_of_getLsbD hset
  simp only [h, hk, decide_true, Bool.true_and, Bool.not_eq_true', decide_eq_false_iff_not]
  exact ne_comm

theorem getLsbD_or_twoPow {position k : ℕ} (h : position < w) :
    (output ||| BitVec.twoPow w position).getLsbD k = true ↔
      output.getLsbD k = true ∨ position = k := by
  rw [BitVec.getLsbD_or, BitVec.getLsbD_twoPow, Bool.or_eq_true]
  simp only [h, decide_true, Bool.true_and, decide_eq_true_eq]

/-- **The bits of the output.** -/
theorem mapFrom_iff (hbounds : ∀ position ∈ positions, position.1 < w ∧ position.2 < w)
    (hsources : (positions.map Prod.fst).Nodup) :
    mapFrom (masks positions) input output = some result ↔
      (∀ k, input.getLsbD k = true → k ∈ positions.map Prod.fst) ∧
      ∀ k, result.getLsbD k = true ↔ output.getLsbD k = true ∨
        ∃ position ∈ positions, position.2 = k ∧ input.getLsbD position.1 = true := by
  induction positions generalizing input output with
  | nil =>
    rw [masks, List.map_nil, mapFrom]
    constructor
    · intro h
      split_ifs at h with hzero
      obtain rfl := Option.some.inj h
      refine ⟨fun k hk => ?_, fun k => ⟨Or.inl, fun hk => hk.resolve_right ?_⟩⟩
      · rw [hzero] at hk
        simp at hk
      · rintro ⟨position, hposition, -⟩
        exact List.not_mem_nil hposition
    · rintro ⟨hinput, hresult⟩
      have hzero : input = 0 := by
        refine BitVec.eq_of_getLsbD_eq fun k _ => ?_
        rw [BitVec.ofNat_eq_ofNat, BitVec.getLsbD_zero, ← Bool.not_eq_true]
        exact fun hk => List.not_mem_nil (hinput k hk)
      rw [if_pos hzero, Option.some.injEq]
      refine BitVec.eq_of_getLsbD_eq fun k _ => Bool.eq_iff_iff.mpr ?_
      rw [hresult k]
      exact ⟨Or.inl, fun hk => hk.resolve_right fun ⟨_, hposition, _⟩ =>
        List.not_mem_nil hposition⟩
  | cons first rest ih =>
    rw [List.forall_mem_cons] at hbounds
    obtain ⟨hfresh, hrest⟩ := List.nodup_cons.mp hsources
    have hstep : masks (first :: rest) =
        (BitVec.twoPow w first.1, BitVec.twoPow w first.2) :: masks rest := rfl
    have hcons : ∀ k, (∃ position ∈ first :: rest, position.2 = k ∧
        input.getLsbD position.1 = true) ↔ (first.2 = k ∧ input.getLsbD first.1 = true) ∨
          ∃ position ∈ rest, position.2 = k ∧ input.getLsbD position.1 = true :=
      fun k => List.exists_mem_cons_iff _ _ _
    rw [hstep, mapFrom]
    simp only [hcons, List.map_cons]
    simp only [List.mem_cons]
    by_cases hset : input.getLsbD first.1 = true
    · rw [if_pos ((and_twoPow_ne_zero hbounds.1.1).mpr hset), ih hbounds.2 hrest]
      simp only [getLsbD_clear hbounds.1.1, getLsbD_or_twoPow hbounds.1.2]
      refine and_congr (forall_congr' fun k => ?_) (forall_congr' fun k => iff_congr Iff.rfl ?_)
      · constructor
        · intro h hk
          by_cases hsame : k = first.1
          · exact Or.inl hsame
          · exact Or.inr (h ⟨hk, hsame⟩)
        · exact fun h hk => (h hk.1).resolve_left hk.2
      · have hapart : ∀ position ∈ rest, position.1 ≠ first.1 := fun position hposition hsame =>
          hfresh (hsame ▸ List.mem_map_of_mem hposition)
        constructor
        · rintro ((hout | hfirst) | ⟨position, hposition, htarget, hbit, -⟩)
          · exact Or.inl hout
          · exact Or.inr (Or.inl ⟨hfirst, hset⟩)
          · exact Or.inr (Or.inr ⟨position, hposition, htarget, hbit⟩)
        · rintro (hout | ⟨hfirst, -⟩ | ⟨position, hposition, htarget, hbit⟩)
          · exact Or.inl (Or.inl hout)
          · exact Or.inl (Or.inr hfirst)
          · exact Or.inr ⟨position, hposition, htarget, hbit, hapart position hposition⟩
    · rw [if_neg fun hne => hset ((and_twoPow_ne_zero hbounds.1.1).mp hne), ih hbounds.2 hrest]
      simp only [hset, Bool.false_eq_true, and_false, false_or]
      refine and_congr_left fun _ => forall_congr' fun k => ?_
      refine imp_congr_right fun hk => (or_iff_right ?_).symm
      rintro rfl
      exact hset hk

theorem mapBits_iff (h : Separates w positions) :
    mapBits (masks positions) input = some result ↔
      (∀ k, input.getLsbD k = true → k ∈ positions.map Prod.fst) ∧
      ∀ k, result.getLsbD k = true ↔
        ∃ position ∈ positions, position.2 = k ∧ input.getLsbD position.1 = true := by
  rw [mapBits, mapFrom_iff h.bounds h.sources]
  simp only [BitVec.ofNat_eq_ofNat, BitVec.getLsbD_zero, Bool.false_eq_true, false_or]

theorem turn_masks (positions : List (ℕ × ℕ)) :
    turn (masks positions) = (masks (positions.map Prod.swap) : List (BitVec w × BitVec w)) := by
  rw [turn, masks, masks, List.map_map, List.map_map]
  rfl

theorem Separates.turn (h : Separates w positions) : Separates w (positions.map Prod.swap) where
  bounds := by
    intro position hposition
    obtain ⟨source, hsource, rfl⟩ := List.mem_map.mp hposition
    exact (h.bounds source hsource).symm
  sources := by
    rw [List.map_map]
    exact h.targets
  targets := by
    rw [List.map_map]
    exact h.sources

/-- What is mapped along a table is mapped back along the turned one. -/
theorem mapBits_turn (h : Separates w positions)
    (hresult : mapBits (masks positions) input = some result) :
    mapBits (turn (masks positions)) result = some input := by
  obtain ⟨hinput, hbits⟩ := (mapBits_iff h).mp hresult
  rw [turn_masks, mapBits_iff h.turn]
  constructor
  · intro k hk
    obtain ⟨position, hposition, rfl, -⟩ := (hbits k).mp hk
    rw [List.map_map]
    exact List.mem_map_of_mem hposition
  · intro k
    constructor
    · intro hk
      obtain ⟨position, hposition, rfl⟩ := List.mem_map.mp (hinput k hk)
      exact ⟨position.swap, List.mem_map_of_mem hposition, rfl,
        (hbits position.2).mpr ⟨position, hposition, rfl, hk⟩⟩
    · rintro ⟨turned, hturned, rfl, hbit⟩
      obtain ⟨position, hposition, rfl⟩ := List.mem_map.mp hturned
      obtain ⟨other, hother, htarget, hset⟩ := (hbits position.2).mp hbit
      obtain rfl := List.inj_on_of_nodup_map h.targets hother hposition htarget
      exact hset

/-- **The two directions of a table** are inverse to each other. -/
theorem mapBits_turn_iff (h : Separates w positions) :
    mapBits (masks positions) input = some result ↔
      mapBits (turn (masks positions)) result = some input := by
  refine ⟨mapBits_turn h, fun hback => ?_⟩
  rw [turn_masks] at hback
  have hforth := mapBits_turn h.turn hback
  rwa [← turn_masks, turn, turn, List.map_map, Prod.swap_swap_eq, List.map_id] at hforth

end Mapping

end BitMapping
