import ApfsAccess.Names.Projection

/-!
# Normalization: `utf8proc_map` with the options the name layer passes

The name layer always rejects unassigned code points, and asks for decomposition and for
case folding as the volume's policy says.  The character data of the library is a
structure: its tables are functions, and its fields carry what the generated tables bear
out and the code relies on (every entry of a sequence is itself an assigned scalar value,
sequences do not run in circles, Hangul syllables are assigned).

* `decompose_eq_ok` : a mapping that went through met assigned code points only.
* `utf8procMap_of_assigned` : on assigned scalar values it always goes through, and writes
  scalar values again.
-/

namespace ApfsAccess
namespace Names

open Format

/-! ## The full folds of Unicode 9 -/

/-- `kUnicode9FullFoldOverrides`: a code point and the two it is expanded to. -/
def unicode9FullFoldOverrides : List (ℕ × ℕ × ℕ) :=
  [(0x1e9e, 0x0073, 0x0073),
    (0x1f88, 0x1f00, 0x03b9), (0x1f89, 0x1f01, 0x03b9), (0x1f8a, 0x1f02, 0x03b9),
    (0x1f8b, 0x1f03, 0x03b9), (0x1f8c, 0x1f04, 0x03b9), (0x1f8d, 0x1f05, 0x03b9),
    (0x1f8e, 0x1f06, 0x03b9), (0x1f8f, 0x1f07, 0x03b9), (0x1f98, 0x1f20, 0x03b9),
    (0x1f99, 0x1f21, 0x03b9), (0x1f9a, 0x1f22, 0x03b9), (0x1f9b, 0x1f23, 0x03b9),
    (0x1f9c, 0x1f24, 0x03b9), (0x1f9d, 0x1f25, 0x03b9), (0x1f9e, 0x1f26, 0x03b9),
    (0x1f9f, 0x1f27, 0x03b9), (0x1fa8, 0x1f60, 0x03b9), (0x1fa9, 0x1f61, 0x03b9),
    (0x1faa, 0x1f62, 0x03b9), (0x1fab, 0x1f63, 0x03b9), (0x1fac, 0x1f64, 0x03b9),
    (0x1fad, 0x1f65, 0x03b9), (0x1fae, 0x1f66, 0x03b9), (0x1faf, 0x1f67, 0x03b9),
    (0x1fbc, 0x03b1, 0x03b9), (0x1fcc, 0x03b7, 0x03b9), (0x1ffc, 0x03c9, 0x03b9)]

/-- The override of a code point: the first entry that is not below it, when it is its own. -/
def fullFoldOverride (codePoint : ℕ) : Option (ℕ × ℕ × ℕ) :=
  (unicode9FullFoldOverrides.find? fun entry => codePoint ≤ entry.1).filter
    fun entry => entry.1 == codePoint

theorem mem_of_fullFoldOverride {codePoint : ℕ} {entry : ℕ × ℕ × ℕ}
    (h : fullFoldOverride codePoint = some entry) :
    entry ∈ unicode9FullFoldOverrides ∧ entry.1 = codePoint := by
  rw [fullFoldOverride, Option.filter_eq_some_iff] at h
  exact ⟨List.mem_of_find?_eq_some h.1, beq_iff_eq.mp h.2⟩

theorem codepointValid_of_mem_overrides :
    ∀ entry ∈ unicode9FullFoldOverrides, codepointValid entry.2.1 ∧ codepointValid entry.2.2 := by
  decide

/-- What one code point is expanded to. -/
def fullFold (codePoint : ℕ) : List ℕ :=
  match fullFoldOverride codePoint with
  | none => [codePoint]
  | some entry => [entry.2.1, entry.2.2]

/-- One turn of the loop of `ExpandUnicode9FullFolds`. -/
def expandFullFold (output : Bytes) (codePoint : ℕ) : Except Unit Bytes :=
  match (fullFold codePoint).foldlM (fun output mapped => appendUtf8 mapped output) output with
  | none => .error ()
  | some output => .ok output

/-- `ExpandUnicode9FullFolds`. -/
def expandUnicode9FullFolds (input : Bytes) : Except Unit Bytes :=
  foldCodePoints () expandFullFold [] input

theorem codepointValid_of_mem_fullFold {codePoint mapped : ℕ} (h : codepointValid codePoint)
    (hmem : mapped ∈ fullFold codePoint) : codepointValid mapped := by
  unfold fullFold at hmem
  split at hmem
  · rw [List.mem_singleton.mp hmem]
    exact h
  · rename_i entry hentry
    obtain ⟨hfirst, hsecond⟩ :=
      codepointValid_of_mem_overrides entry (mem_of_fullFoldOverride hentry).1
    simp only [List.mem_cons, List.not_mem_nil, or_false] at hmem
    rcases hmem with rfl | rfl
    · exact hfirst
    · exact hsecond

theorem foldlM_appendUtf8 {codePoints : List ℕ}
    (h : ∀ codePoint ∈ codePoints, codepointValid codePoint) (output : Bytes) :
    codePoints.foldlM (fun output mapped => appendUtf8 mapped output) output =
      some (output ++ encodeAll codePoints) := by
  induction codePoints generalizing output with
  | nil => rw [encodeAll_nil, List.append_nil]; rfl
  | cons codePoint codePoints ih =>
    obtain ⟨hfirst, hrest⟩ := List.forall_mem_cons.mp h
    rw [List.foldlM_cons, appendUtf8_eq hfirst.1]
    show List.foldlM _ (output ++ encodeChar codePoint) codePoints = _
    rw [ih hrest, encodeAll_cons, List.append_assoc]

/-- The expansion spells the expanded code points. -/
theorem expandUnicode9FullFolds_encodeAll {codePoints : List ℕ}
    (h : ∀ codePoint ∈ codePoints, codepointValid codePoint) :
    expandUnicode9FullFolds (encodeAll codePoints) =
      .ok (encodeAll (codePoints.flatMap fullFold)) := by
  have hgo : ∀ output : Bytes, codePoints.foldlM expandFullFold output =
      .ok (output ++ encodeAll (codePoints.flatMap fullFold)) := by
    induction codePoints with
    | nil => intro output; rw [List.flatMap_nil, encodeAll_nil, List.append_nil]; rfl
    | cons codePoint codePoints ih =>
      obtain ⟨hfirst, hrest⟩ := List.forall_mem_cons.mp h
      intro output
      have hstep : expandFullFold output codePoint =
          .ok (output ++ encodeAll (fullFold codePoint)) := by
        rw [expandFullFold, foldlM_appendUtf8 fun mapped hmem =>
          codepointValid_of_mem_fullFold hfirst hmem]
      rw [List.foldlM_cons, hstep]
      show List.foldlM _ (output ++ encodeAll (fullFold codePoint)) codePoints = _
      rw [ih hrest, List.flatMap_cons, encodeAll_append, List.append_assoc]
  rw [expandUnicode9FullFolds, foldCodePoints_encodeAll h, hgo, List.nil_append]

/-! ## The character data -/

/-- The index of a Hangul syllable. -/
def isHangulSyllable (codePoint : ℕ) : Prop := 0xAC00 ≤ codePoint ∧ codePoint < 0xAC00 + 11172

instance (codePoint : ℕ) : Decidable (isHangulSyllable codePoint) := by
  unfold isHangulSyllable
  infer_instance

/-- The tables of `utf8proc_data.c` that the name layer reads, with what they bear out. -/
structure UnicodeData where
  /-- `category`, zero for a code point that is not assigned. -/
  category : ℕ → ℕ
  /-- `combining_class`. -/
  combiningClass : ℕ → ℕ
  /-- The sequence behind `casefold_seqindex`. -/
  casefold : ℕ → Option (List ℕ)
  /-- The sequence behind `decomp_seqindex`, for the canonical decompositions. -/
  decomposition : ℕ → Option (List ℕ)
  /-- How often the entries of sequences lead to further sequences. -/
  depth : ℕ → ℕ
  casefold_depth : ∀ {codePoint entries entry}, casefold codePoint = some entries →
    entry ∈ entries → depth entry < depth codePoint
  decomposition_depth : ∀ {codePoint entries entry}, decomposition codePoint = some entries →
    entry ∈ entries → depth entry < depth codePoint
  casefold_entry : ∀ {codePoint entries entry}, casefold codePoint = some entries →
    entry ∈ entries → category entry ≠ 0 ∧ codepointValid entry
  decomposition_entry : ∀ {codePoint entries entry}, decomposition codePoint = some entries →
    entry ∈ entries → category entry ≠ 0 ∧ codepointValid entry
  hangul_assigned : ∀ {codePoint}, isHangulSyllable codePoint → category codePoint ≠ 0
  override_assigned : ∀ {entry}, entry ∈ unicode9FullFoldOverrides →
    category entry.1 ≠ 0 ∧ category entry.2.1 ≠ 0 ∧ category entry.2.2 ≠ 0

/-- The options that differ between the policies: `UTF8PROC_DECOMPOSE` and
`UTF8PROC_CASEFOLD`.  `UTF8PROC_STABLE` and `UTF8PROC_REJECTNA` are always set. -/
structure MapOptions where
  decompose : Bool
  casefold : Bool
  deriving DecidableEq, Repr

/-- The errors of `utf8proc_map` that these options can raise. -/
inductive MapError where
  | overflow
  | invalidUtf8
  | notAssigned
  deriving DecidableEq, Repr

/-- `utf8proc_errmsg`. -/
def MapError.message : MapError → String
  | .overflow => "UTF-8 string is too long to be processed."
  | .invalidUtf8 => "Invalid UTF-8 string"
  | .notAssigned => "Unassigned Unicode code point found in UTF-8 string."

/-- The jamo of a Hangul syllable. -/
def hangulDecomposition (codePoint : ℕ) : List ℕ :=
  let index := codePoint - 0xAC00
  if index % 28 = 0 then [0x1100 + index / 588, 0x1161 + index % 588 / 28]
  else [0x1100 + index / 588, 0x1161 + index % 588 / 28, 0x11A7 + index % 28]

/-- What `seqindex_write_char_decomposed` does with the decomposition of one entry. -/
def appendEntry (output : List ℕ) : Except MapError (List ℕ) → Except MapError (List ℕ)
  | .error _ => .error .overflow
  | .ok codePoints => .ok (output ++ codePoints)

section Map

variable (data : UnicodeData) (options : MapOptions)

/-- The sequence a code point is replaced by, when there is one. -/
def replacement (codePoint : ℕ) : Option (List ℕ) :=
  if options.casefold ∧ (data.casefold codePoint).isSome then data.casefold codePoint
  else if options.decompose then data.decomposition codePoint
  else none

/-- `utf8proc_decompose_char`; the entries of a sequence are decomposed in turn, at most
`fuel` deep. -/
def decomposeChar : ℕ → ℕ → Except MapError (List ℕ)
  | 0, _ => .error .overflow
  | fuel + 1, codePoint =>
    if 0x110000 ≤ codePoint then .error .notAssigned
    else if options.decompose ∧ isHangulSyllable codePoint then .ok (hangulDecomposition codePoint)
    else if data.category codePoint = 0 then .error .notAssigned
    else
      match replacement data options codePoint with
      | none => .ok [codePoint]
      | some entries =>
        entries.foldlM (fun output entry => appendEntry output (decomposeChar fuel entry)) []

/-- One code point of `utf8proc_decompose`. -/
def decomposeStep (output : List ℕ) (codePoint : ℕ) : Except MapError (List ℕ) :=
  match decomposeChar data options (data.depth codePoint + 1) codePoint with
  | .error error => .error error
  | .ok codePoints => .ok (output ++ codePoints)

end Map

/-! ## The canonical order -/

/-- Two neighbours that the reordering loop swaps. -/
def outOfOrder (data : UnicodeData) (first second : ℕ) : Prop :=
  data.combiningClass second < data.combiningClass first ∧ 0 < data.combiningClass second

instance (data : UnicodeData) (first second : ℕ) : Decidable (outOfOrder data first second) := by
  unfold outOfOrder
  infer_instance

/-- The number of pairs that stand out of order. -/
def inversions (data : UnicodeData) : List ℕ → ℕ
  | [] => 0
  | first :: rest => rest.countP (fun second => outOfOrder data first second) + inversions data rest

/-- Swapping two neighbours that are out of order removes one inversion. -/
theorem inversions_swap (data : UnicodeData) (left : List ℕ) {first second : ℕ} (rest : List ℕ)
    (h : outOfOrder data first second) :
    inversions data (left ++ second :: first :: rest) + 1 =
      inversions data (left ++ first :: second :: rest) := by
  induction left with
  | nil =>
    have hback : ¬outOfOrder data second first := fun hback => by
      have := h.1
      have := hback.1
      omega
    simp only [List.nil_append, inversions, List.countP_cons, h, hback, decide_true, decide_false,
      if_true, Bool.false_eq_true, if_false]
    omega
  | cons head left ih =>
    have hperm : (left ++ second :: first :: rest).Perm (left ++ first :: second :: rest) :=
      (List.Perm.swap first second rest).append_left left
    simp only [List.cons_append, inversions]
    rw [hperm.countP_eq, ← ih]
    omega

/-- The reordering loop of `utf8proc_decompose`: `left` is the buffer before the position,
last first, and `right` the buffer from the position on. -/
def reorder (data : UnicodeData) (left right : List ℕ) : List ℕ :=
  match right with
  | [] => left.reverse
  | [last] => left.reverse ++ [last]
  | first :: second :: rest =>
    if outOfOrder data first second then
      match left with
      | [] => reorder data [second] (first :: rest)
      | before :: left => reorder data left (before :: second :: first :: rest)
    else reorder data (first :: left) (second :: rest)
termination_by (inversions data (left.reverse ++ right), right.length)
decreasing_by
  · rename_i h
    refine Prod.Lex.left _ _ ?_
    have := inversions_swap data [] rest h
    simp only [List.reverse_nil, List.nil_append, List.reverse_singleton,
      List.singleton_append] at this ⊢
    omega
  · rename_i h
    refine Prod.Lex.left _ _ ?_
    have := inversions_swap data (left.reverse ++ [before]) rest h
    simp only [List.reverse_cons, List.append_assoc, List.singleton_append] at this ⊢
    omega
  · have hsame : (first :: left).reverse ++ second :: rest =
        left.reverse ++ first :: second :: rest := by simp
    rw [hsame]
    exact Prod.Lex.right _ (by simp)

/-- The loop only moves code points. -/
theorem reorder_perm (data : UnicodeData) (left right : List ℕ) :
    (reorder data left right).Perm (left.reverse ++ right) := by
  fun_induction reorder data left right with
  | case1 left => simp
  | case2 left last => simp
  | case3 first second rest h ih =>
    refine ih.trans ?_
    simpa using List.Perm.swap first second rest
  | case4 first second rest h before left ih =>
    refine ih.trans ?_
    simp only [List.reverse_cons, List.append_assoc, List.singleton_append]
    exact ((List.Perm.swap first second rest).cons before).append_left left.reverse
  | case5 first second rest left h ih =>
    refine ih.trans (List.Perm.of_eq ?_)
    simp

/-- `utf8proc_decompose`. -/
def decompose (data : UnicodeData) (options : MapOptions) (input : Bytes) :
    Except MapError (List ℕ) :=
  match foldCodePoints .invalidUtf8 (decomposeStep data options) [] input with
  | .error error => .error error
  | .ok codePoints =>
    if options.decompose then .ok (reorder data [] codePoints) else .ok codePoints

/-- `utf8proc_map`: decomposition, then `utf8proc_reencode`. -/
def utf8procMap (data : UnicodeData) (options : MapOptions) (input : Bytes) :
    Except MapError Bytes :=
  match decompose data options input with
  | .error error => .error error
  | .ok codePoints => .ok (encodeAll codePoints)

/-! ## What goes through -/

section Assigned

variable {data : UnicodeData} {options : MapOptions}

theorem replacement_entry {codePoint entry : ℕ} {entries : List ℕ}
    (h : replacement data options codePoint = some entries) (hmem : entry ∈ entries) :
    data.depth entry < data.depth codePoint ∧ data.category entry ≠ 0 ∧ codepointValid entry := by
  unfold replacement at h
  split at h
  · exact ⟨data.casefold_depth h hmem, data.casefold_entry h hmem⟩
  · split at h
    · exact ⟨data.decomposition_depth h hmem, data.decomposition_entry h hmem⟩
    · cases h

/-- A code point that was decomposed is assigned. -/
theorem assigned_of_decomposeChar {fuel codePoint : ℕ} {output : List ℕ}
    (h : decomposeChar data options fuel codePoint = .ok output) :
    data.category codePoint ≠ 0 := by
  cases fuel with
  | zero => cases h
  | succ fuel =>
    rw [decomposeChar] at h
    split at h
    · cases h
    split at h
    · rename_i hhangul
      exact data.hangul_assigned hhangul.2
    split at h
    · cases h
    · assumption

theorem codepointValid_hangulDecomposition {codePoint : ℕ} (h : isHangulSyllable codePoint) :
    ∀ jamo ∈ hangulDecomposition codePoint, codepointValid jamo := by
  unfold isHangulSyllable at h
  intro jamo hmem
  unfold hangulDecomposition at hmem
  simp only at hmem
  split at hmem
  all_goals
    simp only [List.mem_cons, List.not_mem_nil, or_false] at hmem
    unfold codepointValid
    omega

/-- A loop that appends what each element gives succeeds when each element does. -/
theorem foldlM_append_ok {ε : Type} {step : List ℕ → ℕ → Except ε (List ℕ)} {good : ℕ → Prop}
    {elements : List ℕ}
    (h : ∀ element ∈ elements, ∃ added, (∀ codePoint ∈ added, good codePoint) ∧
      ∀ output, step output element = .ok (output ++ added)) (output : List ℕ) :
    ∃ added, (∀ codePoint ∈ added, good codePoint) ∧
      elements.foldlM step output = .ok (output ++ added) := by
  induction elements generalizing output with
  | nil => exact ⟨[], by simp, by rw [List.append_nil]; rfl⟩
  | cons element elements ih =>
    obtain ⟨hfirst, hrest⟩ := List.forall_mem_cons.mp h
    obtain ⟨added, hadded, hstep⟩ := hfirst
    obtain ⟨further, hfurther, hfold⟩ := ih hrest (output ++ added)
    refine ⟨added ++ further, ?_, ?_⟩
    · intro codePoint hmem
      rcases List.mem_append.mp hmem with hold | hnew
      · exact hadded codePoint hold
      · exact hfurther codePoint hnew
    · rw [List.foldlM_cons, hstep, ← List.append_assoc]
      exact hfold

/-- **An assigned scalar value is decomposed into scalar values**, with the fuel its depth asks
for. -/
theorem decomposeChar_of_assigned (options : MapOptions) {fuel codePoint : ℕ}
    (hfuel : data.depth codePoint < fuel)
    (hassigned : data.category codePoint ≠ 0) (hvalid : codepointValid codePoint) :
    ∃ output, (∀ written ∈ output, codepointValid written) ∧
      decomposeChar data options fuel codePoint = .ok output := by
  induction fuel generalizing codePoint with
  | zero => exact absurd hfuel (Nat.not_lt_zero _)
  | succ fuel ih =>
    rw [decomposeChar, if_neg (not_le.mpr hvalid.1)]
    split
    · rename_i hhangul
      exact ⟨_, codepointValid_hangulDecomposition hhangul.2, rfl⟩
    cases hreplacement : replacement data options codePoint with
    | none => exact ⟨[codePoint], by simpa using hvalid, rfl⟩
    | some entries =>
      refine foldlM_append_ok (fun entry hmem => ?_) []
      obtain ⟨hdepth, hcategory, hscalar⟩ := replacement_entry hreplacement hmem
      obtain ⟨output, hwritten, hok⟩ := ih (by omega) hcategory hscalar
      exact ⟨output, hwritten, fun before => by rw [hok, appendEntry]⟩

/-- A mapping that went through met assigned code points only. -/
theorem assigned_of_foldlM_decomposeStep {codePoints output result : List ℕ}
    (h : codePoints.foldlM (decomposeStep data options) output = .ok result) :
    ∀ codePoint ∈ codePoints, data.category codePoint ≠ 0 := by
  induction codePoints generalizing output with
  | nil => simp
  | cons codePoint codePoints ih =>
    rw [List.foldlM_cons] at h
    cases hchar : decomposeChar data options (data.depth codePoint + 1) codePoint with
    | error error =>
      rw [decomposeStep, hchar] at h
      cases h
    | ok written =>
      rw [decomposeStep, hchar] at h
      exact List.forall_mem_cons.mpr ⟨assigned_of_decomposeChar hchar, ih h⟩

/-- **A mapping that went through read assigned scalar values.** -/
theorem assigned_of_utf8procMap {input mapped : Bytes}
    (h : utf8procMap data options input = .ok mapped) :
    ∃ codePoints : List ℕ, (∀ codePoint ∈ codePoints, codepointValid codePoint) ∧
      input = encodeAll codePoints ∧ ∀ codePoint ∈ codePoints, data.category codePoint ≠ 0 := by
  unfold utf8procMap decompose at h
  cases hfold : foldCodePoints .invalidUtf8 (decomposeStep data options) [] input with
  | error error =>
    rw [hfold] at h
    cases h
  | ok output =>
    obtain ⟨codePoints, hscalars, hinput, hsteps⟩ := foldCodePoints_eq_ok_iff.mp hfold
    exact ⟨codePoints, hscalars, hinput, assigned_of_foldlM_decomposeStep hsteps⟩

/-- **On assigned scalar values the mapping goes through and writes scalar values.** -/
theorem utf8procMap_of_assigned (options : MapOptions) {codePoints : List ℕ}
    (hscalars : ∀ codePoint ∈ codePoints, codepointValid codePoint)
    (hassigned : ∀ codePoint ∈ codePoints, data.category codePoint ≠ 0) :
    ∃ written : List ℕ, (∀ codePoint ∈ written, codepointValid codePoint) ∧
      utf8procMap data options (encodeAll codePoints) = .ok (encodeAll written) := by
  obtain ⟨added, hadded, hfold⟩ : ∃ added, (∀ codePoint ∈ added, codepointValid codePoint) ∧
      codePoints.foldlM (decomposeStep data options) [] = .ok ([] ++ added) := by
    refine foldlM_append_ok (fun codePoint hmem => ?_) []
    obtain ⟨output, hwritten, hok⟩ := decomposeChar_of_assigned options
      (Nat.lt_succ_self (data.depth codePoint)) (hassigned codePoint hmem)
      (hscalars codePoint hmem)
    exact ⟨output, hwritten, fun before => by rw [decomposeStep, hok]⟩
  rw [List.nil_append] at hfold
  have hdecompose : decompose data options (encodeAll codePoints) =
      if options.decompose then .ok (reorder data [] added) else .ok added := by
    rw [decompose, foldCodePoints_encodeAll hscalars, hfold]
  by_cases hoption : options.decompose = true
  · refine ⟨reorder data [] added, fun codePoint hmem => ?_, ?_⟩
    · exact hadded codePoint ((reorder_perm data [] added).mem_iff.mp hmem)
    · rw [utf8procMap, hdecompose, if_pos hoption]
  · refine ⟨added, hadded, ?_⟩
    rw [utf8procMap, hdecompose, if_neg hoption]

end Assigned

end Names
end ApfsAccess
