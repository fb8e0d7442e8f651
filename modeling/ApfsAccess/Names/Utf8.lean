import ApfsAccess.Format.Codec

/-!
# The UTF-8 codec of the name layer

`utf8proc_iterate` reads one code point off the front of a buffer and
`utf8proc_encode_char` writes one.  On the scalar values of Unicode the two are inverse
to each other: `iterate_encodeChar` and `encodeChar_of_iterate`.

Every loop of the name layer over a UTF-8 buffer has one shape: read a code point,
act on it, go on behind it, and stop at the first error.  `foldCodePoints` is that loop,
and `foldCodePoints_eq_ok_iff` says that it went through exactly when the buffer spells
a list of scalar values and the action went through on that list.
-/

namespace ApfsAccess
namespace Names

open Format

/-- `utf8proc_codepoint_valid`. -/
def codepointValid (codePoint : ℕ) : Prop :=
  codePoint < 0x110000 ∧ ¬(0xD800 ≤ codePoint ∧ codePoint < 0xE000)

instance (codePoint : ℕ) : Decidable (codepointValid codePoint) := by
  unfold codepointValid
  infer_instance

/-- `utf_cont`: the two high bits of a continuation byte are `10`. -/
def utfCont (byte : UInt8) : Prop := 0x80 ≤ byte.toNat ∧ byte.toNat < 0xC0

instance (byte : UInt8) : Decidable (utfCont byte) := by
  unfold utfCont
  infer_instance

/-- The two-byte branch of `utf8proc_iterate`, on the bytes behind the lead byte. -/
def iterateTwo (lead : ℕ) : Bytes → Option (ℕ × ℕ)
  | b1 :: _ => if utfCont b1 then some (lead % 32 * 64 + b1.toNat % 64, 2) else none
  | [] => none

/-- The three-byte branch. -/
def iterateThree (lead : ℕ) : Bytes → Option (ℕ × ℕ)
  | b1 :: b2 :: _ =>
    if ¬utfCont b1 ∨ ¬utfCont b2 then none
    -- a surrogate
    else if lead = 0xED ∧ 0x9F < b1.toNat then none
    else if lead % 16 * 4096 + b1.toNat % 64 * 64 + b2.toNat % 64 < 0x800 then none
    else some (lead % 16 * 4096 + b1.toNat % 64 * 64 + b2.toNat % 64, 3)
  | _ => none

/-- The four-byte branch. -/
def iterateFour (lead : ℕ) : Bytes → Option (ℕ × ℕ)
  | b1 :: b2 :: b3 :: _ =>
    if ¬utfCont b1 ∨ ¬utfCont b2 ∨ ¬utfCont b3 then none
    else if lead = 0xF0 ∧ b1.toNat < 0x90 then none
    else if lead = 0xF4 ∧ 0x8F < b1.toNat then none
    else some (lead % 8 * 262144 + b1.toNat % 64 * 4096 + b2.toNat % 64 * 64 + b3.toNat % 64, 4)
  | _ => none

/-- `utf8proc_iterate`: the code point at the front and the number of bytes it takes. -/
def iterate : Bytes → Option (ℕ × ℕ)
  | [] => none
  | b0 :: rest =>
    if b0.toNat < 0x80 then some (b0.toNat, 1)
    else if b0.toNat < 0xC2 ∨ 0xF4 < b0.toNat then none
    else if b0.toNat < 0xE0 then iterateTwo b0.toNat rest
    else if b0.toNat < 0xF0 then iterateThree b0.toNat rest
    else iterateFour b0.toNat rest

/-- `utf8proc_encode_char`; the empty result is the count zero. -/
def encodeChar (codePoint : ℕ) : Bytes :=
  if codePoint < 0x80 then [UInt8.ofNat codePoint]
  else if codePoint < 0x800 then
    [UInt8.ofNat (0xC0 + codePoint / 64), UInt8.ofNat (0x80 + codePoint % 64)]
  else if codePoint < 0x10000 then
    [UInt8.ofNat (0xE0 + codePoint / 4096), UInt8.ofNat (0x80 + codePoint / 64 % 64),
      UInt8.ofNat (0x80 + codePoint % 64)]
  else if codePoint < 0x110000 then
    [UInt8.ofNat (0xF0 + codePoint / 262144), UInt8.ofNat (0x80 + codePoint / 4096 % 64),
      UInt8.ofNat (0x80 + codePoint / 64 % 64), UInt8.ofNat (0x80 + codePoint % 64)]
  else []

/-! ## The two directions -/

theorem toNat_ofNat_of_lt {value : ℕ} (h : value < 256) : (UInt8.ofNat value).toNat = value := by
  rw [UInt8.toNat_ofNat']
  exact Nat.mod_eq_of_lt h

theorem eq_ofNat_of_toNat_eq (byte : UInt8) {value : ℕ} (h : byte.toNat = value) :
    byte = UInt8.ofNat value := by
  rw [← h, UInt8.ofNat_toNat]

theorem encodeChar_ne_nil {codePoint : ℕ} (h : codePoint < 0x110000) :
    encodeChar codePoint ≠ [] := by
  unfold encodeChar
  repeat' split
  all_goals first | omega | simp

/-- **A scalar value that was written is read back**, whatever follows it. -/
theorem iterate_encodeChar {codePoint : ℕ} (h : codepointValid codePoint) (rest : Bytes) :
    iterate (encodeChar codePoint ++ rest) =
      some (codePoint, (encodeChar codePoint).length) := by
  obtain ⟨hlt, hsurrogate⟩ := h
  unfold encodeChar
  by_cases h1 : codePoint < 0x80
  · rw [if_pos h1, List.singleton_append, iterate, toNat_ofNat_of_lt (by omega), if_pos h1]
    rfl
  rw [if_neg h1]
  by_cases h2 : codePoint < 0x800
  · rw [if_pos h2, List.cons_append, List.singleton_append, iterate,
      toNat_ofNat_of_lt (by omega), if_neg (by omega), if_neg (by omega), if_pos (by omega)]
    simp only [iterateTwo, utfCont, toNat_ofNat_of_lt (show 0x80 + codePoint % 64 < 256 by omega)]
    rw [if_pos (by omega)]
    simp only [List.length_cons, List.length_nil, Option.some.injEq, Prod.mk.injEq, and_true]
    omega
  rw [if_neg h2]
  by_cases h3 : codePoint < 0x10000
  · rw [if_pos h3, List.cons_append, List.cons_append, List.singleton_append, iterate,
      toNat_ofNat_of_lt (by omega), if_neg (by omega), if_neg (by omega), if_neg (by omega),
      if_pos (by omega)]
    simp only [iterateThree, utfCont,
      toNat_ofNat_of_lt (show 0x80 + codePoint % 64 < 256 by omega),
      toNat_ofNat_of_lt (show 0x80 + codePoint / 64 % 64 < 256 by omega)]
    rw [if_neg (by omega), if_neg (by omega), if_neg (by omega)]
    simp only [List.length_cons, List.length_nil, Option.some.injEq, Prod.mk.injEq, and_true]
    omega
  · rw [if_neg h3, if_pos hlt, List.cons_append, List.cons_append, List.cons_append,
      List.singleton_append, iterate, toNat_ofNat_of_lt (by omega), if_neg (by omega),
      if_neg (by omega), if_neg (by omega), if_neg (by omega)]
    simp only [iterateFour, utfCont,
      toNat_ofNat_of_lt (show 0x80 + codePoint % 64 < 256 by omega),
      toNat_ofNat_of_lt (show 0x80 + codePoint / 64 % 64 < 256 by omega),
      toNat_ofNat_of_lt (show 0x80 + codePoint / 4096 % 64 < 256 by omega)]
    rw [if_neg (by omega), if_neg (by omega), if_neg (by omega)]
    simp only [List.length_cons, List.length_nil, Option.some.injEq, Prod.mk.injEq, and_true]
    omega

/-- **What was read is the spelling of a scalar value.** -/
theorem encodeChar_of_iterate {input : Bytes} {codePoint consumed : ℕ}
    (h : iterate input = some (codePoint, consumed)) :
    codepointValid codePoint ∧ consumed = (encodeChar codePoint).length ∧
      ∃ rest, input = encodeChar codePoint ++ rest := by
  match input with
  | [] => cases h
  | b0 :: rest =>
    have hb0 := b0.toNat_lt
    rw [iterate] at h
    split at h
    · rename_i h1
      simp only [Option.some.injEq, Prod.mk.injEq] at h
      obtain ⟨rfl, rfl⟩ := h
      refine ⟨⟨by omega, by omega⟩, ?_⟩
      rw [encodeChar, if_pos h1, UInt8.ofNat_toNat]
      exact ⟨rfl, rest, rfl⟩
    split at h
    · cases h
    split at h
    · rename_i h1 h2 h3
      match rest with
      | [] => cases h
      | b1 :: rest =>
        rw [iterateTwo] at h
        split at h
        · rename_i hcont
          simp only [utfCont] at hcont
          simp only [Option.some.injEq, Prod.mk.injEq] at h
          obtain ⟨rfl, rfl⟩ := h
          refine ⟨⟨by omega, by omega⟩, ?_⟩
          rw [encodeChar, if_neg (by omega), if_pos (by omega),
            ← eq_ofNat_of_toNat_eq b0 (by omega),
            ← eq_ofNat_of_toNat_eq b1 (by omega)]
          exact ⟨rfl, rest, rfl⟩
        · cases h
    split at h
    · rename_i h1 h2 h3 h4
      match rest with
      | [] => cases h
      | [_] => cases h
      | b1 :: b2 :: rest =>
        simp only [iterateThree] at h
        split at h
        · cases h
        rename_i hcont
        split at h
        · cases h
        split at h
        · cases h
        simp only [utfCont] at hcont
        simp only [Option.some.injEq, Prod.mk.injEq] at h
        obtain ⟨rfl, rfl⟩ := h
        refine ⟨⟨by omega, by omega⟩, ?_⟩
        rw [encodeChar, if_neg (by omega), if_neg (by omega), if_pos (by omega),
          ← eq_ofNat_of_toNat_eq b0 (by omega),
          ← eq_ofNat_of_toNat_eq b1 (by omega),
          ← eq_ofNat_of_toNat_eq b2 (by omega)]
        exact ⟨rfl, rest, rfl⟩
    · rename_i h1 h2 h3 h4
      match rest with
      | [] => cases h
      | [_] => cases h
      | [_, _] => cases h
      | b1 :: b2 :: b3 :: rest =>
        simp only [iterateFour] at h
        split at h
        · cases h
        rename_i hcont
        split at h
        · cases h
        split at h
        · cases h
        simp only [utfCont] at hcont
        simp only [Option.some.injEq, Prod.mk.injEq] at h
        obtain ⟨rfl, rfl⟩ := h
        refine ⟨⟨by omega, by omega⟩, ?_⟩
        rw [encodeChar, if_neg (by omega), if_neg (by omega), if_neg (by omega), if_pos (by omega),
          ← eq_ofNat_of_toNat_eq b0 (by omega),
          ← eq_ofNat_of_toNat_eq b1 (by omega),
          ← eq_ofNat_of_toNat_eq b2 (by omega),
          ← eq_ofNat_of_toNat_eq b3 (by omega)]
        exact ⟨rfl, rest, rfl⟩

/-! ## Whole buffers -/

/-- The bytes that spell a list of code points. -/
def encodeAll (codePoints : List ℕ) : Bytes := codePoints.flatMap encodeChar

@[simp] theorem encodeAll_nil : encodeAll [] = [] := rfl

@[simp] theorem encodeAll_cons (codePoint : ℕ) (codePoints : List ℕ) :
    encodeAll (codePoint :: codePoints) = encodeChar codePoint ++ encodeAll codePoints := by
  rw [encodeAll, List.flatMap_cons, encodeAll]

theorem encodeAll_append (front back : List ℕ) :
    encodeAll (front ++ back) = encodeAll front ++ encodeAll back :=
  List.flatMap_append

/-- A loop over the code points of a buffer: each is read, acted on, and left behind; the
first error ends the loop. -/
def foldCodePoints {ε σ : Type} (invalid : ε) (step : σ → ℕ → Except ε σ) (state : σ)
    (input : Bytes) : Except ε σ :=
  match input with
  | [] => .ok state
  | b0 :: rest =>
    match iterate (b0 :: rest) with
    | none => .error invalid
    | some (codePoint, consumed) =>
      match step state codePoint with
      | .error error => .error error
      | .ok next => foldCodePoints invalid step next (rest.drop (consumed - 1))
termination_by input.length
decreasing_by simp only [List.length_drop, List.length_cons]; omega

section Loop

variable {ε σ : Type} {invalid : ε} {step : σ → ℕ → Except ε σ}

theorem foldCodePoints_nil (state : σ) : foldCodePoints invalid step state [] = .ok state := by
  rw [foldCodePoints]

/-- One turn of the loop on a scalar value. -/
theorem foldCodePoints_encodeChar {codePoint : ℕ} (h : codepointValid codePoint) (state : σ)
    (rest : Bytes) :
    foldCodePoints invalid step state (encodeChar codePoint ++ rest) =
      (step state codePoint >>= fun next => foldCodePoints invalid step next rest) := by
  have hiterate := iterate_encodeChar h rest
  have hdrop : (encodeChar codePoint ++ rest).drop (encodeChar codePoint).length = rest :=
    List.drop_left
  obtain ⟨b0, tail, heq⟩ := List.exists_cons_of_ne_nil (encodeChar_ne_nil h.1)
  rw [heq, List.cons_append] at hiterate hdrop ⊢
  rw [foldCodePoints, hiterate]
  simp only [List.length_cons, Nat.add_sub_cancel, List.drop_succ_cons] at hdrop ⊢
  rw [hdrop]
  cases step state codePoint with
  | error _ => rfl
  | ok _ => rfl

/-- **On the spelling of scalar values the loop is a fold of its action.** -/
theorem foldCodePoints_encodeAll {codePoints : List ℕ}
    (h : ∀ codePoint ∈ codePoints, codepointValid codePoint) (state : σ) :
    foldCodePoints invalid step state (encodeAll codePoints) = codePoints.foldlM step state := by
  induction codePoints generalizing state with
  | nil => rw [encodeAll_nil, foldCodePoints_nil, List.foldlM_nil]; rfl
  | cons codePoint codePoints ih =>
    obtain ⟨hfirst, hrest⟩ := List.forall_mem_cons.mp h
    rw [encodeAll_cons, foldCodePoints_encodeChar hfirst, List.foldlM_cons]
    congr 1
    funext next
    exact ih hrest next

/-- **A loop that went through read the spelling of scalar values.** -/
theorem encodeAll_of_foldCodePoints {input : Bytes} {state result : σ}
    (h : foldCodePoints invalid step state input = .ok result) :
    ∃ codePoints : List ℕ, (∀ codePoint ∈ codePoints, codepointValid codePoint) ∧
      input = encodeAll codePoints := by
  -- on the length: each turn leaves at least one byte behind
  induction hlength : input.length using Nat.strong_induction_on generalizing input state with
  | _ length ih =>
    match input with
    | [] => exact ⟨[], by simp, rfl⟩
    | b0 :: rest =>
      cases hiterate : iterate (b0 :: rest) with
      | none =>
        rw [foldCodePoints, hiterate] at h
        cases h
      | some value =>
        obtain ⟨codePoint, consumed⟩ := value
        obtain ⟨hvalid, -, tail, hinput⟩ := encodeChar_of_iterate hiterate
        rw [hinput, foldCodePoints_encodeChar hvalid] at h
        cases hstep : step state codePoint with
        | error error =>
          rw [hstep] at h
          cases h
        | ok next =>
          rw [hstep] at h
          have hshort : tail.length < length := by
            have hpos := List.length_pos_of_ne_nil (encodeChar_ne_nil hvalid.1)
            rw [← hlength, hinput, List.length_append]
            omega
          obtain ⟨codePoints, hscalars, rfl⟩ := ih tail.length hshort h rfl
          exact ⟨codePoint :: codePoints, List.forall_mem_cons.mpr ⟨hvalid, hscalars⟩,
            by rw [hinput, encodeAll_cons]⟩

/-- **The loop goes through exactly on the spellings on which its action does.** -/
theorem foldCodePoints_eq_ok_iff {input : Bytes} {state result : σ} :
    foldCodePoints invalid step state input = .ok result ↔
      ∃ codePoints : List ℕ, (∀ codePoint ∈ codePoints, codepointValid codePoint) ∧
        input = encodeAll codePoints ∧ codePoints.foldlM step state = .ok result := by
  constructor
  · intro h
    obtain ⟨codePoints, hscalars, rfl⟩ := encodeAll_of_foldCodePoints h
    exact ⟨codePoints, hscalars, rfl, by rwa [foldCodePoints_encodeAll hscalars] at h⟩
  · rintro ⟨codePoints, hscalars, rfl, hfold⟩
    rwa [foldCodePoints_encodeAll hscalars]

end Loop

/-- **A buffer spells one list of scalar values only.** -/
theorem encodeAll_injective {first second : List ℕ}
    (hfirst : ∀ codePoint ∈ first, codepointValid codePoint)
    (hsecond : ∀ codePoint ∈ second, codepointValid codePoint)
    (h : encodeAll first = encodeAll second) : first = second := by
  have hcollect : ∀ codePoints : List ℕ, (∀ codePoint ∈ codePoints, codepointValid codePoint) →
      foldCodePoints () (fun (state : List ℕ) codePoint => .ok (state ++ [codePoint])) []
        (encodeAll codePoints) = .ok codePoints := by
    intro codePoints hscalars
    have hgo : ∀ state : List ℕ, codePoints.foldlM (m := Except Unit)
        (fun state codePoint => .ok (state ++ [codePoint])) state = .ok (state ++ codePoints) := by
      clear hscalars
      induction codePoints with
      | nil => intro state; rw [List.append_nil]; rfl
      | cons codePoint codePoints ih =>
        intro state
        rw [List.foldlM_cons]
        show List.foldlM _ (state ++ [codePoint]) codePoints = _
        rw [ih, List.append_assoc, List.singleton_append]
    rw [foldCodePoints_encodeAll hscalars, hgo, List.nil_append]
  have hboth := hcollect first hfirst
  rw [h, hcollect second hsecond] at hboth
  exact (Except.ok.inj hboth).symm

end Names
end ApfsAccess
