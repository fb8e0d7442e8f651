import ApfsAccess.Names.Utf8

/-!
# The UTF-8 check of the format layer

`IsValidUtf8` checks the names that are read from a volume and the texts that go into a report.  It
does not call the name library: it masks the lead byte, shifts the continuation bytes in, and refuses
in the end what has a shorter spelling, a surrogate, and what is past the last code point.

* `readCodepoint_eq_iterate` : one turn of it reads what `utf8proc_iterate` reads.
* `isValidUtf8_iff` : it accepts what spells scalar values, and what the loops of the name layer read.
-/

namespace ApfsAccess
namespace Names

open Format

/-- The branches on the lead byte: the length, and the bits of the code point. -/
def leadOf (lead : ℕ) : Option (ℕ × ℕ) :=
  if lead < 0x80 then some (1, lead)
  else if lead &&& 0xE0 = 0xC0 then some (2, lead &&& 0x1F)
  else if lead &&& 0xF0 = 0xE0 then some (3, lead &&& 0x0F)
  else if lead &&& 0xF8 = 0xF0 then some (4, lead &&& 0x07)
  else none

/-- The loop over the continuation bytes. -/
def continuation : ℕ → ℕ → Bytes → Option ℕ
  | 0, codepoint, _ => some codepoint
  | _ + 1, _, [] => none
  | count + 1, codepoint, unit :: rest =>
    if unit.toNat &&& 0xC0 ≠ 0x80 then none
    else continuation count (codepoint <<< 6 ||| unit.toNat &&& 0x3F) rest

/-- Overlongs, surrogates, and what is out of range. -/
def codepointRefused (length codepoint : ℕ) : Prop :=
  length = 2 ∧ codepoint < 0x80 ∨ length = 3 ∧ codepoint < 0x800 ∨
    length = 4 ∧ codepoint < 0x10000 ∨ 0x10FFFF < codepoint ∨
    0xD800 ≤ codepoint ∧ codepoint ≤ 0xDFFF

instance (length codepoint : ℕ) : Decidable (codepointRefused length codepoint) := by
  unfold codepointRefused
  infer_instance

/-- One turn of `IsValidUtf8`, behind the lead byte. -/
def readBehind (length bits : ℕ) (rest : Bytes) : Option (ℕ × ℕ) :=
  if rest.length + 1 < length then none
  else
    match continuation (length - 1) bits rest with
    | none => none
    | some codepoint =>
      if codepointRefused length codepoint then none else some (codepoint, length)

/-- One turn of `IsValidUtf8`: the code point at the front and its length. -/
def readCodepoint : Bytes → Option (ℕ × ℕ)
  | [] => none
  | lead :: rest =>
    match leadOf lead.toNat with
    | none => none
    | some (length, bits) => readBehind length bits rest

/-- `IsValidUtf8`. -/
def isValidUtf8 (bytes : Bytes) : Bool :=
  match bytes with
  | [] => true
  | lead :: rest =>
    match readCodepoint (lead :: rest) with
    | none => false
    | some (_, length) => isValidUtf8 (rest.drop (length - 1))
termination_by bytes.length
decreasing_by simp only [List.length_drop, List.length_cons]; omega

/-- The masks of the lead byte, as ranges. -/
theorem leadOf_eq : ∀ lead : Fin 256, leadOf lead =
    if lead.val < 0x80 then some (1, lead.val) else if lead.val < 0xC0 then none
      else if lead.val < 0xE0 then some (2, lead.val % 32)
      else if lead.val < 0xF0 then some (3, lead.val % 16)
      else if lead.val < 0xF8 then some (4, lead.val % 8) else none := by
  decide +kernel

/-- One continuation byte shifts the code point by six bits. -/
theorem continuation_succ (count codepoint : ℕ) (unit : UInt8) (rest : Bytes) :
    continuation (count + 1) codepoint (unit :: rest) =
      if utfCont unit then continuation count (codepoint * 64 + unit.toNat % 64) rest else none := by
  have hmask : ∀ unit : Fin 256, unit.val &&& 0xC0 ≠ 0x80 ↔ ¬(0x80 ≤ unit.val ∧ unit.val < 0xC0) := by
    decide +kernel
  have hlow : unit.toNat &&& 0x3F = unit.toNat % 64 := Nat.and_two_pow_sub_one_eq_mod _ 6
  have hshift : codepoint <<< 6 ||| unit.toNat % 64 = codepoint * 64 + unit.toNat % 64 := by
    rw [← Nat.shiftLeft_add_eq_or_of_lt (Nat.mod_lt _ (by norm_num)), Nat.shiftLeft_eq]
  rw [continuation, hlow, hshift, if_congr (hmask ⟨unit.toNat, unit.toNat_lt⟩) rfl rfl, ite_not]
  rfl

theorem readBehind_two {lead : ℕ} (hlow : 0xC0 ≤ lead) (hhigh : lead < 0xE0) (rest : Bytes) :
    readBehind 2 (lead % 32) rest = if lead < 0xC2 then none else iterateTwo lead rest := by
  cases rest with
  | nil => split <;> rfl
  | cons b1 rest =>
    rw [readBehind, if_neg (by simp), iterateTwo, show 2 - 1 = 0 + 1 from rfl, continuation_succ]
    by_cases hcont : utfCont b1
    · rw [if_pos hcont, if_pos hcont, continuation]
      dsimp only
      by_cases hshort : lead < 0xC2
      · rw [if_pos hshort, if_pos (by unfold codepointRefused; omega)]
      · rw [if_neg hshort, if_neg (by unfold codepointRefused; omega)]
    · rw [if_neg hcont, if_neg hcont, ite_self]

theorem readBehind_three {lead : ℕ} (hlow : 0xE0 ≤ lead) (hhigh : lead < 0xF0) (rest : Bytes) :
    readBehind 3 (lead % 16) rest = iterateThree lead rest := by
  rcases rest with - | ⟨b1, - | ⟨b2, rest⟩⟩
  · rfl
  · rfl
  rw [readBehind, if_neg (by simp), iterateThree, show 3 - 1 = 0 + 1 + 1 from rfl,
    continuation_succ, continuation_succ, continuation]
  by_cases hfirst : utfCont b1
  swap
  · simp [hfirst]
  by_cases hsecond : utfCont b2
  swap
  · simp [hsecond]
  rw [if_pos hfirst, if_pos hsecond, if_neg (by simp [hfirst, hsecond])]
  unfold utfCont at hfirst
  dsimp only
  by_cases hsurrogate : lead = 0xED ∧ 0x9F < b1.toNat
  · rw [if_pos hsurrogate, if_pos (by unfold codepointRefused; omega)]
  rw [if_neg hsurrogate]
  by_cases hshort : lead % 16 * 4096 + b1.toNat % 64 * 64 + b2.toNat % 64 < 0x800
  · rw [if_pos hshort, if_pos (by unfold codepointRefused; omega)]
  · rw [if_neg hshort, if_neg (by unfold codepointRefused; omega)]
    congr 2
    omega

theorem readBehind_four {lead : ℕ} (hlow : 0xF0 ≤ lead) (hhigh : lead < 0xF8) (rest : Bytes) :
    readBehind 4 (lead % 8) rest = if 0xF4 < lead then none else iterateFour lead rest := by
  rcases rest with - | ⟨b1, - | ⟨b2, - | ⟨b3, rest⟩⟩⟩
  · split <;> rfl
  · split <;> rfl
  · split <;> rfl
  rw [readBehind, if_neg (by simp), iterateFour, show 4 - 1 = 0 + 1 + 1 + 1 from rfl,
    continuation_succ, continuation_succ, continuation_succ, continuation]
  by_cases hfirst : utfCont b1
  swap
  · simp [hfirst]
  by_cases hsecond : utfCont b2
  swap
  · simp [hsecond]
  by_cases hthird : utfCont b3
  swap
  · simp [hthird]
  have hconts : ¬(¬utfCont b1 ∨ ¬utfCont b2 ∨ ¬utfCont b3) := by simp [hfirst, hsecond, hthird]
  rw [if_pos hfirst, if_pos hsecond, if_pos hthird, if_neg hconts]
  unfold utfCont at hfirst
  dsimp only
  by_cases hrange : 0xF4 < lead
  · rw [if_pos hrange, if_pos (by unfold codepointRefused; omega)]
  rw [if_neg hrange]
  by_cases hshort : lead = 0xF0 ∧ b1.toNat < 0x90
  · rw [if_pos hshort, if_pos (by unfold codepointRefused; omega)]
  rw [if_neg hshort]
  by_cases hpast : lead = 0xF4 ∧ 0x8F < b1.toNat
  · rw [if_pos hpast, if_pos (by unfold codepointRefused; omega)]
  · rw [if_neg hpast, if_neg (by unfold codepointRefused; omega)]
    congr 2
    omega

/-- **One turn reads what `utf8proc_iterate` reads.** -/
theorem readCodepoint_eq_iterate (bytes : Bytes) : readCodepoint bytes = iterate bytes := by
  cases bytes with
  | nil => rfl
  | cons lead rest =>
    rw [readCodepoint, iterate, leadOf_eq ⟨lead.toNat, lead.toNat_lt⟩]
    by_cases h1 : lead.toNat < 0x80
    · rw [if_pos h1, if_pos h1]
      dsimp only
      rw [readBehind, if_neg (by omega), Nat.sub_self, continuation]
      exact if_neg (by unfold codepointRefused; omega)
    rw [if_neg h1, if_neg h1]
    by_cases hunit : lead.toNat < 0xC0
    · rw [if_pos hunit, if_pos (.inl (by omega))]
    rw [if_neg hunit]
    by_cases h2 : lead.toNat < 0xE0
    · rw [if_pos h2]
      dsimp only
      rw [readBehind_two (by omega) h2, if_pos h2]
      split
      · rw [if_pos (.inl ‹_›)]
      · rw [if_neg (by omega)]
    rw [if_neg h2, if_neg h2]
    by_cases h3 : lead.toNat < 0xF0
    · rw [if_pos h3, if_pos h3, if_neg (by omega)]
      exact readBehind_three (by omega) h3 rest
    rw [if_neg h3, if_neg h3]
    by_cases h4 : lead.toNat < 0xF8
    · rw [if_pos h4]
      dsimp only
      rw [readBehind_four (by omega) h4]
      split
      · rw [if_pos (.inr ‹_›)]
      · rw [if_neg (by omega)]
    · rw [if_neg h4, if_pos (.inr (by omega))]

/-- The check is the loop of the name layer without an action. -/
theorem foldCodePoints_eq_isValidUtf8 {ε σ : Type} (invalid : ε) (step : σ → ℕ → σ) (state : σ)
    (bytes : Bytes) :
    (foldCodePoints invalid (fun state codePoint => .ok (step state codePoint)) state bytes).isOk =
      isValidUtf8 bytes := by
  induction hlength : bytes.length using Nat.strong_induction_on generalizing bytes state with
  | _ length ih =>
    cases bytes with
    | nil =>
      rw [foldCodePoints, isValidUtf8]
      rfl
    | cons lead rest =>
      rw [foldCodePoints, isValidUtf8, readCodepoint_eq_iterate]
      cases iterate (lead :: rest) with
      | none => rfl
      | some value =>
        refine ih _ ?_ _ _ rfl
        rw [← hlength, List.length_drop, List.length_cons]
        omega

/-- **The check accepts exactly what spells scalar values**, in one way only, and exactly what every
loop of the name layer reads to its end. -/
theorem isValidUtf8_iff (bytes : Bytes) :
    (isValidUtf8 bytes = true ↔ ∃! codePoints : List ℕ,
      (∀ codePoint ∈ codePoints, codepointValid codePoint) ∧ bytes = encodeAll codePoints) ∧
    ∀ (ε σ : Type) (invalid : ε) (step : σ → ℕ → σ) (state : σ),
      ((foldCodePoints invalid (fun state codePoint => .ok (step state codePoint)) state
        bytes).isOk = true ↔ isValidUtf8 bytes = true) := by
  refine ⟨⟨fun hvalid => ?_, ?_⟩, fun ε σ invalid step state => by
    rw [foldCodePoints_eq_isValidUtf8]⟩
  · rw [← foldCodePoints_eq_isValidUtf8 () (fun _ _ => ()) ()] at hvalid
    cases hfold : foldCodePoints () (fun _ _ => Except.ok ()) () bytes with
    | error invalid =>
      rw [hfold] at hvalid
      cases hvalid
    | ok state =>
      obtain ⟨codePoints, hscalars, rfl⟩ := encodeAll_of_foldCodePoints hfold
      exact ⟨codePoints, ⟨hscalars, rfl⟩, fun other hother =>
        encodeAll_injective hother.1 hscalars hother.2.symm⟩
  · rintro ⟨codePoints, ⟨hscalars, rfl⟩, -⟩
    rw [← foldCodePoints_eq_isValidUtf8 () (fun _ _ => ()) (), foldCodePoints_encodeAll hscalars]
    clear hscalars
    induction codePoints with
    | nil => rfl
    | cons codePoint codePoints ih => exact ih

end Names
end ApfsAccess
