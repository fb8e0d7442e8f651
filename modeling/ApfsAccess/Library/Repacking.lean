import Mathlib

/-!
# Regrouping the bits of a list of digits

A stream of `k`-bit digits, most significant first, is regrouped into `w`-bit digits by
shifting each input digit into a window and draining `w` bits off its top while there
are that many.  `Regroups` is the invariant of such a loop: the digits drained so far and
the bits still in the window are the number the input digits spell, and no bit was lost.

* `beValue_injective` : digits of one width and one number are determined by the number.
* `Regroups.push`, `Regroups.drain` : the two moves of the loop keep the invariant.
* `Regroups.unpad` : a stream padded with zero bits to whole digits is regrouped back.
-/

namespace Repacking

/-- The number that digits spell in a base, most significant digit first. -/
def beValue (base : ℕ) (digits : List ℕ) : ℕ :=
  digits.foldl (fun value digit => value * base + digit) 0

@[simp] theorem beValue_nil (base : ℕ) : beValue base [] = 0 := rfl

@[simp] theorem beValue_concat (base : ℕ) (digits : List ℕ) (digit : ℕ) :
    beValue base (digits ++ [digit]) = beValue base digits * base + digit := by
  rw [beValue, List.foldl_append]
  rfl

/-- **Digits of one base and one number are determined by the value they spell.** -/
theorem beValue_injective {base : ℕ} {first second : List ℕ}
    (hfirst : ∀ digit ∈ first, digit < base) (hsecond : ∀ digit ∈ second, digit < base)
    (hlength : first.length = second.length) (h : beValue base first = beValue base second) :
    first = second := by
  induction first using List.reverseRecOn generalizing second with
  | nil => exact (List.length_eq_zero_iff.mp hlength.symm).symm
  | append_singleton first digit ih =>
    obtain ⟨second, digit', rfl⟩ : ∃ front last, second = front ++ [last] := by
      rcases List.eq_nil_or_concat second with rfl | ⟨front, last, rfl⟩
      · simp at hlength
      · exact ⟨front, last, by rw [List.concat_eq_append]⟩
    have hdigit : digit < base := hfirst digit (by simp)
    have hdigit' : digit' < base := hsecond digit' (by simp)
    rw [beValue_concat, beValue_concat] at h
    have hlast : digit = digit' := by
      have hmod := congrArg (· % base) h
      simpa only [Nat.mul_add_mod_self_right, Nat.mod_eq_of_lt hdigit,
        Nat.mod_eq_of_lt hdigit'] using hmod
    have hfront : beValue base first = beValue base second := by
      rw [hlast] at h
      exact Nat.eq_of_mul_eq_mul_right (by omega) (Nat.add_right_cancel h)
    simp only [List.length_append, List.length_singleton, Nat.add_right_cancel_iff] at hlength
    rw [hlast, ih (fun d hd => hfirst d (by simp [hd])) (fun d hd => hsecond d (by simp [hd]))
      hlength hfront]

/-- A window of bits, with the digits drained from it so far. -/
structure Window where
  bits : ℕ
  bitCount : ℕ
  digits : List ℕ
  deriving DecidableEq, Repr

/-- A digit of `k` bits is shifted in. -/
def Window.push (window : Window) (k digit : ℕ) : Window :=
  { window with bits := window.bits * 2 ^ k + digit, bitCount := window.bitCount + k }

/-- At most `room` digits of `w` bits are drained off the top. -/
def Window.drain (w : ℕ) : ℕ → Window → Window
  | 0, window => window
  | room + 1, window =>
    if w ≤ window.bitCount then
      Window.drain w room
        { bits := window.bits % 2 ^ (window.bitCount - w)
          bitCount := window.bitCount - w
          digits := window.digits ++ [window.bits / 2 ^ (window.bitCount - w) % 2 ^ w] }
    else window

/-- The window regroups the `k`-bit digits consumed so far into `w`-bit ones. -/
structure Regroups (k w : ℕ) (window : Window) (consumed : List ℕ) : Prop where
  bits_lt : window.bits < 2 ^ window.bitCount
  digits_lt : ∀ digit ∈ window.digits, digit < 2 ^ w
  value : beValue (2 ^ w) window.digits * 2 ^ window.bitCount + window.bits =
    beValue (2 ^ k) consumed
  width : w * window.digits.length + window.bitCount = k * consumed.length

namespace Regroups

variable {k w : ℕ} {window : Window} {consumed : List ℕ}

theorem start (k w : ℕ) : Regroups k w ⟨0, 0, []⟩ [] where
  bits_lt := by simp
  digits_lt := by simp
  value := by simp
  width := by simp

theorem push (h : Regroups k w window consumed) {digit : ℕ} (hdigit : digit < 2 ^ k) :
    Regroups k w (window.push k digit) (consumed ++ [digit]) where
  bits_lt := by
    show window.bits * 2 ^ k + digit < 2 ^ (window.bitCount + k)
    calc window.bits * 2 ^ k + digit < window.bits * 2 ^ k + 2 ^ k := by omega
      _ = (window.bits + 1) * 2 ^ k := (Nat.succ_mul _ _).symm
      _ ≤ 2 ^ window.bitCount * 2 ^ k := Nat.mul_le_mul_right _ h.bits_lt
      _ = 2 ^ (window.bitCount + k) := (pow_add _ _ _).symm
  digits_lt := h.digits_lt
  value := by
    show beValue (2 ^ w) window.digits * 2 ^ (window.bitCount + k) +
      (window.bits * 2 ^ k + digit) = _
    rw [beValue_concat, ← h.value, pow_add]
    ring
  width := by
    show w * window.digits.length + (window.bitCount + k) = _
    have := h.width
    rw [List.length_append, List.length_singleton, Nat.mul_add, Nat.mul_one]
    omega

/-- One drained digit: what is above the cut and what is below it make the window again. -/
theorem drainOne (h : Regroups k w window consumed) (hw : w ≤ window.bitCount) :
    Regroups k w
      { bits := window.bits % 2 ^ (window.bitCount - w)
        bitCount := window.bitCount - w
        digits := window.digits ++ [window.bits / 2 ^ (window.bitCount - w) % 2 ^ w] }
      consumed where
  bits_lt := Nat.mod_lt _ (by positivity)
  digits_lt := by
    intro digit hmem
    rcases List.mem_append.mp hmem with hold | hnew
    · exact h.digits_lt digit hold
    · rw [List.mem_singleton.mp hnew]
      exact Nat.mod_lt _ (by positivity)
  value := by
    have hpow : 2 ^ window.bitCount = 2 ^ w * 2 ^ (window.bitCount - w) := by
      rw [← pow_add]
      congr 1
      omega
    have htop : window.bits / 2 ^ (window.bitCount - w) % 2 ^ w =
        window.bits / 2 ^ (window.bitCount - w) := by
      refine Nat.mod_eq_of_lt (Nat.div_lt_of_lt_mul ?_)
      rw [Nat.mul_comm, ← hpow]
      exact h.bits_lt
    have hsplit := Nat.div_add_mod window.bits (2 ^ (window.bitCount - w))
    show beValue (2 ^ w) (window.digits ++ [_]) * 2 ^ (window.bitCount - w) +
      window.bits % 2 ^ (window.bitCount - w) = _
    rw [beValue_concat, htop, ← h.value, hpow, Nat.add_mul, Nat.add_assoc, Nat.mul_assoc]
    congr 1
    rw [Nat.mul_comm (window.bits / _)]
    exact hsplit
  width := by
    have := h.width
    show w * (window.digits ++ [_]).length + (window.bitCount - w) = _
    rw [List.length_append, List.length_singleton, Nat.mul_add, Nat.mul_one]
    omega

theorem drain (h : Regroups k w window consumed) (room : ℕ) :
    Regroups k w (window.drain w room) consumed := by
  induction room generalizing window with
  | zero => exact h
  | succ room ih =>
    rw [Window.drain]
    split
    · rename_i hw
      exact ih (h.drainOne hw)
    · exact h

end Regroups

/-- Draining never takes out more digits than there is room for. -/
theorem length_digits_drain_le (w room : ℕ) (window : Window) :
    (window.drain w room).digits.length ≤ window.digits.length + room := by
  induction room generalizing window with
  | zero => exact le_refl _
  | succ room ih =>
    rw [Window.drain]
    split
    · refine (ih _).trans ?_
      simp only [List.length_append, List.length_singleton]
      omega
    · omega

/-- Draining stops for want of bits or for want of room. -/
theorem bitCount_drain_lt (w room : ℕ) (window : Window) :
    (window.drain w room).bitCount < w ∨
      (window.drain w room).digits.length = window.digits.length + room := by
  induction room generalizing window with
  | zero => exact .inr rfl
  | succ room ih =>
    rw [Window.drain]
    split
    · refine (ih _).imp_right fun hlength => hlength.trans ?_
      simp only [List.length_append, List.length_singleton]
      omega
    · rename_i hw
      exact .inl (not_le.mp hw)

/-- **Padding is undone.**  Digits of `k` bits whose number is `value` shifted up by `pad`
bits are regrouped into `count` digits of `w` bits with nothing but zero bits left over. -/
theorem Regroups.unpad {k w : ℕ} {window : Window} {consumed original : List ℕ} {pad : ℕ}
    (h : Regroups k w window consumed) (hlength : window.digits.length ≤ original.length)
    (hstop : window.bitCount < w ∨ window.digits.length = original.length)
    (horiginal : ∀ digit ∈ original, digit < 2 ^ w)
    (hvalue : beValue (2 ^ k) consumed = beValue (2 ^ w) original * 2 ^ pad)
    (hwidth : k * consumed.length = w * original.length + pad) :
    window.digits = original ∧ window.bits = 0 := by
  have hall : window.digits.length = original.length := by
    rcases hstop with hshort | hall
    · by_contra hne
      have hlt : window.digits.length + 1 ≤ original.length := by omega
      have := Nat.mul_le_mul_left w hlt
      rw [Nat.mul_add, Nat.mul_one] at this
      have := h.width
      omega
    · exact hall
  have hcount : window.bitCount = pad := by
    have := h.width
    rw [hall] at this
    omega
  have hsum := h.value
  have hbits := h.bits_lt
  rw [hvalue, hcount] at hsum
  rw [hcount] at hbits
  have hzero : window.bits = 0 := by
    have hmod := congrArg (· % 2 ^ pad) hsum
    simpa only [Nat.mul_add_mod_self_right, Nat.mul_mod_left, Nat.mod_eq_of_lt hbits] using hmod
  rw [hzero, Nat.add_zero] at hsum
  refine ⟨beValue_injective h.digits_lt horiginal hall ?_, hzero⟩
  exact Nat.eq_of_mul_eq_mul_right (by positivity) hsum

end Repacking
