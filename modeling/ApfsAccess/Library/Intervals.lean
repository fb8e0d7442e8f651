import Mathlib

/-!
# Unions of half-open intervals

An interval is a pair of a start and an end, the end left out.  `unionSorted`
joins the intervals of a list sorted by their starts that touch or overlap.  The
list it returns is *separated*: its intervals are not empty and a gap stands
between any two of them.  A separated list is determined by the numbers it
contains (`Separated.eq_of_contains_iff`), so two lists have one union exactly when
`unionSorted` makes them equal (`unionSorted_eq_iff`).
-/

namespace Intervals

/-- The interval contains the number. -/
def Contains (r : ℕ × ℕ) (b : ℕ) : Prop := r.1 ≤ b ∧ b < r.2

instance (r : ℕ × ℕ) (b : ℕ) : Decidable (Contains r b) := inferInstanceAs (Decidable (_ ∧ _))

/-- Some interval of the list contains the number. -/
def Covered (rs : List (ℕ × ℕ)) (b : ℕ) : Prop := ∃ r ∈ rs, Contains r b

theorem covered_nil (b : ℕ) : ¬ Covered [] b := by
  rintro ⟨r, hr, -⟩
  exact List.not_mem_nil hr

theorem covered_cons {r : ℕ × ℕ} {rs : List (ℕ × ℕ)} {b : ℕ} :
    Covered (r :: rs) b ↔ Contains r b ∨ Covered rs b := by
  unfold Covered
  simp only [List.mem_cons, exists_eq_or_imp]

theorem covered_perm {rs ss : List (ℕ × ℕ)} (h : rs.Perm ss) (b : ℕ) :
    Covered rs b ↔ Covered ss b := by
  unfold Covered
  simp only [h.mem_iff]

/-- The union with the interval under construction in front. -/
def unionFrom : ℕ × ℕ → List (ℕ × ℕ) → List (ℕ × ℕ)
  | r, [] => [r]
  | r, s :: rs =>
    if s.1 ≤ r.2 then unionFrom (r.1, max r.2 s.2) rs else r :: unionFrom s rs

/-- The union of a list sorted by starts. -/
def unionSorted : List (ℕ × ℕ) → List (ℕ × ℕ)
  | [] => []
  | r :: rs => unionFrom r rs

theorem covered_unionFrom {r : ℕ × ℕ} {rs : List (ℕ × ℕ)}
    (h : (r :: rs).Pairwise fun x y => x.1 ≤ y.1) (b : ℕ) :
    Covered (unionFrom r rs) b ↔ Covered (r :: rs) b := by
  induction rs generalizing r with
  | nil => rfl
  | cons s rs ih =>
    obtain ⟨hle, hpair⟩ := List.pairwise_cons.mp h
    have hrs := hle s List.mem_cons_self
    rw [unionFrom]
    split
    · rename_i htouch
      have hpair' : ((r.1, max r.2 s.2) :: rs).Pairwise fun x y => x.1 ≤ y.1 :=
        List.pairwise_cons.mpr ⟨fun x hx => hle x (List.mem_cons_of_mem s hx), hpair.of_cons⟩
      rw [ih hpair', covered_cons, covered_cons, covered_cons, ← or_assoc]
      refine or_congr_left ?_
      unfold Contains
      simp only [lt_max_iff]
      omega
    · rw [covered_cons, ih hpair, ← covered_cons]

/-- Nonempty intervals with gaps between them. -/
def Separated (rs : List (ℕ × ℕ)) : Prop :=
  (∀ r ∈ rs, r.1 < r.2) ∧ rs.Pairwise fun x y => x.2 < y.1

theorem start_le_of_mem_unionFrom {r : ℕ × ℕ} {rs : List (ℕ × ℕ)}
    (h : (r :: rs).Pairwise fun x y => x.1 ≤ y.1) : ∀ x ∈ unionFrom r rs, r.1 ≤ x.1 := by
  induction rs generalizing r with
  | nil =>
    intro x hx
    obtain rfl := List.mem_singleton.mp hx
    exact le_refl _
  | cons s rs ih =>
    obtain ⟨hle, hpair⟩ := List.pairwise_cons.mp h
    intro x hx
    rw [unionFrom] at hx
    split at hx
    · exact ih (r := (r.1, max r.2 s.2)) (List.pairwise_cons.mpr
        ⟨fun y hy => hle y (List.mem_cons_of_mem s hy), hpair.of_cons⟩) x hx
    · rcases List.mem_cons.mp hx with rfl | hx
      · exact le_refl _
      · exact (hle s List.mem_cons_self).trans (ih hpair x hx)

theorem separated_unionFrom {r : ℕ × ℕ} {rs : List (ℕ × ℕ)}
    (h : (r :: rs).Pairwise fun x y => x.1 ≤ y.1) (hne : ∀ x ∈ r :: rs, x.1 < x.2) :
    Separated (unionFrom r rs) := by
  induction rs generalizing r with
  | nil => exact ⟨hne, List.pairwise_singleton _ _⟩
  | cons s rs ih =>
    obtain ⟨hle, hpair⟩ := List.pairwise_cons.mp h
    have hr := hne r List.mem_cons_self
    have htail : ∀ x ∈ s :: rs, x.1 < x.2 := fun x hx => hne x (List.mem_cons_of_mem r hx)
    rw [unionFrom]
    split
    · refine ih (List.pairwise_cons.mpr
        ⟨fun x hx => hle x (List.mem_cons_of_mem s hx), hpair.of_cons⟩) fun x hx => ?_
      rcases List.mem_cons.mp hx with rfl | hx
      · exact lt_max_of_lt_left hr
      · exact htail x (List.mem_cons_of_mem s hx)
    · rename_i hgap
      obtain ⟨hnonempty, hseparated⟩ := ih hpair htail
      refine ⟨fun x hx => ?_, List.pairwise_cons.mpr ⟨fun x hx => ?_, hseparated⟩⟩
      · rcases List.mem_cons.mp hx with rfl | hx
        · exact hr
        · exact hnonempty x hx
      · have := start_le_of_mem_unionFrom hpair x hx
        omega

theorem Separated.of_cons {r : ℕ × ℕ} {rs : List (ℕ × ℕ)} (h : Separated (r :: rs)) :
    Separated rs :=
  ⟨fun x hx => h.1 x (List.mem_cons_of_mem r hx), h.2.of_cons⟩

/-- A separated list contains nothing at or before the end of its first interval
except in that interval. -/
theorem Separated.lt_of_covered {r : ℕ × ℕ} {rs : List (ℕ × ℕ)} (h : Separated (r :: rs)) {b : ℕ}
    (hb : Covered rs b) : r.2 < b := by
  obtain ⟨x, hx, hxb⟩ := hb
  exact (List.rel_of_pairwise_cons h.2 hx).trans_le hxb.1

theorem Separated.start_le {r : ℕ × ℕ} {rs : List (ℕ × ℕ)} (h : Separated (r :: rs)) {b : ℕ}
    (hb : Covered (r :: rs) b) : r.1 ≤ b := by
  rcases covered_cons.mp hb with hb | hb
  · exact hb.1
  · have := h.lt_of_covered hb
    have := h.1 r List.mem_cons_self
    omega

theorem Separated.not_covered_end {r : ℕ × ℕ} {rs : List (ℕ × ℕ)} (h : Separated (r :: rs)) :
    ¬ Covered (r :: rs) r.2 := by
  intro hb
  rcases covered_cons.mp hb with hb | hb
  · exact absurd hb.2 (lt_irrefl _)
  · exact absurd (h.lt_of_covered hb) (lt_irrefl _)

theorem Separated.covered_start {r : ℕ × ℕ} {rs : List (ℕ × ℕ)} (h : Separated (r :: rs)) :
    Covered (r :: rs) r.1 :=
  covered_cons.mpr (.inl ⟨le_refl _, h.1 r List.mem_cons_self⟩)

/-- **A separated list is determined by what it contains.** -/
theorem Separated.eq_of_covered_iff {rs ss : List (ℕ × ℕ)} (hr : Separated rs) (hs : Separated ss)
    (h : ∀ b, Covered rs b ↔ Covered ss b) : rs = ss := by
  induction rs generalizing ss with
  | nil =>
    cases ss with
    | nil => rfl
    | cons s ss => exact absurd ((h s.1).mpr hs.covered_start) (covered_nil _)
  | cons r rs ih =>
    cases ss with
    | nil => exact absurd ((h r.1).mp hr.covered_start) (covered_nil _)
    | cons s ss =>
      have hstart : r.1 = s.1 := le_antisymm (hr.start_le ((h s.1).mpr hs.covered_start))
        (hs.start_le ((h r.1).mp hr.covered_start))
      have hrne := hr.1 r List.mem_cons_self
      have hsne := hs.1 s List.mem_cons_self
      -- an end that lay inside the other interval would be covered on one side only
      have hend : r.2 = s.2 := by
        rcases lt_trichotomy r.2 s.2 with hlt | heq | hlt
        · exact absurd ((h r.2).mpr (covered_cons.mpr (.inl ⟨by omega, hlt⟩))) hr.not_covered_end
        · exact heq
        · exact absurd ((h s.2).mp (covered_cons.mpr (.inl ⟨by omega, hlt⟩))) hs.not_covered_end
      obtain rfl : r = s := Prod.ext hstart hend
      rw [ih hr.of_cons hs.of_cons fun b => ?_]
      have hb := h b
      rw [covered_cons, covered_cons] at hb
      constructor
      · intro hcovered
        rcases hb.mp (.inr hcovered) with hin | hin
        · exact absurd hin.2 (hr.lt_of_covered hcovered).le.not_gt
        · exact hin
      · intro hcovered
        rcases hb.mpr (.inr hcovered) with hin | hin
        · exact absurd hin.2 (hs.lt_of_covered hcovered).le.not_gt
        · exact hin

theorem covered_unionSorted {rs : List (ℕ × ℕ)} (h : rs.Pairwise fun x y => x.1 ≤ y.1) (b : ℕ) :
    Covered (unionSorted rs) b ↔ Covered rs b := by
  cases rs with
  | nil => rfl
  | cons r rs => exact covered_unionFrom h b

theorem separated_unionSorted {rs : List (ℕ × ℕ)} (h : rs.Pairwise fun x y => x.1 ≤ y.1)
    (hne : ∀ r ∈ rs, r.1 < r.2) : Separated (unionSorted rs) := by
  cases rs with
  | nil => exact ⟨hne, List.Pairwise.nil⟩
  | cons r rs => exact separated_unionFrom h hne

/-- **Two lists have equal unions exactly when they contain the same numbers.** -/
theorem unionSorted_eq_iff {rs ss : List (ℕ × ℕ)} (hr : rs.Pairwise fun x y => x.1 ≤ y.1)
    (hs : ss.Pairwise fun x y => x.1 ≤ y.1) (hrne : ∀ r ∈ rs, r.1 < r.2)
    (hsne : ∀ s ∈ ss, s.1 < s.2) :
    unionSorted rs = unionSorted ss ↔ ∀ b, Covered rs b ↔ Covered ss b := by
  constructor
  · intro h b
    rw [← covered_unionSorted hr, ← covered_unionSorted hs, h]
  · intro h
    refine (separated_unionSorted hr hrne).eq_of_covered_iff (separated_unionSorted hs hsne)
      fun b => ?_
    rw [covered_unionSorted hr, covered_unionSorted hs]
    exact h b

end Intervals
