import Mathlib

/-!
# Sorting by a Boolean comparison

`sortBy` sorts a list by a comparison that returns a Boolean, as a program does.
It is insertion sort, which is stable and evaluates inside proofs.
-/

namespace Sorting

variable {α : Type*}

/-- The list sorted by the comparison. -/
def sortBy (xs : List α) (le : α → α → Bool) : List α :=
  xs.insertionSort fun a b => le a b = true

theorem sortBy_perm (xs : List α) (le : α → α → Bool) : (sortBy xs le).Perm xs :=
  List.perm_insertionSort _ xs

/-- A total and transitive comparison orders the sorted list. -/
theorem pairwise_sortBy {le : α → α → Bool}
    (trans : ∀ a b c, le a b = true → le b c = true → le a c = true)
    (total : ∀ a b, (le a b || le b a) = true) (xs : List α) :
    (sortBy xs le).Pairwise fun a b => le a b = true := by
  have : Std.Total fun a b => le a b = true := ⟨fun a b => by simpa using total a b⟩
  have : IsTrans α fun a b => le a b = true := ⟨trans⟩
  exact List.pairwise_insertionSort _ xs

/-- A list in order stays as it is. -/
theorem sortBy_of_pairwise {xs : List α} {le : α → α → Bool}
    (h : xs.Pairwise fun a b => le a b = true) : sortBy xs le = xs :=
  List.Pairwise.insertionSort_eq h

/-- Insertion looks at the new element and the elements of the list only. -/
theorem orderedInsert_congr {r s : α → α → Prop} [DecidableRel r] [DecidableRel s] {a : α}
    {xs : List α} (h : ∀ b ∈ xs, (r a b ↔ s a b)) :
    xs.orderedInsert r a = xs.orderedInsert s a := by
  induction xs with
  | nil => rfl
  | cons x xs ih =>
    have hx := h x (List.mem_cons_self ..)
    have htail := ih fun b hb => h b (List.mem_cons_of_mem x hb)
    rw [List.orderedInsert_cons, List.orderedInsert_cons, htail]
    exact if_congr hx rfl rfl

/-- Two comparisons that agree on the list sort it alike. -/
theorem sortBy_congr {le le' : α → α → Bool} {xs : List α}
    (h : ∀ a ∈ xs, ∀ b ∈ xs, le a b = le' a b) : sortBy xs le = sortBy xs le' := by
  induction xs with
  | nil => rfl
  | cons x xs ih =>
    have htail : sortBy xs le = sortBy xs le' :=
      ih fun a ha b hb => h a (List.mem_cons_of_mem x ha) b (List.mem_cons_of_mem x hb)
    show (sortBy xs le).orderedInsert _ x = (sortBy xs le').orderedInsert _ x
    rw [htail]
    refine orderedInsert_congr fun b hb => ?_
    rw [h x (List.mem_cons_self ..) b
      (List.mem_cons_of_mem x ((sortBy_perm xs le').subset hb))]

/-- **A comparison that follows a rank on the list orders the sorted list by it.** -/
theorem pairwise_sortBy_of_rank {β : Type*} [LinearOrder β] {le : α → α → Bool} {xs : List α}
    (rank : α → β) (h : ∀ a ∈ xs, ∀ b ∈ xs, (le a b = true ↔ rank a ≤ rank b)) :
    (sortBy xs le).Pairwise fun a b => rank a ≤ rank b := by
  have hcongr : sortBy xs le = sortBy xs fun a b => decide (rank a ≤ rank b) := by
    refine sortBy_congr fun a ha b hb => ?_
    rw [Bool.eq_iff_iff, decide_eq_true_iff]
    exact h a ha b hb
  have hsorted : (sortBy xs fun a b => decide (rank a ≤ rank b)).Pairwise
      fun a b => decide (rank a ≤ rank b) = true := by
    refine pairwise_sortBy (fun a b c hab hbc => ?_) (fun a b => ?_) xs
    · exact decide_eq_true ((of_decide_eq_true hab).trans (of_decide_eq_true hbc))
    · simpa using le_total (rank a) (rank b)
  rw [hcongr]
  exact hsorted.imp fun hle => of_decide_eq_true hle

/-- An ordered list without equal neighbours is strictly ordered. -/
theorem pairwise_lt_of_isChain_ne {β : Type*} [LinearOrder β] {rank : α → β} {xs : List α}
    (hle : xs.Pairwise fun a b => rank a ≤ rank b) (hne : xs.IsChain fun a b => rank a ≠ rank b) :
    xs.Pairwise fun a b => rank a < rank b := by
  induction xs with
  | nil => exact List.Pairwise.nil
  | cons x xs ih =>
    obtain ⟨hhead, htail⟩ := List.pairwise_cons.mp hle
    refine List.pairwise_cons.mpr ⟨fun y hy => ?_, ih htail hne.tail⟩
    cases xs with
    | nil => cases hy
    | cons z zs =>
      have hxz : rank x < rank z :=
        lt_of_le_of_ne (hhead z (List.mem_cons_self ..)) (List.isChain_cons_cons.mp hne).1
      rcases List.mem_cons.mp hy with rfl | hmem
      · exact hxz
      · exact hxz.trans_le ((List.pairwise_cons.mp htail).1 y hmem)

/-! ## The last element that is not too great -/

section TakeWhile

variable {β : Type*} [LinearOrder β] {rank : α → β} {xs : List α} {bound : β}

theorem mem_takeWhile_not_lt (h : xs.Pairwise fun a b => rank a < rank b) {x : α} :
    x ∈ xs.takeWhile (fun a => !decide (bound < rank a)) ↔ x ∈ xs ∧ rank x ≤ bound := by
  induction xs with
  | nil => simp
  | cons first xs ih =>
    obtain ⟨hfirst, hrest⟩ := List.pairwise_cons.mp h
    by_cases hgreat : bound < rank first
    · rw [List.takeWhile_cons_of_neg (by simpa using hgreat)]
      refine ⟨fun hmem => absurd hmem (List.not_mem_nil), fun ⟨hmem, hle⟩ => ?_⟩
      rcases List.mem_cons.mp hmem with rfl | hmem
      · exact absurd hle (not_le.mpr hgreat)
      · exact absurd ((hgreat.trans (hfirst x hmem)).trans_le hle) (lt_irrefl _)
    · rw [List.takeWhile_cons_of_pos (by simpa using hgreat), List.mem_cons, List.mem_cons,
        ih hrest]
      refine ⟨?_, fun ⟨hmem, hle⟩ => hmem.imp_right fun hmem => ⟨hmem, hle⟩⟩
      rintro (rfl | ⟨hmem, hle⟩)
      · exact ⟨Or.inl rfl, not_lt.mp hgreat⟩
      · exact ⟨Or.inr hmem, hle⟩

/-- **The last element that is not above the bound** is the greatest of these. -/
theorem getLast?_takeWhile_not_lt (h : xs.Pairwise fun a b => rank a < rank b) {x : α}
    (hlast : (xs.takeWhile fun a => !decide (bound < rank a)).getLast? = some x) :
    x ∈ xs ∧ rank x ≤ bound ∧ ∀ y ∈ xs, rank y ≤ bound → rank y ≤ rank x := by
  obtain ⟨hmem, hle⟩ := (mem_takeWhile_not_lt h).mp (List.mem_of_getLast? hlast)
  refine ⟨hmem, hle, fun y hy hyle => ?_⟩
  have hyTaken := (mem_takeWhile_not_lt h).mpr ⟨hy, hyle⟩
  obtain ⟨init, hinit⟩ := List.getLast?_eq_some_iff.mp hlast
  have hsorted := h.sublist (List.takeWhile_sublist (fun a => !decide (bound < rank a)))
  rw [hinit] at hyTaken hsorted
  rcases List.mem_append.mp hyTaken with hyInit | hyLast
  · exact ((List.pairwise_append.mp hsorted).2.2 y hyInit x (List.mem_singleton_self _)).le
  · rw [List.mem_singleton.mp hyLast]

end TakeWhile

end Sorting
