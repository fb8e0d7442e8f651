import Mathlib

/-!
# The first greatest entry of a table

A loop over the places of a table keeps the best entry that it has seen, and takes another one only
where it ranks strictly higher.  It ends with the first of the greatest entries.

* `keepBetter`, `FirstGreatest` : one turn of the loop, and what it ends with.
* `FirstGreatest.replaced` : a table that was partly overwritten by one new entry.
-/

namespace Selection

variable {α : Type*} {rank : α → ℕ} {table : ℕ → Option α} {count : ℕ}

/-- The better one of the best entry so far and the next. -/
def keepBetter (rank : α → ℕ) (best next : Option α) : Option α :=
  match next with
  | none => best
  | some candidate =>
    match best with
    | none => some candidate
    | some chosen => if rank chosen < rank candidate then some candidate else some chosen

/-- The entry stands at the place, none ranks higher, and those in front of it rank lower. -/
structure FirstGreatest (rank : α → ℕ) (table : ℕ → Option α) (count index : ℕ) (value : α) :
    Prop where
  inside : index < count
  holds : table index = some value
  greatest : ∀ place < count, ∀ other, table place = some other → rank other ≤ rank value
  first : ∀ place < index, ∀ other, table place = some other → rank other < rank value

theorem FirstGreatest.index_eq {index place : ℕ} {value other : α}
    (h : FirstGreatest rank table count index value)
    (hother : FirstGreatest rank table count place other) : index = place := by
  rcases lt_trichotomy index place with hlt | heq | hgt
  · have hless := hother.first index hlt value h.holds
    have hmore := h.greatest place hother.inside other hother.holds
    omega
  · exact heq
  · have hless := h.first place hgt other hother.holds
    have hmore := hother.greatest index h.inside value h.holds
    omega

/-- There is one first greatest entry at most. -/
theorem FirstGreatest.unique {index place : ℕ} {value other : α}
    (h : FirstGreatest rank table count index value)
    (hother : FirstGreatest rank table count place other) : value = other := by
  have hholds := h.holds
  rw [h.index_eq hother, hother.holds] at hholds
  exact (Option.some.inj hholds).symm

/-- The table with one place more. -/
theorem FirstGreatest.succ {index : ℕ} {value : α}
    (h : FirstGreatest rank table count index value)
    (hlast : ∀ other, table count = some other → rank other ≤ rank value) :
    FirstGreatest rank table (count + 1) index value := by
  exact ⟨Nat.lt_succ_of_lt h.inside, h.holds, Nat.forall_lt_succ_right.mpr ⟨h.greatest, hlast⟩,
    h.first⟩

/-- An entry at the last place that ranks higher than all in front of it. -/
theorem firstGreatest_last {value : α} (hlast : table count = some value)
    (hless : ∀ place < count, ∀ other, table place = some other → rank other < rank value) :
    FirstGreatest rank table (count + 1) count value :=
  ⟨Nat.lt_succ_self count, hlast, Nat.forall_lt_succ_right.mpr
    ⟨fun place hplace other hother => (hless place hplace other hother).le, fun _ hother =>
      (congrArg rank (Option.some.inj (hother.symm.trans hlast))).le⟩, hless⟩

/-- **The loop** ends with nothing where the table is empty, and otherwise with the first of the
greatest entries. -/
theorem foldl_keepBetter (rank : α → ℕ) (table : ℕ → Option α) (count : ℕ) :
    ((List.range count).foldl (fun best place => keepBetter rank best (table place)) none = none ∧
        ∀ place < count, table place = none) ∨
      ∃ index value, (List.range count).foldl
          (fun best place => keepBetter rank best (table place)) none = some value ∧
        FirstGreatest rank table count index value := by
  induction count with
  | zero => exact .inl ⟨rfl, fun place hplace => absurd hplace (Nat.not_lt_zero place)⟩
  | succ count ih =>
    rw [List.range_succ, List.foldl_append]
    simp only [List.foldl_cons, List.foldl_nil]
    cases hnext : table count with
    | none =>
      rcases ih with ⟨hnone, hempty⟩ | ⟨index, value, hsome, hfirst⟩
      · exact .inl ⟨hnone, Nat.forall_lt_succ_right.mpr ⟨hempty, hnext⟩⟩
      · exact .inr ⟨index, value, hsome, hfirst.succ fun other hother => by
          rw [hnext] at hother
          cases hother⟩
    | some candidate =>
      rcases ih with ⟨hnone, hempty⟩ | ⟨index, value, hsome, hfirst⟩
      · rw [hnone]
        refine .inr ⟨count, candidate, rfl, firstGreatest_last hnext fun place hplace other hother => ?_⟩
        rw [hempty place hplace] at hother
        cases hother
      · rw [hsome]
        by_cases hbetter : rank value < rank candidate
        · exact .inr ⟨count, candidate, if_pos hbetter, firstGreatest_last hnext
            fun place hplace other hother =>
              (hfirst.greatest place hplace other hother).trans_lt hbetter⟩
        · refine .inr ⟨index, value, if_neg hbetter, hfirst.succ fun other hother => ?_⟩
          rw [← Option.some.inj (hnext.symm.trans hother)]
          exact not_lt.mp hbetter

/-- **A table that was partly overwritten.**  Every place has what it had, nothing, or the new entry,
and the first greatest entry is still in its place: the first greatest entry is now that one or
the new one. -/
theorem FirstGreatest.replaced {table' : ℕ → Option α} {index place : ℕ} {old new value : α}
    (h : FirstGreatest rank table count index old) (hkept : table' index = some old)
    (hplaces : ∀ place < count, table' place = table place ∨ table' place = none ∨
      table' place = some new)
    (hnow : FirstGreatest rank table' count place value) : value = old ∨ value = new := by
  rcases hplaces place hnow.inside with hsame | hnone | hnew
  · left
    have hholds : table place = some value := hsame.symm.trans hnow.holds
    have hle := h.greatest place hnow.inside value hholds
    have hge := hnow.greatest index h.inside old hkept
    -- the two rank alike, so neither stands in front of the other
    rcases lt_trichotomy place index with hlt | rfl | hgt
    · have hless := h.first place hlt value hholds
      omega
    · exact Option.some.inj (hholds.symm.trans h.holds)
    · have hless := hnow.first index hgt old hkept
      omega
  · rw [hnow.holds] at hnone
    cases hnone
  · exact .inr (Option.some.inj (hnow.holds.symm.trans hnew))

end Selection
