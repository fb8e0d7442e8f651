import Mathlib.Logic.Basic
import Mathlib.Tactic.Common

/-!
# Renames that may be interrupted

A directory gives each name a file or nothing.  A plan of renames is executed one after another, and any
call around a rename may fail: from there on nothing is renamed any more, so a crash after any prefix of
the plan is one of the executions.

* `along_execute` : what holds along a plan holds wherever its execution stops.
-/

namespace Renames

variable {Name Content : Type*} [DecidableEq Name]

/-- The files of a directory. -/
abbrev Directory (Name Content : Type*) := Name → Option Content

/-- A rename that does not replace its target. -/
structure Move (Name : Type*) where
  source : Name
  target : Name
deriving DecidableEq

/-- Which calls around a rename go through. -/
structure Calls (Name : Type*) where
  before : Move Name → Bool
  after : Move Name → Bool

/-- The directory after a rename; `none` where there is no source, or the target is taken. -/
def rename (d : Directory Name Content) (move : Move Name) : Option (Directory Name Content) :=
  if (d move.source).isNone ∨ (d move.target).isSome then none
  else some fun name =>
    if name = move.target then d move.source else if name = move.source then none else d name

/-- Execute a plan; the flag says whether anything was renamed. -/
def execute (calls : Calls Name) : List (Move Name) → Directory Name Content → Bool →
    Except (Directory Name Content × Bool) (Directory Name Content × Bool)
  | [], d, wrote => .ok (d, wrote)
  | move :: moves, d, wrote =>
    if calls.before move = false then .error (d, wrote)
    else
      match rename d move with
      | none => .error (d, wrote)
      | some d => if calls.after move = false then .error (d, true) else execute calls moves d true

/-- `P` holds along the plan, and `Q` where the plan is done. -/
def Along (P Q : Directory Name Content → Prop) : List (Move Name) → Directory Name Content → Prop
  | [], d => P d ∧ Q d
  | move :: moves, d => P d ∧ ∀ next, rename d move = some next → Along P Q moves next

variable {P Q : Directory Name Content → Prop} {moves : List (Move Name)}
  {d : Directory Name Content}

theorem Along.here (h : Along P Q moves d) : P d := by
  cases moves with
  | nil => exact h.1
  | cons move moves => exact h.1

/-- **What holds along a plan holds wherever its execution stops.** -/
theorem along_execute {calls : Calls Name} {wrote : Bool} (h : Along P Q moves d) :
    match execute calls moves d wrote with
    | .ok (final, _) => P final ∧ Q final
    | .error (final, _) => P final := by
  induction moves generalizing d wrote with
  | nil => exact h
  | cons move moves ih =>
    obtain ⟨hhere, hnext⟩ := h
    rw [execute]
    by_cases hbefore : calls.before move = false
    · rw [if_pos hbefore]
      exact hhere
    rw [if_neg hbefore]
    match hrename : rename d move with
    | none => exact hhere
    | some next =>
      dsimp only
      by_cases hafter : calls.after move = false
      · rw [if_pos hafter]
        exact (hnext next hrename).here
      · rw [if_neg hafter]
        exact ih (hnext next hrename)

/-- **A rename moves one file**: its source is gone, and every other name has what it had. -/
theorem rename_eq_some {move : Move Name} {next : Directory Name Content}
    (h : rename d move = some next) :
    next move.target = d move.source ∧ next move.source = none ∧
      ∀ name, name ≠ move.source → name ≠ move.target → next name = d name := by
  unfold rename at h
  split_ifs at h with hrefused
  simp only [not_or, Option.isNone_iff_eq_none, Option.not_isSome_iff_eq_none] at hrefused
  obtain ⟨hsource, htarget⟩ := hrefused
  have hne : move.source ≠ move.target := by
    intro heq
    rw [heq] at hsource
    exact hsource htarget
  obtain rfl := Option.some.inj h
  refine ⟨if_pos rfl, ?_, fun name hother hthis => ?_⟩
  · dsimp only
    rw [if_neg hne, if_pos rfl]
  · dsimp only
    rw [if_neg hthis, if_neg hother]

end Renames
