import Mathlib

/-!
# Loops that may stop with an error

A loop over a list that may fail is `List.foldlM` or `List.mapM` in `Except`.

* `mapM_eq_ok_iff` : a loop that makes a list goes through when every pass does.
* `foldlM_ok`, `foldlM_forall` : what every pass keeps and what each pass brings about.
* `forM_eq_ok_iff` : a loop that only checks.
-/

namespace Loops

variable {α β ε : Type}

/-- **A loop that makes a list** goes through when every pass does. -/
theorem mapM_eq_ok_iff {step : α → Except ε β} {xs : List α} {ys : List β} :
    xs.mapM step = .ok ys ↔ List.Forall₂ (fun x y => step x = .ok y) xs ys := by
  induction xs generalizing ys with
  | nil =>
    rw [List.mapM_nil, List.forall₂_nil_left_iff]
    exact ⟨fun h => (Except.ok.inj h).symm, fun h => congrArg Except.ok h.symm⟩
  | cons x xs ih =>
    rw [List.mapM_cons, List.forall₂_cons_left_iff]
    cases hfirst : step x with
    | error reason => exact iff_of_false nofun fun ⟨_, _, h, _⟩ => nomatch h
    | ok y =>
      cases hrest : xs.mapM step with
      | error reason =>
        refine iff_of_false nofun fun ⟨_, rest, _, hothers, _⟩ => ?_
        rw [ih.mpr hothers] at hrest
        cases hrest
      | ok rest =>
        constructor
        · intro h
          exact ⟨y, rest, rfl, ih.mp hrest, (Except.ok.inj h).symm⟩
        · rintro ⟨y', rest', hsame, hothers, rfl⟩
          obtain rfl := Except.ok.inj hsame
          obtain rfl := Except.ok.inj (hrest.symm.trans (ih.mpr hothers))
          rfl

/-- A chain that went through produced its first value. -/
theorem bind_ok_iff {first : Except ε α} {next : α → Except ε β} {result : β} :
    (first >>= next) = .ok result ↔ ∃ value, first = .ok value ∧ next value = .ok result := by
  cases first with
  | error reason => exact iff_of_false nofun fun ⟨_, h, _⟩ => nomatch h
  | ok value =>
    constructor
    · exact fun h => ⟨value, rfl, h⟩
    · rintro ⟨_, hvalue, h⟩
      rw [Except.ok.inj hvalue]
      exact h

section Fold

variable {σ : Type} {step : σ → α → Except ε σ} {xs : List α} {start last : σ}

/-- **What every pass keeps** holds at the end. -/
theorem foldlM_ok {holds : σ → Prop} (hstart : holds start)
    (hstep : ∀ current, ∀ x ∈ xs, ∀ next, holds current → step current x = .ok next → holds next)
    (h : xs.foldlM step start = .ok last) : holds last := by
  induction xs generalizing start with
  | nil =>
    cases h
    exact hstart
  | cons x xs ih =>
    rw [List.foldlM_cons] at h
    cases hfirst : step start x with
    | error reason =>
      rw [hfirst] at h
      exact nomatch h
    | ok next =>
      rw [hfirst] at h
      exact ih (hstep start x List.mem_cons_self next hstart hfirst)
        (fun current y hy => hstep current y (List.mem_cons_of_mem _ hy)) h

/-- **What each pass brings about** and the others keep holds at the end for all. -/
theorem foldlM_forall {holds : α → σ → Prop}
    (hstep : ∀ current, ∀ x ∈ xs, ∀ next, step current x = .ok next → holds x next)
    (hkeep : ∀ current, ∀ x ∈ xs, ∀ next, step current x = .ok next →
      ∀ y, holds y current → holds y next)
    (h : xs.foldlM step start = .ok last) : ∀ x ∈ xs, holds x last := by
  induction xs generalizing start with
  | nil => exact fun x hx => absurd hx List.not_mem_nil
  | cons x xs ih =>
    rw [List.foldlM_cons] at h
    cases hfirst : step start x with
    | error reason =>
      rw [hfirst] at h
      exact nomatch h
    | ok next =>
      rw [hfirst] at h
      have hx : holds x last := by
        refine foldlM_ok (hstep start x List.mem_cons_self next hfirst) ?_ h
        exact fun current y hy after hholds hok =>
          hkeep current y (List.mem_cons_of_mem _ hy) after hok x hholds
      refine List.forall_mem_cons.mpr ⟨hx, ih ?_ ?_ h⟩
      · exact fun current y hy => hstep current y (List.mem_cons_of_mem _ hy)
      · exact fun current y hy => hkeep current y (List.mem_cons_of_mem _ hy)

end Fold

/-- **A loop that only checks** goes through when every check does. -/
theorem forM_eq_ok_iff {check : α → Except ε Unit} {xs : List α} :
    xs.forM check = .ok () ↔ ∀ x ∈ xs, check x = .ok () := by
  induction xs with
  | nil => exact iff_of_true rfl fun x hx => absurd hx List.not_mem_nil
  | cons x xs ih =>
    rw [List.forall_mem_cons, ← ih]
    show (check x >>= fun _ => xs.forM check) = .ok () ↔ _
    cases check x with
    | error reason => exact iff_of_false nofun fun h => nomatch h.1
    | ok value =>
      cases value
      exact (and_iff_right rfl).symm

end Loops
