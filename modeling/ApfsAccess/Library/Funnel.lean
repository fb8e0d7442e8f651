import Mathlib.Tactic.Common

/-!
# Stages that may stop

A `Funnel` is one stage of a procedure with a long list of exits.  It works on a state, and
either goes on with a value or stops with an answer; the state that it has reached stays in
both cases.  Stages are chained with `next`.

`Meets pre f post stopped` says what a stage does: from a state with `pre` it goes on in a
state with `post` or stops in one with `stopped`.  A procedure is checked stage by stage,
with one rule for every way to build one.
-/

/-- A stage: it goes on with a value or stops with an answer. -/
def Funnel (S E A : Type*) := S → S × Except E A

namespace Funnel

universe u

variable {S E : Type*} {A B : Type u}

/-- Go on with a value. -/
def goOn (a : A) : Funnel S E A := fun s => (s, .ok a)

/-- The second stage starts where the first one went on. -/
def next (f : Funnel S E A) (g : A → Funnel S E B) : Funnel S E B := fun s =>
  match f s with
  | (t, .ok a) => g a t
  | (t, .error e) => (t, .error e)

instance : Monad (Funnel S E) where
  pure := goOn
  bind := next

/-- What a stage comes to. -/
def Ends (post : S → A → Prop) (stopped : S → E → Prop) : S × Except E A → Prop
  | (t, .ok a) => post t a
  | (t, .error e) => stopped t e

/-- The stage goes on with `post` or stops with `stopped`. -/
def Meets (pre : S → Prop) (f : Funnel S E A) (post : S → A → Prop) (stopped : S → E → Prop) :
    Prop :=
  ∀ s, pre s → Ends post stopped (f s)

variable {pre : S → Prop} {post : S → A → Prop} {stopped : S → E → Prop} {f : Funnel S E A}

theorem Meets.goOn {a : A} (h : ∀ s, pre s → post s a) :
    Meets pre (Funnel.goOn a) post stopped := h

/-- **The rule of chaining.** -/
theorem Meets.next {mid : S → A → Prop} {g : A → Funnel S E B} {post : S → B → Prop}
    (hf : Meets pre f mid stopped) (hg : ∀ a, Meets (mid · a) (g a) post stopped) :
    Meets pre (f >>= g) post stopped := by
  intro s hs
  have hends := hf s hs
  change Ends post stopped (Funnel.next f g s)
  unfold Funnel.next
  revert hends
  rcases f s with ⟨t, e | a⟩
  · exact fun h => h
  · exact fun h => hg a t h

end Funnel
