import Mathlib

/-!
# Running sums, and the same sums reduced as they go

A two-accumulator checksum adds each word to a first sum and that first sum to a
second.  `runningSums` is the pair without any bound on the numbers, and
`reducedStep m` is the same step in which both accumulators are kept below `m`.

* `foldl_reducedStep` : reducing at every word is reducing once at the end.
* `runningSums_add` : the two sums together weigh each word by its distance from the end.
* `weightedSum_le` : how large that can become over words of a bounded size.
-/

namespace RunningSums

/-- One word, with unbounded accumulators. -/
def sumStep (sums : ℕ × ℕ) (word : ℕ) : ℕ × ℕ :=
  (sums.1 + word, sums.2 + (sums.1 + word))

/-- The two sums of a list of words. -/
def runningSums (words : List ℕ) : ℕ × ℕ :=
  words.foldl sumStep (0, 0)

/-- One word, with both accumulators kept below `m`. -/
def reducedStep (m : ℕ) (sums : ℕ × ℕ) (word : ℕ) : ℕ × ℕ :=
  ((sums.1 + word) % m, (sums.2 + (sums.1 + word) % m) % m)

/-- Each word times one more than the number of words from it to the end. -/
def weightedSum : List ℕ → ℕ
  | [] => 0
  | word :: words => word * (words.length + 2) + weightedSum words

@[simp] theorem weightedSum_nil : weightedSum [] = 0 := rfl

@[simp] theorem weightedSum_cons (word : ℕ) (words : List ℕ) :
    weightedSum (word :: words) = word * (words.length + 2) + weightedSum words := rfl

/-- **Reducing at every word is reducing once at the end.** -/
theorem foldl_reducedStep (m : ℕ) (words : List ℕ) (first second : ℕ) :
    words.foldl (reducedStep m) (first % m, second % m) =
      ((words.foldl sumStep (first, second)).1 % m,
        (words.foldl sumStep (first, second)).2 % m) := by
  induction words generalizing first second with
  | nil => rfl
  | cons word words ih =>
    have hfirst : (first % m + word) % m = (first + word) % m := Nat.mod_add_mod first m word
    have hsecond : (second % m + (first % m + word) % m) % m =
        (second + (first + word)) % m := by
      rw [hfirst, Nat.mod_add_mod, Nat.add_mod_mod]
    have hstep : reducedStep m (first % m, second % m) word =
        ((first + word) % m, (second + (first + word)) % m) :=
      Prod.ext hfirst hsecond
    rw [List.foldl_cons, List.foldl_cons, hstep]
    exact ih (first + word) (second + (first + word))

theorem foldl_reducedStep_zero (m : ℕ) (words : List ℕ) :
    words.foldl (reducedStep m) (0, 0) =
      ((runningSums words).1 % m, (runningSums words).2 % m) := by
  have h := foldl_reducedStep m words 0 0
  rwa [Nat.zero_mod] at h

theorem foldl_sumStep_fst (words : List ℕ) (first second : ℕ) :
    (words.foldl sumStep (first, second)).1 = first + words.sum := by
  induction words generalizing first second with
  | nil => rfl
  | cons word words ih =>
    rw [List.foldl_cons, sumStep, ih, List.sum_cons]
    omega

theorem foldl_sumStep_add (words : List ℕ) (first second : ℕ) :
    (words.foldl sumStep (first, second)).1 + (words.foldl sumStep (first, second)).2 =
      first * (words.length + 1) + second + weightedSum words := by
  induction words generalizing first second with
  | nil => simp
  | cons word words ih =>
    rw [List.foldl_cons, sumStep, ih, List.length_cons, weightedSum_cons]
    ring

theorem runningSums_fst (words : List ℕ) : (runningSums words).1 = words.sum := by
  have h := foldl_sumStep_fst words 0 0
  rwa [Nat.zero_add] at h

/-- **The two sums together weigh each word by its distance from the end.** -/
theorem runningSums_add (words : List ℕ) :
    (runningSums words).1 + (runningSums words).2 = weightedSum words := by
  have h := foldl_sumStep_add words 0 0
  rwa [Nat.zero_mul, Nat.zero_add] at h

theorem weightedSum_append (front back : List ℕ) :
    weightedSum (front ++ back) =
      weightedSum front + front.sum * back.length + weightedSum back := by
  induction front with
  | nil => simp
  | cons word front ih =>
    rw [List.cons_append, weightedSum_cons, ih, weightedSum_cons, List.length_append,
      List.sum_cons]
    ring

/-- Twice the weight of `n` equal words. -/
theorem two_mul_weightedSum_replicate (n word : ℕ) :
    2 * weightedSum (List.replicate n word) = word * (n * (n + 3)) := by
  induction n with
  | zero => simp
  | succ n ih =>
    rw [List.replicate_succ, weightedSum_cons, Nat.mul_add, ih, List.length_replicate]
    ring

theorem weightedSum_le {words : List ℕ} {bound : ℕ} (h : ∀ word ∈ words, word ≤ bound) :
    weightedSum words ≤ bound * (words.length * (words.length + 1)) := by
  induction words with
  | nil => simp
  | cons word words ih =>
    obtain ⟨hword, hwords⟩ := List.forall_mem_cons.mp h
    have hhead : word * (words.length + 2) ≤ bound * (words.length + 2) :=
      Nat.mul_le_mul_right _ hword
    calc weightedSum (word :: words)
        ≤ bound * (words.length + 2) + bound * (words.length * (words.length + 1)) :=
          Nat.add_le_add hhead (ih hwords)
      _ ≤ bound * ((words.length + 1) * (words.length + 1 + 1)) := by
          rw [← Nat.mul_add]
          exact Nat.mul_le_mul_left _ (by ring_nf; omega)

end RunningSums
