import Mathlib

/-!
# Sweeping over events

A step function on the natural numbers is described by events: at each position
something is added to a running level.  `levelAt` reads the level at a position
from the whole list of events.  The other definitions are the parts a sweep is
programmed with: `mergeAdjacent` adds up the events of one position, `running`
replaces the deltas by the levels they lead to, and `insertWith` keeps a list of
events sorted while they arrive.

* `levelAt_mergeAdjacent`, `pairwise_mergeAdjacent` : merging sorted events.
* `getLast?_takeWhile_running`, `dropWhile_running` : a level looked up in a
  running list, and what is left of the list after it.
* `levelAt_insertWith`, `pairwise_insertWith` : events that arrive one at a time.
-/

namespace Sweep

section Level

variable {α : Type*}

/-- The sum of the measured events at or before a position. -/
def levelAt (g : α → ℤ) : List (ℕ × α) → ℕ → ℤ
  | [], _ => 0
  | e :: es, b => (if e.1 ≤ b then g e.2 else 0) + levelAt g es b

variable {g : α → ℤ}

@[simp] theorem levelAt_nil (b : ℕ) : levelAt g [] b = 0 := rfl

@[simp] theorem levelAt_cons (e : ℕ × α) (es : List (ℕ × α)) (b : ℕ) :
    levelAt g (e :: es) b = (if e.1 ≤ b then g e.2 else 0) + levelAt g es b := rfl

theorem levelAt_append (es fs : List (ℕ × α)) (b : ℕ) :
    levelAt g (es ++ fs) b = levelAt g es b + levelAt g fs b := by
  induction es with
  | nil => simp
  | cons e es ih =>
    rw [List.cons_append, levelAt_cons, levelAt_cons, ih]
    ring

theorem levelAt_perm {es fs : List (ℕ × α)} (h : es.Perm fs) (b : ℕ) :
    levelAt g es b = levelAt g fs b := by
  induction h with
  | nil => rfl
  | cons e _ ih => rw [levelAt_cons, levelAt_cons, ih]
  | swap e f es =>
    simp only [levelAt_cons]
    ring
  | trans _ _ ih ih' => exact ih.trans ih'

/-- Events after a position do not count there. -/
theorem levelAt_eq_zero {es : List (ℕ × α)} {b : ℕ} (h : ∀ e ∈ es, b < e.1) :
    levelAt g es b = 0 := by
  induction es with
  | nil => rfl
  | cons e es ih =>
    have he := h e List.mem_cons_self
    rw [levelAt_cons, if_neg (by omega), ih fun f hf => h f (List.mem_cons_of_mem e hf), add_zero]

end Level

section Merge

/-- The merge with the event under construction in front. -/
def mergeFrom : ℕ × ℤ → List (ℕ × ℤ) → List (ℕ × ℤ)
  | e, [] => [e]
  | e, f :: es => if e.1 = f.1 then mergeFrom (e.1, e.2 + f.2) es else e :: mergeFrom f es

/-- Neighbouring events of one position, added up. -/
def mergeAdjacent : List (ℕ × ℤ) → List (ℕ × ℤ)
  | [] => []
  | e :: es => mergeFrom e es

theorem levelAt_mergeFrom (e : ℕ × ℤ) (es : List (ℕ × ℤ)) (b : ℕ) :
    levelAt id (mergeFrom e es) b = levelAt id (e :: es) b := by
  induction es generalizing e with
  | nil => rfl
  | cons f es ih =>
    rw [mergeFrom]
    split
    · rename_i heq
      rw [ih, levelAt_cons, levelAt_cons, levelAt_cons, ← heq]
      by_cases hb : e.1 ≤ b
      · simp only [if_pos hb, id_eq]
        ring
      · simp only [if_neg hb]
        ring
    · rw [levelAt_cons, ih, levelAt_cons e (f :: es)]

theorem levelAt_mergeAdjacent (es : List (ℕ × ℤ)) (b : ℕ) :
    levelAt id (mergeAdjacent es) b = levelAt id es b := by
  cases es with
  | nil => rfl
  | cons e es => exact levelAt_mergeFrom e es b

theorem le_of_mem_mergeFrom {e : ℕ × ℤ} {es : List (ℕ × ℤ)}
    (h : (e :: es).Pairwise fun x y => x.1 ≤ y.1) : ∀ x ∈ mergeFrom e es, e.1 ≤ x.1 := by
  induction es generalizing e with
  | nil =>
    intro x hx
    obtain rfl := List.mem_singleton.mp hx
    exact le_refl _
  | cons f es ih =>
    intro x hx
    obtain ⟨hle, hpair⟩ := List.pairwise_cons.mp h
    obtain ⟨hlef, hpairs⟩ := List.pairwise_cons.mp hpair
    rw [mergeFrom] at hx
    split at hx
    · refine ih (e := (e.1, e.2 + f.2)) (List.pairwise_cons.mpr ⟨fun y hy => ?_, hpairs⟩) x hx
      exact hle y (List.mem_cons_of_mem f hy)
    · rcases List.mem_cons.mp hx with rfl | hx
      · exact le_refl _
      · exact (hle f List.mem_cons_self).trans (ih hpair x hx)

/-- Merging sorted events leaves one event for each position. -/
theorem pairwise_mergeFrom {e : ℕ × ℤ} {es : List (ℕ × ℤ)}
    (h : (e :: es).Pairwise fun x y => x.1 ≤ y.1) :
    (mergeFrom e es).Pairwise fun x y => x.1 < y.1 := by
  induction es generalizing e with
  | nil => exact List.pairwise_singleton _ _
  | cons f es ih =>
    obtain ⟨hle, hpair⟩ := List.pairwise_cons.mp h
    obtain ⟨hlef, hpairs⟩ := List.pairwise_cons.mp hpair
    rw [mergeFrom]
    split
    · refine ih (List.pairwise_cons.mpr ⟨fun y hy => ?_, hpairs⟩)
      exact hle y (List.mem_cons_of_mem f hy)
    · rename_i hne
      refine List.pairwise_cons.mpr ⟨fun x hx => ?_, ih hpair⟩
      have hef := hle f List.mem_cons_self
      have hfx := le_of_mem_mergeFrom hpair x hx
      omega

theorem pairwise_mergeAdjacent {es : List (ℕ × ℤ)} (h : es.Pairwise fun x y => x.1 ≤ y.1) :
    (mergeAdjacent es).Pairwise fun x y => x.1 < y.1 := by
  cases es with
  | nil => exact List.Pairwise.nil
  | cons e es => exact pairwise_mergeFrom h

end Merge

section Running

/-- The levels a list of events leads to, from a level to start with. -/
def running : ℤ → List (ℕ × ℤ) → List (ℕ × ℤ)
  | _, [] => []
  | c, e :: es => (e.1, c + e.2) :: running (c + e.2) es

/-- **The last level at or before a position is the level there.** -/
theorem getLast?_takeWhile_running {es : List (ℕ × ℤ)}
    (h : es.Pairwise fun x y => x.1 < y.1) (c : ℤ) (b : ℕ) :
    ((((running c es).takeWhile fun e => decide (e.1 ≤ b)).getLast?).map Prod.snd).getD c =
      c + levelAt id es b := by
  induction es generalizing c with
  | nil => simp [running]
  | cons e es ih =>
    obtain ⟨hlt, hpair⟩ := List.pairwise_cons.mp h
    rw [running, levelAt_cons]
    by_cases hb : e.1 ≤ b
    · rw [List.takeWhile_cons_of_pos (by simpa using hb), if_pos hb]
      have := ih hpair (c + e.2)
      rw [List.getLast?_cons, Option.map_some, Option.getD_some]
      rw [id_eq, ← add_assoc, ← this]
      cases ((running (c + e.2) es).takeWhile fun e => decide (e.1 ≤ b)).getLast? <;> rfl
    · rw [List.takeWhile_cons_of_neg (by simpa using hb), if_neg hb]
      rw [levelAt_eq_zero fun f hf => by have := hlt f hf; omega]
      simp

/-- What a lookup leaves of a running list is the running list of the later
events. -/
theorem dropWhile_running {es : List (ℕ × ℤ)} (h : es.Pairwise fun x y => x.1 < y.1) (c : ℤ)
    (b : ℕ) :
    (running c es).dropWhile (fun e => decide (e.1 ≤ b)) =
      running (c + levelAt id es b) (es.dropWhile fun e => decide (e.1 ≤ b)) := by
  induction es generalizing c with
  | nil => simp [running]
  | cons e es ih =>
    obtain ⟨hlt, hpair⟩ := List.pairwise_cons.mp h
    rw [running, levelAt_cons]
    by_cases hb : e.1 ≤ b
    · rw [List.dropWhile_cons_of_pos (by simpa using hb),
        List.dropWhile_cons_of_pos (by simpa using hb), if_pos hb, ih hpair, id_eq, add_assoc]
    · rw [List.dropWhile_cons_of_neg (by simpa using hb),
        List.dropWhile_cons_of_neg (by simpa using hb), if_neg hb,
        levelAt_eq_zero fun f hf => by have := hlt f hf; omega]
      simp [running]

/-- Past a position, the level moves by the later events only. -/
theorem levelAt_eq_add_dropWhile {es : List (ℕ × ℤ)} (h : es.Pairwise fun x y => x.1 < y.1)
    {a b : ℕ} (hab : a ≤ b) :
    levelAt id es b = levelAt id es a + levelAt id (es.dropWhile fun e => decide (e.1 ≤ a)) b := by
  induction es with
  | nil => simp
  | cons e es ih =>
    obtain ⟨hlt, hpair⟩ := List.pairwise_cons.mp h
    by_cases ha : e.1 ≤ a
    · rw [List.dropWhile_cons_of_pos (by simpa using ha), levelAt_cons, levelAt_cons, if_pos ha,
        if_pos (by omega), ih hpair]
      ring
    · have hlevel : levelAt id (e :: es) a = 0 := by
        refine levelAt_eq_zero fun f hf => ?_
        rcases List.mem_cons.mp hf with rfl | hf
        · omega
        · have := hlt f hf
          omega
      rw [List.dropWhile_cons_of_neg (by simpa using ha), hlevel, zero_add]

theorem lt_of_mem_dropWhile {es : List (ℕ × ℤ)} (h : es.Pairwise fun x y => x.1 < y.1) {b : ℕ} :
    ∀ e ∈ es.dropWhile (fun e => decide (e.1 ≤ b)), b < e.1 := by
  induction es with
  | nil => simp
  | cons e es ih =>
    obtain ⟨hlt, hpair⟩ := List.pairwise_cons.mp h
    intro f hf
    by_cases hb : e.1 ≤ b
    · rw [List.dropWhile_cons_of_pos (by simpa using hb)] at hf
      exact ih hpair f hf
    · rw [List.dropWhile_cons_of_neg (by simpa using hb)] at hf
      rcases List.mem_cons.mp hf with rfl | hf
      · omega
      · have := hlt f hf
        omega

end Running

section Insert

variable {α : Type*}

/-- Update the entry of a position in a sorted list, inserting it when it is new. -/
def insertWith (start : α) (f : α → α) (key : ℕ) : List (ℕ × α) → List (ℕ × α)
  | [] => [(key, f start)]
  | e :: es =>
    if key < e.1 then (key, f start) :: e :: es
    else if key = e.1 then (e.1, f e.2) :: es
    else e :: insertWith start f key es

variable {start : α} {f : α → α} {key : ℕ}

theorem mem_insertWith_key {es : List (ℕ × α)} {x : ℕ × α} (h : x ∈ insertWith start f key es) :
    x.1 = key ∨ ∃ e ∈ es, e.1 = x.1 := by
  induction es with
  | nil =>
    rw [insertWith, List.mem_singleton] at h
    exact .inl (by rw [h])
  | cons e es ih =>
    rw [insertWith] at h
    split at h
    · rcases List.mem_cons.mp h with rfl | h
      · exact .inl rfl
      · exact .inr ⟨x, h, rfl⟩
    · split at h
      · rcases List.mem_cons.mp h with rfl | h
        · exact .inr ⟨e, List.mem_cons_self, rfl⟩
        · exact .inr ⟨x, List.mem_cons_of_mem e h, rfl⟩
      · rcases List.mem_cons.mp h with rfl | h
        · exact .inr ⟨x, List.mem_cons_self, rfl⟩
        · rcases ih h with hkey | ⟨y, hy, hyx⟩
          · exact .inl hkey
          · exact .inr ⟨y, List.mem_cons_of_mem e hy, hyx⟩

theorem pairwise_insertWith {es : List (ℕ × α)} (h : es.Pairwise fun x y => x.1 < y.1) :
    (insertWith start f key es).Pairwise fun x y => x.1 < y.1 := by
  induction es with
  | nil => exact List.pairwise_singleton _ _
  | cons e es ih =>
    obtain ⟨hlt, hpair⟩ := List.pairwise_cons.mp h
    rw [insertWith]
    split
    · rename_i hkey
      refine List.pairwise_cons.mpr ⟨fun x hx => ?_, h⟩
      rcases List.mem_cons.mp hx with rfl | hx
      · exact hkey
      · exact hkey.trans (hlt x hx)
    · split
      · exact List.pairwise_cons.mpr ⟨hlt, hpair⟩
      · rename_i hnot hne
        refine List.pairwise_cons.mpr ⟨fun x hx => ?_, ih hpair⟩
        rcases mem_insertWith_key hx with hx | ⟨y, hy, hyx⟩
        · omega
        · rw [← hyx]
          exact hlt y hy

/-- **An update that adds to the measure adds to the level from its position on.** -/
theorem levelAt_insertWith {g : α → ℤ} {d : ℤ} (hstart : g start = 0)
    (hf : ∀ a, g (f a) = g a + d) (es : List (ℕ × α)) (b : ℕ) :
    levelAt g (insertWith start f key es) b = levelAt g es b + if key ≤ b then d else 0 := by
  induction es with
  | nil => simp [insertWith, hf, hstart]
  | cons e es ih =>
    rw [insertWith]
    split
    · rw [levelAt_cons, hf, hstart, zero_add, add_comm]
    · split
      · rename_i heq
        rw [levelAt_cons, levelAt_cons, hf, heq]
        by_cases hb : e.1 ≤ b
        · simp only [if_pos hb]
          ring
        · simp only [if_neg hb, add_zero]
      · rw [levelAt_cons, levelAt_cons, ih]
        ring

end Insert

end Sweep
