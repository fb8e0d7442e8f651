import Mathlib.Data.List.AList
import Mathlib.Data.List.Induction

/-!
# Last write wins

A table is changed by a log of updates.  An update replaces what its key has or, as a tombstone,
removes it.  What a key has after the log is said by the last update of that key alone, so a log
may be replaced by any list that has the same last update for every key: in particular by one
update for each key, in any order.

* `lookup_replay` : what a key has after a log.
* `lookup_collect`, `last_values` : collecting the last updates and laying them out again.
-/

namespace LastWrite

variable {κ υ : Type*} [DecidableEq κ]

/-- A table of values by key. -/
abbrev Table (κ υ : Type*) := AList fun _ : κ => υ

section Replay

variable (key : υ → κ) (tombstone : υ → Bool)

/-- One update. -/
def write (table : Table κ υ) (update : υ) : Table κ υ :=
  if tombstone update then table.erase (key update) else table.insert (key update) update

/-- A log of updates. -/
def replay (table : Table κ υ) (updates : List υ) : Table κ υ :=
  updates.foldl (write key tombstone) table

/-- The last update of a key. -/
def last (k : κ) (updates : List υ) : Option υ :=
  (updates.filter fun update => key update = k).getLast?

/-- What an update leaves of its key. -/
def outcome (update : υ) : Option υ :=
  if tombstone update then none else some update

theorem last_append (k : κ) (updates later : List υ) :
    last key k (updates ++ later) = (last key k later).or (last key k updates) := by
  unfold last
  rw [List.filter_append, List.getLast?_append]

theorem last_singleton (k : κ) (update : υ) :
    last key k [update] = if key update = k then some update else none := by
  unfold last
  by_cases h : key update = k
  · simp [h]
  · simp [h]

theorem replay_append (table : Table κ υ) (updates later : List υ) :
    replay key tombstone table (updates ++ later) =
      replay key tombstone (replay key tombstone table updates) later :=
  List.foldl_append

theorem lookup_write (table : Table κ υ) (update : υ) (k : κ) :
    (write key tombstone table update).lookup k =
      if key update = k then outcome tombstone update else table.lookup k := by
  unfold write outcome
  by_cases htomb : tombstone update = true
  · rw [if_pos htomb, if_pos htomb]
    by_cases h : key update = k
    · subst h
      rw [if_pos rfl, AList.lookup_erase]
    · rw [if_neg h, AList.lookup_erase_ne (Ne.symm h)]
  · rw [if_neg htomb, if_neg htomb]
    by_cases h : key update = k
    · subst h
      rw [if_pos rfl, AList.lookup_insert]
    · rw [if_neg h, AList.lookup_insert_ne (Ne.symm h)]

/-- **What a key has after a log**: what its last update leaves. -/
theorem lookup_replay (table : Table κ υ) (updates : List υ) (k : κ) :
    (replay key tombstone table updates).lookup k =
      match last key k updates with
      | none => table.lookup k
      | some update => outcome tombstone update := by
  induction updates using List.reverseRec with
  | nil => rfl
  | append_singleton updates update ih =>
    rw [replay_append, last_append, last_singleton]
    show (write key tombstone (replay key tombstone table updates) update).lookup k = _
    rw [lookup_write, ih]
    by_cases h : key update = k
    · rw [if_pos h, if_pos h, Option.some_or]
    · rw [if_neg h, if_neg h, Option.none_or]

end Replay

section Collect

variable (key : υ → κ)

/-- The last update of every key is kept, over what a table has. -/
def collect (table : Table κ υ) (updates : List υ) : Table κ υ :=
  updates.foldl (fun table update => table.insert (key update) update) table

/-- Every value is kept under its own key. -/
def Keyed (table : Table κ υ) : Prop :=
  ∀ entry ∈ table.entries, key entry.2 = entry.1

theorem collect_append (table : Table κ υ) (updates later : List υ) :
    collect key table (updates ++ later) = collect key (collect key table updates) later :=
  List.foldl_append

theorem lookup_collect (updates : List υ) (k : κ) :
    (collect key ∅ updates).lookup k = last key k updates := by
  induction updates using List.reverseRec with
  | nil => rfl
  | append_singleton updates update ih =>
    rw [collect_append, last_append, last_singleton, ← ih]
    show ((collect key ∅ updates).insert (key update) update).lookup k = _
    by_cases h : key update = k
    · subst h
      rw [AList.lookup_insert, if_pos rfl, Option.some_or]
    · rw [AList.lookup_insert_ne (Ne.symm h), if_neg h, Option.none_or]

/-- The values that are collected are updates of the log, under their own keys. -/
theorem mem_collect {updates : List υ} {entry : Σ _ : κ, υ}
    (h : entry ∈ (collect key ∅ updates).entries) :
    entry.2 ∈ updates ∧ key entry.2 = entry.1 := by
  have hlookup : (collect key ∅ updates).lookup entry.1 = some entry.2 :=
    AList.mem_lookup_iff.mpr h
  rw [lookup_collect] at hlookup
  have hmem := List.mem_of_getLast? hlookup
  rw [List.mem_filter] at hmem
  exact ⟨hmem.1, by simpa using hmem.2⟩

theorem keyed_collect (updates : List υ) : Keyed key (collect key ∅ updates) :=
  fun _ hentry => (mem_collect key hentry).2

omit [DecidableEq κ] in
theorem eq_singleton_of_nodup {x : κ} {xs : List κ} (hnodup : xs.Nodup) (hmem : x ∈ xs)
    (hall : ∀ y ∈ xs, y = x) : xs = [x] := by
  cases xs with
  | nil => cases hmem
  | cons y ys =>
    obtain ⟨rfl, hys⟩ := List.forall_mem_cons.mp hall
    cases ys with
    | nil => rfl
    | cons z zs =>
      have hz := hys z List.mem_cons_self
      rw [List.nodup_cons] at hnodup
      exact absurd (hz ▸ List.mem_cons_self) hnodup.1

/-- A table lists at most one update of a key, so it is the last one wherever it stands. -/
theorem last_values {table : Table κ υ} (hkeyed : Keyed key table) {values : List υ}
    (hvalues : values.Perm (table.entries.map Sigma.snd)) (k : κ) :
    last key k values = table.lookup k := by
  have hfilter : (values.filter fun update => key update = k).Perm
      ((table.entries.filter fun entry => entry.1 = k).map Sigma.snd) := by
    refine (hvalues.filter _).trans ?_
    rw [List.filter_map]
    refine List.Perm.of_eq (congrArg _ (List.filter_congr fun entry hentry => ?_))
    rw [Function.comp_apply, hkeyed entry hentry]
  cases hlookup : table.lookup k with
  | none =>
    have hnone : ∀ entry ∈ table.entries, entry.1 ≠ k := by
      intro entry hentry hk
      have hmem : k ∈ table := hk ▸ AList.mem_keys.mpr (List.mem_map_of_mem hentry)
      exact (AList.lookup_eq_none.mp hlookup) hmem
    have hempty : (table.entries.filter fun entry => entry.1 = k) = [] := by
      rw [List.filter_eq_nil_iff]
      intro entry hentry
      simpa using hnone entry hentry
    rw [hempty, List.map_nil] at hfilter
    unfold last
    rw [List.Perm.eq_nil hfilter, List.getLast?_nil]
  | some value =>
    have hmem : (⟨k, value⟩ : Σ _ : κ, υ) ∈ table.entries := AList.mem_lookup_iff.mp hlookup
    have hnodup : (table.entries.filter fun entry => entry.1 = k).Nodup :=
      table.nodupKeys.nodup.filter _
    have hall : ∀ entry ∈ table.entries.filter fun entry => entry.1 = k,
        entry = (⟨k, value⟩ : Σ _ : κ, υ) := by
      intro entry hentry
      rw [List.mem_filter] at hentry
      exact table.nodupKeys.eq_of_fst_eq hentry.1 hmem (by simpa using hentry.2)
    have hsingle : (table.entries.filter fun entry => entry.1 = k) = [⟨k, value⟩] := by
      have hfiltered : (⟨k, value⟩ : Σ _ : κ, υ) ∈ table.entries.filter fun entry => entry.1 = k :=
        List.mem_filter.mpr ⟨hmem, by simp⟩
      exact eq_singleton_of_nodup hnodup hfiltered hall
    rw [hsingle, List.map_singleton] at hfilter
    unfold last
    rw [List.perm_singleton.mp hfilter, List.getLast?_singleton]

end Collect

section Map

variable (key : υ → κ) {f : υ → υ}

/-- A change of the updates that keeps their keys. -/
theorem last_map (h : ∀ update, key (f update) = key update) (k : κ) (updates : List υ) :
    last key k (updates.map f) = (last key k updates).map f := by
  unfold last
  have hcomp : (fun update => decide (key update = k)) ∘ f =
      fun update => decide (key update = k) := by
    funext update
    rw [Function.comp_apply, h]
  rw [List.filter_map, hcomp, List.getLast?_map]

end Map

end LastWrite
