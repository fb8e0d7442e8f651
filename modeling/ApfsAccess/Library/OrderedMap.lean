import Mathlib

/-!
# Maps as lists of entries

A map is the list of its entries in the order of the keys, as `std::map` goes over them.  An entry is
put in only when its key is not there.

* `find?_of_emplace` : what is found after an entry was put in.
* `mem_of_find?_eq_some` : what is found is an entry.
-/

namespace OrderedMap

variable {κ β : Type} [DecidableEq κ]

/-- The value of a key. -/
def find? (map : List (κ × β)) (key : κ) : Option β :=
  match map with
  | [] => none
  | entry :: rest => if entry.1 = key then some entry.2 else find? rest key

/-- The key is there. -/
def contains (map : List (κ × β)) (key : κ) : Bool := (find? map key).isSome

/-- The entries with a further one, before the first that has a greater key. -/
def insert (lt : κ → κ → Bool) (key : κ) (value : β) : List (κ × β) → List (κ × β)
  | [] => [(key, value)]
  | entry :: rest =>
    if lt key entry.1 then (key, value) :: entry :: rest else entry :: insert lt key value rest

/-- `emplace`: the map after it, and whether the entry was put in. -/
def emplace (lt : κ → κ → Bool) (map : List (κ × β)) (key : κ) (value : β) :
    List (κ × β) × Bool :=
  if contains map key then (map, false) else (insert lt key value map, true)

section Entries

variable {lt : κ → κ → Bool} {map after : List (κ × β)} {key other : κ} {value : β}

theorem find?_cons (entry : κ × β) (rest : List (κ × β)) (key : κ) :
    find? (entry :: rest) key = if entry.1 = key then some entry.2 else find? rest key := rfl

theorem find?_insert (habsent : find? map key = none) (other : κ) :
    find? (insert lt key value map) other = if key = other then some value else find? map other := by
  induction map with
  | nil => rfl
  | cons entry rest ih =>
    rw [find?_cons] at habsent
    by_cases hentry : entry.1 = key
    · rw [if_pos hentry] at habsent
      exact nomatch habsent
    rw [if_neg hentry] at habsent
    rw [insert]
    split
    · rw [find?_cons]
    · rw [find?_cons, ih habsent, find?_cons]
      by_cases hother : entry.1 = other
      · rw [if_pos hother, if_pos hother, if_neg fun h => hentry (hother.trans h.symm)]
      · rw [if_neg hother, if_neg hother]

/-- **Putting in an entry** that is taken. -/
theorem find?_of_emplace (h : emplace lt map key value = (after, true)) :
    find? map key = none ∧
      ∀ other, find? after other = if key = other then some value else find? map other := by
  rw [emplace] at h
  split at h
  · exact absurd (congrArg Prod.snd h) nofun
  · rename_i hcontains
    have habsent : find? map key = none := by
      rwa [contains, Option.not_isSome_iff_eq_none] at hcontains
    obtain rfl : insert lt key value map = after := congrArg Prod.fst h
    exact ⟨habsent, find?_insert habsent⟩

/-- After `emplace` the key is there, and every other key is as it was. -/
theorem find?_emplace_of_ne (hne : key ≠ other) :
    find? (emplace lt map key value).1 other = find? map other := by
  rw [emplace]
  split
  · rfl
  · rename_i hcontains
    rw [contains, Option.not_isSome_iff_eq_none] at hcontains
    rw [find?_insert hcontains, if_neg hne]

theorem contains_emplace : contains (emplace lt map key value).1 key = true := by
  rw [emplace]
  split
  · assumption
  · rename_i hcontains
    rw [contains, Option.not_isSome_iff_eq_none] at hcontains
    rw [contains, find?_insert hcontains, if_pos rfl]
    rfl

theorem mem_of_find?_eq_some (h : find? map key = some value) : (key, value) ∈ map := by
  induction map with
  | nil => exact nomatch h
  | cons entry rest ih =>
    rw [find?_cons] at h
    split at h
    · rename_i hentry
      rw [← hentry, ← Option.some.inj h]
      exact List.mem_cons_self
    · exact List.mem_cons_of_mem _ (ih h)

theorem contains_iff : contains map key = true ↔ ∃ value, find? map key = some value :=
  Option.isSome_iff_exists

end Entries

end OrderedMap
