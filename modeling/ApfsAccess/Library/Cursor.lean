import ApfsAccess.Library.ByteBuffer

/-!
# Readers that consume a buffer from the front

A reader takes a value off the front of what is left of a buffer, or fails and leaves nothing.
`Reads reader written value` says that the reader finds `value` where `written` stands, whatever
follows it.  A record that was written field by field is then read field by field: one rule for
each way to put readers together.

* `Reads.bind`, `Reads.finish` : one field after another, and the last of them.
* `reads_takeLE` : a number of fixed width.
* `reads_many` : a counted list of records.
-/

namespace Cursor

open ByteBuffer

variable {β α γ : Type}

/-- A reader of a buffer. -/
abbrev Reader (β α : Type) := StateT (List β) Option α

/-- The reader finds the value where `written` stands, whatever follows. -/
def Reads (reader : Reader β α) (written : List β) (value : α) : Prop :=
  ∀ rest, reader.run (written ++ rest) = some (value, rest)

theorem Reads.pure (value : α) : Reads (pure value : Reader β α) [] value :=
  fun _ => rfl

/-- **One field after another.** -/
theorem Reads.bind {first : Reader β α} {next : α → Reader β γ} {written more : List β}
    {value : α} {result : γ} (hfirst : Reads first written value)
    (hnext : Reads (next value) more result) :
    Reads (first >>= next) (written ++ more) result := by
  intro rest
  rw [StateT.run_bind, List.append_assoc, hfirst (more ++ rest)]
  exact hnext rest

/-- The last field: what comes after it reads nothing more. -/
theorem Reads.finish {first : Reader β α} {next : α → Reader β γ} {written : List β}
    {value : α} {result : γ} (hfirst : Reads first written value)
    (hnext : Reads (next value) [] result) : Reads (first >>= next) written result := by
  have hboth := hfirst.bind hnext
  rwa [List.append_nil] at hboth

/-- What was read is handed on. -/
theorem Reads.map {reader : Reader β α} {written : List β} {value : α} (f : α → γ)
    (h : Reads reader written value) : Reads (f <$> reader) written (f value) := by
  rw [map_eq_pure_bind]
  exact h.finish (Reads.pure (f value))

/-- Exactly `count` elements. -/
def takeExactly (count : ℕ) : Reader β (List β) := fun rest =>
  if rest.length < count then none else some (rest.take count, rest.drop count)

theorem reads_takeExactly {count : ℕ} (written : List β) (h : written.length = count) :
    Reads (takeExactly count) written written := by
  intro rest
  have hlength : ¬ (written ++ rest).length < count := by
    rw [List.length_append]
    omega
  show (if (written ++ rest).length < count then none
    else some ((written ++ rest).take count, (written ++ rest).drop count)) = _
  rw [if_neg hlength, List.take_left' h, List.drop_left' h]

/-- A little-endian number of a fixed width. -/
def takeLE (width : ℕ) : Reader UInt8 ℕ := do
  let bytes ← takeExactly width
  Pure.pure (leValue bytes)

/-- **A number that fits its width.** -/
theorem reads_takeLE {width value : ℕ} (h : value < 256 ^ width) :
    Reads (takeLE width) (leBytes width value) value := by
  refine (reads_takeExactly _ (length_leBytes width value)).finish ?_
  rw [leValue_leBytes h]
  exact Reads.pure value

/-- `count` records, each added to what was read before. -/
def many (reader : α → Reader β α) : ℕ → α → Reader β α
  | 0, state => Pure.pure state
  | count + 1, state => reader state >>= many reader count

/-- **A counted list of records.**  `Holds` is what a record relies on in what was read before
it. -/
theorem reads_many {ρ : Type} {reader : α → Reader β α} {write : ρ → List β} {add : α → ρ → α}
    {records : List ρ} {state : α} (Holds : α → Prop) (hstate : Holds state)
    (hstep : ∀ state, Holds state → ∀ record ∈ records,
      Reads (reader state) (write record) (add state record) ∧ Holds (add state record)) :
    Reads (many reader records.length state) (records.flatMap write)
      (records.foldl add state) := by
  induction records generalizing state with
  | nil => exact Reads.pure state
  | cons record records ih =>
    obtain ⟨hread, hnext⟩ := hstep state hstate record List.mem_cons_self
    refine hread.bind (ih hnext fun state hstate other hother => ?_)
    exact hstep state hstate other (List.mem_cons_of_mem _ hother)

end Cursor
