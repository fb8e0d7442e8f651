import ApfsAccess.Library.Cursor

/-!
# Canonical codecs

A reader and a writer form a canonical codec when the reader takes a value off a buffer exactly where the
writer would have put it: what is written is read, and what is read was written.  The rules rewrite a
reader that is built field by field into the list of what it takes, one `bind_iff` for each field.

* `Codes.bind_iff` : one field after another.
* `codes_takeExactly`, `codes_takeLE` : the elementary fields.
* `codes_times` : a list of known length.
-/

namespace Cursor

open ByteBuffer

variable {β α γ : Type}

/-- The reader takes exactly the admitted values, each where the writer would have put it. -/
def Codes (reader : Reader β α) (write : α → List β) (admitted : α → Prop) : Prop :=
  ∀ input value rest, reader.run input = some (value, rest) ↔
    admitted value ∧ input = write value ++ rest

section Rules

variable {reader : Reader β α} {write : α → List β} {admitted : α → Prop} {input : List β}

/-- **One field after another.** -/
theorem Codes.bind_iff (h : Codes reader write admitted) {next : α → Reader β γ}
    {result : γ × List β} :
    (reader >>= next).run input = some result ↔
      ∃ value rest, admitted value ∧ input = write value ++ rest ∧
        (next value).run rest = some result := by
  rw [StateT.run_bind, Option.bind_eq_bind, Option.bind_eq_some_iff]
  constructor
  · rintro ⟨⟨value, rest⟩, hread, hnext⟩
    obtain ⟨hvalue, hinput⟩ := (h input value rest).mp hread
    exact ⟨value, rest, hvalue, hinput, hnext⟩
  · rintro ⟨value, rest, hvalue, hinput, hnext⟩
    exact ⟨(value, rest), (h input value rest).mpr ⟨hvalue, hinput⟩, hnext⟩

/-- What is written determines the value. -/
theorem Codes.eq_of_write_eq (h : Codes reader write admitted) {first second : α}
    (hfirst : admitted first) (hsecond : admitted second) (heq : write first = write second) :
    first = second := by
  have hread := (h (write first ++ []) first []).mpr ⟨hfirst, rfl⟩
  rw [heq, (h (write second ++ []) second []).mpr ⟨hsecond, rfl⟩] at hread
  exact (Prod.mk.inj (Option.some.inj hread)).1.symm

theorem run_pure_iff {value : α} {result : α × List β} :
    (pure value : Reader β α).run input = some result ↔ (value, input) = result :=
  Option.some_inj

/-- A test between two fields. -/
def check (condition : Prop) [Decidable condition] : Reader β Unit := fun rest =>
  if condition then some ((), rest) else none

theorem check_bind_iff {condition : Prop} [Decidable condition] {next : Unit → Reader β γ}
    {result : γ × List β} :
    (check condition >>= next).run input = some result ↔
      condition ∧ (next ()).run input = some result := by
  rw [StateT.run_bind, Option.bind_eq_bind, Option.bind_eq_some_iff]
  by_cases h : condition
  · have hrun : (check condition : Reader β Unit).run input = some ((), input) := if_pos h
    rw [hrun]
    constructor
    · rintro ⟨passed, hpassed, hnext⟩
      obtain rfl := Option.some.inj hpassed
      exact ⟨h, hnext⟩
    · exact fun hnext => ⟨((), input), rfl, hnext.2⟩
  · have hrun : (check condition : Reader β Unit).run input = none := if_neg h
    rw [hrun]
    constructor
    · rintro ⟨passed, hpassed, -⟩
      cases hpassed
    · exact fun hnext => absurd hnext.1 h

end Rules

section Fields

theorem codes_takeExactly (count : ℕ) :
    Codes (takeExactly count : Reader β (List β)) id (fun taken => taken.length = count) := by
  intro input taken rest
  show (if input.length < count then none else some (input.take count, input.drop count)) =
    some (taken, rest) ↔ _
  constructor
  · intro h
    split_ifs at h with hshort
    obtain ⟨htaken, hrest⟩ := Prod.mk.inj (Option.some.inj h)
    refine ⟨?_, ?_⟩
    · show taken.length = count
      rw [← htaken, List.length_take]
      omega
    · rw [id, ← htaken, ← hrest, List.take_append_drop]
  · rintro ⟨hlength, rfl⟩
    rw [id, if_neg (by rw [List.length_append]; omega), List.take_left' hlength,
      List.drop_left' hlength]

theorem codes_takeLE (width : ℕ) :
    Codes (takeLE width) (leBytes width) (fun value => value < 256 ^ width) := by
  intro input value rest
  rw [takeLE, (codes_takeExactly width).bind_iff]
  constructor
  · rintro ⟨taken, left, hlength, hinput, hrun⟩
    obtain ⟨rfl, rfl⟩ := Prod.mk.inj (run_pure_iff.mp hrun)
    refine ⟨?_, ?_⟩
    · rw [← hlength]
      exact leValue_lt taken
    · rw [hinput, ← hlength, leBytes_leValue]
      rfl
  · rintro ⟨hvalue, hinput⟩
    refine ⟨leBytes width value, rest, length_leBytes width value, hinput, ?_⟩
    rw [leValue_leBytes hvalue]
    rfl

/-- `count` values one after another. -/
def times (count : ℕ) (reader : Reader β α) : Reader β (List α) :=
  match count with
  | 0 => pure []
  | count + 1 => do
    let first ← reader
    let others ← times count reader
    pure (first :: others)

/-- **A list of known length.** -/
theorem codes_times {reader : Reader β α} {write : α → List β} {admitted : α → Prop}
    (h : Codes reader write admitted) (count : ℕ) :
    Codes (times count reader) (List.flatMap write)
      (fun values => values.length = count ∧ ∀ value ∈ values, admitted value) := by
  induction count with
  | zero =>
    intro input values rest
    rw [times, run_pure_iff, Prod.mk.injEq]
    constructor
    · rintro ⟨rfl, rfl⟩
      exact ⟨⟨rfl, fun value hvalue => absurd hvalue List.not_mem_nil⟩, rfl⟩
    · rintro ⟨⟨hlength, -⟩, hinput⟩
      obtain rfl := List.length_eq_zero_iff.mp hlength
      exact ⟨rfl, hinput⟩
  | succ count ih =>
    intro input values rest
    rw [times, h.bind_iff]
    constructor
    · rintro ⟨first, left, hfirst, hinput, hothers⟩
      obtain ⟨others, last, ⟨hlength, hall⟩, hleft, hrun⟩ := ih.bind_iff.mp hothers
      obtain ⟨rfl, rfl⟩ := Prod.mk.inj (run_pure_iff.mp hrun)
      refine ⟨⟨by rw [List.length_cons, hlength], ?_⟩, ?_⟩
      · exact List.forall_mem_cons.mpr ⟨hfirst, hall⟩
      · rw [hinput, hleft, List.flatMap_cons, List.append_assoc]
    · rintro ⟨⟨hlength, hall⟩, hinput⟩
      obtain ⟨first, others, rfl⟩ := List.exists_cons_of_length_eq_add_one hlength
      rw [List.forall_mem_cons] at hall
      rw [List.flatMap_cons, List.append_assoc] at hinput
      refine ⟨first, others.flatMap write ++ rest, hall.1, hinput, ih.bind_iff.mpr ?_⟩
      exact ⟨others, rest, ⟨Nat.succ.inj hlength, hall.2⟩, rfl, rfl⟩

end Fields

end Cursor
