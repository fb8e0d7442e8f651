import ApfsAccess.Library.CanonicalCodec

/-!
# Readers that fail late

A reader of this kind does not stop at a field that is not there: it lowers a flag, hands on some value
and goes on, and only the last test looks at the flag.  Because the flag is never raised again, it
succeeds exactly where a reader that stops at once does.

* `Agrees.bind` : one field after another.
* `agrees_number`, `agrees_bytes` : the elementary fields.
* `agrees_times` : a list of known length.
-/

namespace Cursor

open ByteBuffer

/-- What is left of the buffer, and whether every field so far was there. -/
structure Flagged (β : Type) where
  rest : List β
  ok : Bool
deriving DecidableEq

/-- A reader that lowers the flag or reports an error. -/
abbrev StickyReader (β ε α : Type) := StateT (Flagged β) (Except ε) α

variable {β ε α γ : Type}

/-- The two readers succeed on the same buffers, with the same values, and a flag that is down stays
down. -/
structure Agrees (sticky : StickyReader β ε α) (reader : Reader β α) : Prop where
  good : ∀ rest value last, sticky.run ⟨rest, true⟩ = .ok (value, ⟨last, true⟩) ↔
    reader.run rest = some (value, last)
  stuck : ∀ rest value last, sticky.run ⟨rest, false⟩ ≠ .ok (value, ⟨last, true⟩)

section Rules

theorem run_bind_eq_ok_iff {first : StickyReader β ε α} {next : α → StickyReader β ε γ}
    {state : Flagged β} {result : γ × Flagged β} :
    (first >>= next).run state = .ok result ↔
      ∃ value middle, first.run state = .ok (value, middle) ∧
        (next value).run middle = .ok result := by
  rw [StateT.run_bind]
  match hfirst : first.run state with
  | .error error =>
    constructor
    · intro h
      cases h
    · rintro ⟨value, middle, h, -⟩
      cases h
  | .ok (value, middle) =>
    constructor
    · exact fun h => ⟨value, middle, rfl, h⟩
    · rintro ⟨other, left, h, hnext⟩
      obtain ⟨rfl, rfl⟩ := Prod.mk.inj (Except.ok.inj h)
      exact hnext

theorem agrees_pure (value : α) :
    Agrees (pure value : StickyReader β ε α) (pure value : Reader β α) where
  good rest other last := by
    rw [run_pure_iff]
    constructor
    · intro h
      obtain ⟨rfl, hstate⟩ := Prod.mk.inj (Except.ok.inj h)
      rw [(Flagged.mk.inj hstate).1]
    · rintro h
      obtain ⟨rfl, rfl⟩ := Prod.mk.inj h
      rfl
  stuck rest other last h := by
    obtain ⟨-, hstate⟩ := Prod.mk.inj (Except.ok.inj h)
    cases (Flagged.mk.inj hstate).2

/-- **One field after another.** -/
theorem Agrees.bind {first : StickyReader β ε α} {reader : Reader β α}
    {next : α → StickyReader β ε γ} {following : α → Reader β γ} (hfirst : Agrees first reader)
    (hnext : ∀ value, Agrees (next value) (following value)) :
    Agrees (first >>= next) (reader >>= following) where
  good rest value last := by
    rw [run_bind_eq_ok_iff, StateT.run_bind, Option.bind_eq_bind, Option.bind_eq_some_iff]
    constructor
    · rintro ⟨found, ⟨left, flag⟩, hrun, hrest⟩
      cases flag with
      | false => exact absurd hrest ((hnext found).stuck left value last)
      | true =>
        exact ⟨(found, left), (hfirst.good rest found left).mp hrun,
          ((hnext found).good left value last).mp hrest⟩
    · rintro ⟨⟨found, left⟩, hrun, hrest⟩
      exact ⟨found, ⟨left, true⟩, (hfirst.good rest found left).mpr hrun,
        ((hnext found).good left value last).mpr hrest⟩
  stuck rest value last := by
    rw [Ne, run_bind_eq_ok_iff]
    rintro ⟨found, ⟨left, flag⟩, hrun, hrest⟩
    cases flag with
    | false => exact (hnext found).stuck left value last hrest
    | true => exact hfirst.stuck rest found left hrun

/-- A test that reports an error. -/
def require (condition : Prop) [Decidable condition] (error : ε) : StickyReader β ε Unit :=
  fun state => if condition then .ok ((), state) else .error error

/-- A test that lowers the flag. -/
def mark (condition : Prop) [Decidable condition] : StickyReader β ε Unit :=
  fun state => if condition then .ok ((), state) else .ok ((), { state with ok := false })

theorem check_run_eq_some_iff {condition : Prop} [Decidable condition] {rest last : List β} :
    (check condition : Reader β Unit).run rest = some ((), last) ↔ condition ∧ rest = last := by
  show (if condition then some ((), rest) else none) = some ((), last) ↔ _
  split_ifs with h
  · rw [Option.some_inj, Prod.mk.injEq]
    exact ⟨fun h' => ⟨h, h'.2⟩, fun h' => ⟨rfl, h'.2⟩⟩
  · exact iff_of_false nofun fun h' => h h'.1

theorem agrees_require (condition : Prop) [Decidable condition] (error : ε) :
    Agrees (require condition error) (check condition : Reader β Unit) where
  good rest value last := by
    rw [check_run_eq_some_iff]
    show (if condition then Except.ok ((), (⟨rest, true⟩ : Flagged β)) else Except.error error) =
      .ok (value, ⟨last, true⟩) ↔ _
    split_ifs with h
    · rw [Except.ok.injEq, Prod.mk.injEq, Flagged.mk.injEq]
      exact ⟨fun h' => ⟨h, h'.2.1⟩, fun h' => ⟨rfl, h'.2, rfl⟩⟩
    · exact iff_of_false nofun fun h' => h h'.1
  stuck rest value last := by
    show (if condition then Except.ok ((), (⟨rest, false⟩ : Flagged β)) else Except.error error) ≠
      .ok (value, ⟨last, true⟩)
    split_ifs <;> exact nofun

theorem agrees_mark (condition : Prop) [Decidable condition] :
    Agrees (mark condition : StickyReader β ε Unit) (check condition) where
  good rest value last := by
    rw [check_run_eq_some_iff]
    show (if condition then (Except.ok ((), (⟨rest, true⟩ : Flagged β)) : Except ε _)
      else Except.ok ((), (⟨rest, false⟩ : Flagged β))) = .ok (value, ⟨last, true⟩) ↔ _
    split_ifs with h
    · rw [Except.ok.injEq, Prod.mk.injEq, Flagged.mk.injEq]
      exact ⟨fun h' => ⟨h, h'.2.1⟩, fun h' => ⟨rfl, h'.2, rfl⟩⟩
    · refine iff_of_false (fun h' => ?_) fun h' => h h'.1
      cases h'
  stuck rest value last := by
    show (if condition then (Except.ok ((), (⟨rest, false⟩ : Flagged β)) : Except ε _)
      else Except.ok ((), (⟨rest, false⟩ : Flagged β))) ≠ .ok (value, ⟨last, true⟩)
    split_ifs <;> exact nofun

/-- A reader that does not look at the flag, with the value it hands on where the field is not
there. -/
def lenient (reader : Reader β α) (missing : α) : StickyReader β ε α := fun state =>
  match reader.run state.rest with
  | some (value, rest) => .ok (value, { state with rest })
  | none => .ok (missing, { state with ok := false })

theorem agrees_lenient (reader : Reader β α) (missing : α) :
    Agrees (lenient reader missing : StickyReader β ε α) reader where
  good rest value last := by
    unfold StateT.run lenient
    split
    · rename_i found left hread
      rw [Except.ok.injEq, Prod.mk.injEq, Flagged.mk.injEq]
      show _ ↔ reader.run rest = _
      have hread' : reader.run rest = some (found, left) := hread
      rw [hread', Option.some_inj, Prod.mk.injEq]
      exact ⟨fun h => ⟨h.1, h.2.1⟩, fun h => ⟨h.1, h.2, rfl⟩⟩
    · rename_i hread
      have hread' : reader.run rest = none := hread
      show _ ↔ reader.run rest = _
      rw [hread']
      exact iff_of_false (fun h => by cases h) nofun
  stuck rest value last := by
    unfold StateT.run lenient
    split <;> exact nofun

end Rules

section Fields

/-- `count` values one after another. -/
def stickyTimes (count : ℕ) (reader : StickyReader β ε α) : StickyReader β ε (List α) :=
  match count with
  | 0 => pure []
  | count + 1 => do
    let first ← reader
    let others ← stickyTimes count reader
    pure (first :: others)

/-- **A list of known length.** -/
theorem agrees_times {sticky : StickyReader β ε α} {reader : Reader β α} (h : Agrees sticky reader)
    (count : ℕ) : Agrees (stickyTimes count sticky) (times count reader) := by
  induction count with
  | zero => exact agrees_pure []
  | succ count ih => exact h.bind fun first => ih.bind fun others => agrees_pure (first :: others)

end Fields

end Cursor
