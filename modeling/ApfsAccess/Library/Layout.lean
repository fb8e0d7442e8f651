import ApfsAccess.Library.ByteBuffer

/-!
# Words laid out one after the other

An encoder that appends numbers of fixed widths produces a *layout*: the little-endian
bytes of a list of words, each given by its width and its value.  A reader that knows
the widths finds each word at the sum of the widths before it, whatever follows.
-/

namespace ByteBuffer

/-- The bytes of a list of words, each given by its width and its value. -/
def layout (words : List (ℕ × ℕ)) : List UInt8 :=
  words.flatMap fun word => leBytes word.1 word.2

/-- The number of bytes a list of words takes. -/
def widthOf (words : List (ℕ × ℕ)) : ℕ := (words.map Prod.fst).sum

/-- Every word fits its width. -/
def Fits (words : List (ℕ × ℕ)) : Prop := ∀ word ∈ words, word.2 < 256 ^ word.1

instance (words : List (ℕ × ℕ)) : Decidable (Fits words) :=
  inferInstanceAs (Decidable (∀ word ∈ words, word.2 < 256 ^ word.1))

@[simp] theorem layout_nil : layout [] = [] := rfl

@[simp] theorem layout_cons (word : ℕ × ℕ) (words : List (ℕ × ℕ)) :
    layout (word :: words) = leBytes word.1 word.2 ++ layout words := rfl

theorem layout_append (words more : List (ℕ × ℕ)) :
    layout (words ++ more) = layout words ++ layout more :=
  List.flatMap_append

@[simp] theorem length_layout (words : List (ℕ × ℕ)) : (layout words).length = widthOf words := by
  unfold layout widthOf
  rw [List.length_flatMap]
  simp only [length_leBytes]

/-- A segment between two others is read at the length of the first. -/
theorem slice_append_middle {α : Type*} {front seg back : List α} {off len : ℕ}
    (hoff : front.length = off) (hlen : seg.length = len) :
    slice (front ++ (seg ++ back)) off len = seg := by
  subst hoff hlen
  unfold slice
  rw [List.drop_left, List.take_left]

/-- **Each word of a layout is found at the sum of the widths before it.** -/
theorem slice_layout {words : List (ℕ × ℕ)} {i : ℕ} {word : ℕ × ℕ} (h : words[i]? = some word)
    (back : List UInt8) :
    slice (layout words ++ back) (widthOf (words.take i)) word.1 = leBytes word.1 word.2 := by
  obtain ⟨hi, hword⟩ := List.getElem?_eq_some_iff.mp h
  have hsplit : words = words.take i ++ word :: words.drop (i + 1) := by
    rw [← hword, List.cons_getElem_drop_succ, List.take_append_drop]
  have hlayout : layout words ++ back = layout (words.take i) ++
      (leBytes word.1 word.2 ++ (layout (words.drop (i + 1)) ++ back)) := by
    conv_lhs => rw [hsplit]
    rw [layout_append, layout_cons, List.append_assoc, List.append_assoc]
  rw [hlayout]
  exact slice_append_middle (length_layout _) (length_leBytes _ _)

/-- A word of a layout lies inside it. -/
theorem widthOf_take_add_le {words : List (ℕ × ℕ)} {i : ℕ} {word : ℕ × ℕ}
    (h : words[i]? = some word) : widthOf (words.take i) + word.1 ≤ widthOf words := by
  obtain ⟨hi, hword⟩ := List.getElem?_eq_some_iff.mp h
  have hsplit : words = words.take i ++ word :: words.drop (i + 1) := by
    rw [← hword, List.cons_getElem_drop_succ, List.take_append_drop]
  have hwidth : widthOf words =
      widthOf (words.take i) + (word.1 + widthOf (words.drop (i + 1))) := by
    conv_lhs => rw [hsplit]
    unfold widthOf
    rw [List.map_append, List.sum_append, List.map_cons, List.sum_cons]
  omega

end ByteBuffer
