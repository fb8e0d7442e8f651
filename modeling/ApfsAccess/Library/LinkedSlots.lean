import Mathlib

/-!
# Lists through an array of successors

A set of slots is kept in a list by an array that gives every slot its successor, with a number
`null` behind the last one, and by the numbers of the first and the last slot.  The array alone
does not say that following it ends, or that no slot is lost; that the three *represent* a list
without repetitions does.

* `Represents` : the head, the tail and the array spell a list.
* `findFrom_represents` : following the successors finds the first slot that is accepted.
* `Represents.unlink`, `Represents.append` : taking a slot out, and putting one at the end.
-/

namespace LinkedSlots

/-- The first slot, the last slot and the successors. -/
structure Chain where
  head : ℕ
  tail : ℕ
  next : List ℕ
  deriving DecidableEq, Repr

/-- Following `next` goes through the slots and arrives at `final`. -/
def Linked (next : List ℕ) : List ℕ → ℕ → Prop
  | [], _ => True
  | slot :: slots, final => next[slot]? = some (slots.head?.getD final) ∧ Linked next slots final

theorem linked_cons {next : List ℕ} {slot final : ℕ} {slots : List ℕ} :
    Linked next (slot :: slots) final ↔
      next[slot]? = some (slots.head?.getD final) ∧ Linked next slots final := Iff.rfl

theorem head?_getD_append (xs ys : List ℕ) (final : ℕ) :
    (xs ++ ys).head?.getD final = xs.head?.getD (ys.head?.getD final) := by
  cases xs with
  | nil => rfl
  | cons x xs => rfl

theorem linked_append {next xs ys : List ℕ} {final : ℕ} :
    Linked next (xs ++ ys) final ↔
      Linked next xs (ys.head?.getD final) ∧ Linked next ys final := by
  induction xs with
  | nil => exact (and_iff_right trivial).symm
  | cons x xs ih =>
    rw [List.cons_append, linked_cons, linked_cons, ih, head?_getD_append, and_assoc]

/-- A slot that is not in the list may get any successor. -/
theorem linked_set {next slots : List ℕ} {slot value final : ℕ} (h : slot ∉ slots) :
    Linked (next.set slot value) slots final ↔ Linked next slots final := by
  induction slots with
  | nil => rfl
  | cons first slots ih =>
    have hne : slot ≠ first := fun heq => h (heq ▸ List.mem_cons_self)
    rw [linked_cons, linked_cons, ih fun hmem => h (List.mem_cons_of_mem _ hmem),
      List.getElem?_set_ne hne]

theorem Linked.lt_length {next slots : List ℕ} {final : ℕ} (h : Linked next slots final) :
    ∀ slot ∈ slots, slot < next.length := by
  induction slots with
  | nil => simp
  | cons first slots ih =>
    obtain ⟨hfirst, hrest⟩ := h
    refine List.forall_mem_cons.mpr ⟨?_, ih hrest⟩
    by_contra hout
    rw [List.getElem?_eq_none (by omega)] at hfirst
    cases hfirst

/-- Giving the last slot another successor changes where the list arrives. -/
theorem Linked.set_last {next slots : List ℕ} {last final value : ℕ}
    (h : Linked next (slots ++ [last]) final) (hnodup : (slots ++ [last]).Nodup) :
    Linked (next.set last value) (slots ++ [last]) value := by
  have hnot : last ∉ slots := fun hmem =>
    (List.nodup_append.mp hnodup).2.2 last hmem last (List.mem_singleton_self _) rfl
  have hlt := h.lt_length last (by simp)
  rw [linked_append] at h ⊢
  refine ⟨(linked_set hnot).mpr h.1, ?_, trivial⟩
  rw [List.getElem?_set_self hlt]
  rfl

/-- **The head, the tail and the successors spell the list.** -/
structure Represents (null : ℕ) (chain : Chain) (slots : List ℕ) : Prop where
  head : chain.head = slots.head?.getD null
  tail : chain.tail = slots.getLast?.getD null
  linked : Linked chain.next slots null
  nodup : slots.Nodup
  null_notMem : null ∉ slots

theorem Represents.length_le {null : ℕ} {chain : Chain} {slots : List ℕ}
    (h : Represents null chain slots) : slots.length ≤ chain.next.length := by
  have hsubset : slots ⊆ List.range chain.next.length := fun slot hslot =>
    List.mem_range.mpr (h.linked.lt_length slot hslot)
  have hle := (h.nodup.subperm hsubset).length_le
  rwa [List.length_range] at hle

/-! ## Following the successors -/

/-- The first accepted slot from `slot` on and the slot before it, or `null` when there is none.
The walk stops at a slot that is out of bounds and after as many steps as there are slots. -/
def findFrom (null limit : ℕ) (next : List ℕ) (accept : ℕ → Bool) (visited previous slot : ℕ) :
    Option (ℕ × ℕ) :=
  if slot = null then some (previous, slot)
  else if _hbounds : limit ≤ slot ∨ next.length ≤ slot ∨ next.length < visited + 1 then none
  else if accept slot then some (previous, slot)
  else findFrom null limit next accept (visited + 1) slot (next.getD slot null)
termination_by next.length - visited

/-- **The walk along a list that is spelled** ends at the first slot that is accepted. -/
theorem findFrom_linked {null limit previous visited : ℕ} {next slots : List ℕ}
    {accept : ℕ → Bool} (hlinked : Linked next slots null) (hnull : null ∉ slots)
    (hlimit : ∀ slot ∈ slots, slot < limit) (hvisited : visited + slots.length ≤ next.length) :
    findFrom null limit next accept visited previous (slots.head?.getD null) =
      some ((slots.takeWhile (!accept ·)).getLast?.getD previous,
        (slots.dropWhile (!accept ·)).head?.getD null) := by
  induction slots generalizing previous visited with
  | nil =>
    show findFrom null limit next accept visited previous null = some (previous, null)
    rw [findFrom, if_pos rfl]
  | cons first slots ih =>
    obtain ⟨hfirst, hrest⟩ := hlinked
    have hlt := (show Linked next (first :: slots) null from ⟨hfirst, hrest⟩).lt_length first
      List.mem_cons_self
    have hbound := hlimit first List.mem_cons_self
    have hne : first ≠ null := fun heq => hnull (heq ▸ List.mem_cons_self)
    rw [List.length_cons] at hvisited
    rw [List.head?_cons, Option.getD_some, findFrom, if_neg hne, dif_neg (by omega)]
    cases haccept : accept first with
    | true =>
      rw [if_pos rfl, List.takeWhile_cons_of_neg (by simp [haccept]),
        List.dropWhile_cons_of_neg (by simp [haccept])]
      rfl
    | false =>
      have hstep : next.getD first null = slots.head?.getD null := by
        rw [List.getD_eq_getElem?_getD, hfirst, Option.getD_some]
      rw [if_neg (by simp), hstep, ih hrest (fun hmem => hnull (List.mem_cons_of_mem _ hmem))
        (fun slot hslot => hlimit slot (List.mem_cons_of_mem _ hslot)) (by omega),
        List.takeWhile_cons_of_pos (by simp [haccept]),
        List.dropWhile_cons_of_pos (by simp [haccept]), List.getLast?_cons]
      rfl

theorem Represents.findFrom {null limit : ℕ} {chain : Chain} {slots : List ℕ}
    (h : Represents null chain slots) (accept : ℕ → Bool) (hlimit : ∀ slot ∈ slots, slot < limit) :
    findFrom null limit chain.next accept 0 null chain.head =
      some ((slots.takeWhile (!accept ·)).getLast?.getD null,
        (slots.dropWhile (!accept ·)).head?.getD null) := by
  rw [h.head]
  exact findFrom_linked h.linked h.null_notMem hlimit (by
    rw [Nat.zero_add]
    exact h.length_le)

/-! ## Taking a slot out -/

/-- The chain without the slot that stands behind `previous`, which is `null` in front of the
first. -/
def Chain.unlink (chain : Chain) (null previous slot : ℕ) : Chain where
  head := if previous = null then chain.next.getD slot null else chain.head
  tail := if chain.tail = slot then previous else chain.tail
  next := (if previous = null then chain.next
    else chain.next.set previous (chain.next.getD slot null)).set slot null

/-- The last slot once one is taken out. -/
theorem getLast?_without {back : List ℕ} {slot : ℕ} (null : ℕ) (front : List ℕ) (h : slot ∉ back) :
    (if (front ++ slot :: back).getLast?.getD null = slot then front.getLast?.getD null
      else (front ++ slot :: back).getLast?.getD null) = (front ++ back).getLast?.getD null := by
  rcases List.eq_nil_or_concat back with rfl | ⟨init, last, rfl⟩
  · rw [List.getLast?_concat, Option.getD_some, if_pos rfl, List.append_nil]
  · rw [List.concat_eq_append] at h ⊢
    have hne : last ≠ slot := fun heq => h (by simp [heq])
    have hwith : (front ++ slot :: (init ++ [last])).getLast? = some last := by
      rw [← List.cons_append, ← List.append_assoc, List.getLast?_concat]
    rw [hwith, ← List.append_assoc, List.getLast?_concat, Option.getD_some, if_neg hne]

/-- **Taking a slot out** leaves the list without it. -/
theorem Represents.unlink {null slot : ℕ} {chain : Chain} {front back : List ℕ}
    (h : Represents null chain (front ++ slot :: back)) :
    Represents null (chain.unlink null (front.getLast?.getD null) slot) (front ++ back) ∧
      (chain.unlink null (front.getLast?.getD null) slot).next[slot]? = some null ∧
      (chain.unlink null (front.getLast?.getD null) slot).next.length = chain.next.length ∧
      ∀ other, other ∉ front ++ slot :: back →
        (chain.unlink null (front.getLast?.getD null) slot).next[other]? = chain.next[other]? := by
  obtain ⟨hhead, htail, hlinked, hnodup, hnull⟩ := h
  have hlt := hlinked.lt_length slot (by simp)
  obtain ⟨hfront, hslot, hback⟩ := linked_append.mp hlinked
  have hnext : chain.next.getD slot null = back.head?.getD null := by
    rw [List.getD_eq_getElem?_getD, hslot, Option.getD_some]
  obtain ⟨hfrontNodup, hbackNodup, hapart⟩ := List.nodup_append.mp hnodup
  obtain ⟨hslotBack, hrestNodup⟩ := List.nodup_cons.mp hbackNodup
  have hslotFront : slot ∉ front := fun hmem => hapart slot hmem slot List.mem_cons_self rfl
  have hremaining : (front ++ back).Nodup := List.nodup_append.mpr ⟨hfrontNodup, hrestNodup,
    fun left hleft right hright => hapart left hleft right (List.mem_cons_of_mem _ hright)⟩
  have hnullRemaining : null ∉ front ++ back := by
    simp only [List.mem_append, List.mem_cons, not_or] at hnull ⊢
    exact ⟨hnull.1, hnull.2.2⟩
  rcases List.eq_nil_or_concat front with rfl | ⟨init, last, rfl⟩
  · -- the slot is the first one
    have hunlinked : chain.unlink null (([] : List ℕ).getLast?.getD null) slot = ⟨back.head?.getD null,
        if chain.tail = slot then null else chain.tail, chain.next.set slot null⟩ := by
      simp only [Chain.unlink, List.getLast?_nil, Option.getD_none, if_true, hnext]
    rw [hunlinked]
    refine ⟨⟨rfl, ?_, (linked_set hslotBack).mpr hback, hremaining, hnullRemaining⟩,
      List.getElem?_set_self hlt, List.length_set, fun other hother => ?_⟩
    · dsimp only
      rw [htail]
      exact getLast?_without null [] hslotBack
    · have hne : slot ≠ other := fun heq => hother (by simp [heq])
      exact List.getElem?_set_ne hne
  · rw [List.concat_eq_append] at *
    have hlastNull : last ≠ null := fun heq => hnull (by simp [heq])
    have hlastSlot : last ≠ slot := fun heq => hslotFront (by simp [heq])
    have hlastBack : last ∉ back := fun hmem =>
      hapart last (by simp) last (List.mem_cons_of_mem _ hmem) rfl
    have hunlinked : chain.unlink null ((init ++ [last]).getLast?.getD null) slot = ⟨chain.head,
        if chain.tail = slot then last else chain.tail,
        (chain.next.set last (back.head?.getD null)).set slot null⟩ := by
      simp only [Chain.unlink, List.getLast?_concat, Option.getD_some, if_neg hlastNull, hnext]
    rw [hunlinked]
    refine ⟨⟨?_, ?_, ?_, hremaining, hnullRemaining⟩, ?_, ?_, fun other hother => ?_⟩
    · dsimp only
      rw [hhead, head?_getD_append, head?_getD_append]
      cases init with
      | nil => rfl
      | cons first init => rfl
    · dsimp only
      rw [htail]
      have hwithout := getLast?_without null (init ++ [last]) hslotBack
      rwa [List.getLast?_concat, Option.getD_some] at hwithout
    · rw [linked_append]
      dsimp only
      exact ⟨(linked_set hslotFront).mpr (hfront.set_last hfrontNodup),
        (linked_set hslotBack).mpr ((linked_set hlastBack).mpr hback)⟩
    · dsimp only
      rw [List.getElem?_set_self (by rwa [List.length_set])]
    · dsimp only
      rw [List.length_set, List.length_set]
    · have hne : slot ≠ other := fun heq => hother (by simp [heq])
      have hne' : last ≠ other := fun heq => hother (by simp [heq])
      dsimp only
      rw [List.getElem?_set_ne hne, List.getElem?_set_ne hne']

/-! ## Putting a slot at the end -/

/-- The chain with a slot behind the last one; `none` when the tail is not a slot. -/
def Chain.append (chain : Chain) (null slot : ℕ) : Option Chain :=
  if chain.head = null then some ⟨slot, slot, chain.next.set slot null⟩
  else if chain.tail = null ∨ chain.next.length ≤ chain.tail then none
  else some ⟨chain.head, slot, (chain.next.set chain.tail slot).set slot null⟩

/-- **Putting a slot at the end.** -/
theorem Represents.append {null slot : ℕ} {chain : Chain} {slots : List ℕ}
    (h : Represents null chain slots) (hslot : slot < chain.next.length) (hnew : slot ∉ slots)
    (hnull : slot ≠ null) :
    ∃ after, chain.append null slot = some after ∧ Represents null after (slots ++ [slot]) ∧
      after.next.length = chain.next.length ∧
      ∀ other, other ∉ slots ++ [slot] → after.next[other]? = chain.next[other]? := by
  obtain ⟨hhead, htail, hlinked, hnodup, hnullMem⟩ := h
  have hnodupAfter : (slots ++ [slot]).Nodup := List.nodup_append.mpr
    ⟨hnodup, List.nodup_singleton _, fun left hleft right hright heq =>
      hnew (List.mem_singleton.mp hright ▸ heq ▸ hleft)⟩
  have hnullAfter : null ∉ slots ++ [slot] := by
    rw [List.mem_append, List.mem_singleton, not_or]
    exact ⟨hnullMem, hnull.symm⟩
  rw [Chain.append]
  rcases List.eq_nil_or_concat slots with rfl | ⟨init, last, rfl⟩
  · have hempty : chain.head = null := hhead
    rw [if_pos hempty]
    refine ⟨_, rfl, ⟨rfl, rfl, ⟨List.getElem?_set_self hslot, trivial⟩, hnodupAfter, hnullAfter⟩,
      List.length_set, fun other hother => ?_⟩
    exact List.getElem?_set_ne fun heq => hother (by simp [heq])
  · rw [List.concat_eq_append] at *
    have hlastMem : last ∈ init ++ [last] := by simp
    have hlastNull : last ≠ null := fun heq => hnullMem (heq ▸ hlastMem)
    have hlastLt := hlinked.lt_length last hlastMem
    have htailLast : chain.tail = last := by rw [htail, List.getLast?_concat, Option.getD_some]
    have hheadNe : chain.head ≠ null := by
      rw [hhead, head?_getD_append]
      cases init with
      | nil => exact hlastNull
      | cons first init => exact fun heq => hnullMem (heq ▸ List.mem_cons_self)
    rw [if_neg hheadNe, htailLast, if_neg (by omega)]
    refine ⟨_, rfl, ⟨?_, ?_, ?_, hnodupAfter, hnullAfter⟩, ?_, fun other hother => ?_⟩
    · dsimp only
      rw [hhead, head?_getD_append, head?_getD_append, head?_getD_append]
      cases init with
      | nil => rfl
      | cons first init => rfl
    · rw [List.getLast?_concat, Option.getD_some]
    · rw [linked_append]
      refine ⟨(linked_set hnew).mpr (hlinked.set_last hnodup), ?_, trivial⟩
      exact List.getElem?_set_self (by rwa [List.length_set])
    · dsimp only
      rw [List.length_set, List.length_set]
    · have hne : slot ≠ other := fun heq => hother (by simp [heq])
      have hne' : last ≠ other := fun heq => hother (by simp [heq])
      dsimp only
      rw [List.getElem?_set_ne hne, List.getElem?_set_ne hne']

end LinkedSlots
