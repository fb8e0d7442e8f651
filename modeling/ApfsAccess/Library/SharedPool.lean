import Mathlib

/-!
# A pool shared by members with reserves and quotas

The free units of a pool are shared by its members.  A member may have a reserve, of which the part
that it does not hold yet is *unmet*, and a quota.  What a member may still take is the free units
less what the others' reserves need, and no more than its quota leaves.

* `Pool.Covers.take` : taking no more than that keeps all unmet reserves covered.
* `takes_run` : so it is for any number of members taking in any order, and no member gets beyond
  its quota.
-/

namespace SharedPool

/-- What a member holds, and its limits. -/
structure Member where
  allocated : ℕ
  reserve : ℕ
  quota : Option ℕ

/-- The part of the reserve that the member does not hold. -/
def Member.unmet (member : Member) : ℕ := member.reserve - member.allocated

/-- The same member with more units. -/
def Member.grow (member : Member) (count : ℕ) : Member :=
  { member with allocated := member.allocated + count }

/-- What the quota of a member leaves of a number of units. -/
def Member.within (member : Member) (count : ℕ) : ℕ :=
  match member.quota with
  | none => count
  | some quota => min count (quota - member.allocated)

/-- The free units and the members. -/
structure Pool where
  free : ℕ
  members : List Member

/-- All unmet reserves. -/
def Pool.unmet (pool : Pool) : ℕ := (pool.members.map Member.unmet).sum

/-- The unmet reserves of the others. -/
def Pool.siblings (pool : Pool) (member : Member) : ℕ := pool.unmet - member.unmet

/-- What a member may take. -/
def Pool.available (pool : Pool) (member : Member) : ℕ :=
  member.within (pool.free - pool.siblings member)

/-- The free units cover the unmet reserves. -/
def Pool.Covers (pool : Pool) : Prop := pool.unmet ≤ pool.free

/-- A member takes units. -/
def Pool.take (pool : Pool) (index count : ℕ) : Pool where
  free := pool.free - count
  members := pool.members.modify index (·.grow count)

variable {pool after : Pool} {member : Member} {index count : ℕ}

theorem Member.within_le (member : Member) (count : ℕ) : member.within count ≤ count := by
  unfold Member.within
  cases member.quota with
  | none => exact le_rfl
  | some quota => exact min_le_left _ _

theorem Member.unmet_grow (member : Member) (count : ℕ) :
    (member.grow count).unmet = member.unmet - count := by
  rw [Member.unmet, Member.unmet, Member.grow, Nat.sub_sub]

/-- **The unmet reserves of the others, one by one.** -/
theorem siblings_eq (h : pool.members[index]? = some member) :
    pool.siblings member = ((pool.members.eraseIdx index).map Member.unmet).sum := by
  obtain ⟨hlt, rfl⟩ := List.getElem?_eq_some_iff.mp h
  have hperm := (List.getElem_cons_eraseIdx_perm hlt).map Member.unmet
  rw [List.map_cons] at hperm
  rw [Pool.siblings, Pool.unmet, ← hperm.sum_eq, List.sum_cons, Nat.add_sub_cancel_left]

theorem unmet_le (h : pool.members[index]? = some member) : member.unmet ≤ pool.unmet :=
  List.single_le_sum (fun _ _ => Nat.zero_le _) _
    (List.mem_map_of_mem (List.mem_of_getElem? h))

/-- What is unmet after a member has taken units. -/
theorem unmet_take (h : pool.members[index]? = some member) (count : ℕ) :
    (pool.take index count).unmet = pool.siblings member + (member.unmet - count) := by
  obtain ⟨hlt, rfl⟩ := List.getElem?_eq_some_iff.mp h
  have hmodified : (pool.take index count).members[index]? =
      some (pool.members[index].grow count) := by
    rw [Pool.take, List.getElem?_modify_eq, h]
    rfl
  have hsiblings := siblings_eq hmodified
  rw [Pool.siblings, Pool.take, List.eraseIdx_modify_of_eq] at hsiblings
  rw [siblings_eq h, ← hsiblings, ← Member.unmet_grow]
  have hle := unmet_le hmodified
  exact (Nat.sub_add_cancel hle).symm

theorem available_le (pool : Pool) (member : Member) :
    pool.available member ≤ pool.free - pool.siblings member :=
  member.within_le _

/-- **Taking what is available keeps the unmet reserves covered.** -/
theorem Pool.Covers.take (hcovers : pool.Covers) (h : pool.members[index]? = some member)
    (hcount : count ≤ pool.available member) : (pool.take index count).Covers := by
  have havailable := hcount.trans (available_le pool member)
  have hown := unmet_le h
  have hsum : pool.siblings member + member.unmet = pool.unmet := Nat.sub_add_cancel hown
  unfold Pool.Covers at hcovers ⊢
  rw [unmet_take h]
  show pool.siblings member + (member.unmet - count) ≤ pool.free - count
  omega

/-- **No member takes more than its quota leaves.** -/
theorem allocated_grow_le {quota : ℕ} (hquota : member.quota = some quota)
    (hcount : count ≤ pool.available member) :
    (member.grow count).allocated ≤ max quota member.allocated := by
  rw [Pool.available, Member.within, hquota] at hcount
  have hleft : count ≤ quota - member.allocated := hcount.trans (min_le_right _ _)
  show member.allocated + count ≤ max quota member.allocated
  omega

/-! ## Members taking in any order -/

/-- What a member may have become: it holds more, within its quota. -/
structure Member.Grows (member grown : Member) : Prop where
  reserve : grown.reserve = member.reserve
  quota : grown.quota = member.quota
  allocated_le : member.allocated ≤ grown.allocated
  within : ∀ quota, member.quota = some quota → grown.allocated ≤ max quota member.allocated

theorem Member.Grows.refl (member : Member) : member.Grows member :=
  ⟨rfl, rfl, le_rfl, fun _ _ => le_max_right _ _⟩

theorem Member.Grows.trans {grown later : Member} (h : member.Grows grown)
    (h' : grown.Grows later) : member.Grows later where
  reserve := h'.reserve.trans h.reserve
  quota := h'.quota.trans h.quota
  allocated_le := h.allocated_le.trans h'.allocated_le
  within := by
    intro quota hquota
    have hfirst := h.within quota hquota
    have hsecond := h'.within quota (h.quota.trans hquota)
    omega

/-- Every member of a pool has become one of the other, in its place. -/
def Pool.Grows (pool after : Pool) : Prop :=
  ∀ (index : ℕ) (member : Member), pool.members[index]? = some member →
    ∃ grown, after.members[index]? = some grown ∧ member.Grows grown

/-- A member takes what is available to it. -/
def Pool.Takes (pool after : Pool) : Prop :=
  ∃ index member count, pool.members[index]? = some member ∧ count ≤ pool.available member ∧
    after = pool.take index count

theorem Pool.Takes.covers (h : pool.Takes after) (hcovers : pool.Covers) : after.Covers := by
  obtain ⟨index, member, count, hmember, hcount, rfl⟩ := h
  exact hcovers.take hmember hcount

theorem Pool.Takes.grows (h : pool.Takes after) : pool.Grows after := by
  obtain ⟨taker, member, count, hmember, hcount, rfl⟩ := h
  intro index other hother
  simp only [Pool.take, List.getElem?_modify, hother]
  split
  · rename_i hsame
    obtain rfl : member = other := Option.some.inj (hmember.symm.trans (hsame ▸ hother))
    exact ⟨_, rfl, rfl, rfl, Nat.le_add_right _ _, fun quota hquota =>
      allocated_grow_le hquota hcount⟩
  · exact ⟨_, rfl, Member.Grows.refl _⟩

/-- **Any number of members taking what is available** keep all unmet reserves covered, and every
member within its quota. -/
theorem takes_run (h : Relation.ReflTransGen Pool.Takes pool after) (hcovers : pool.Covers) :
    after.Covers ∧ pool.Grows after := by
  induction h with
  | refl => exact ⟨hcovers, fun _ member hmember => ⟨member, hmember, Member.Grows.refl member⟩⟩
  | tail _ hlast ih =>
    refine ⟨hlast.covers ih.1, fun index member hmember => ?_⟩
    obtain ⟨middle, hmiddle, hfirst⟩ := ih.2 index member hmember
    obtain ⟨grown, hgrown, hsecond⟩ := hlast.grows index middle hmiddle
    exact ⟨grown, hgrown, hfirst.trans hsecond⟩

end SharedPool
