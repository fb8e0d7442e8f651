import Mathlib

/-!
# Two trees joined by crossings

A forest is given by the parent of each node.  Some nodes of an outer part are *crossed*: who reaches
one is taken to a node of the inner part.  The crossings are one to one, they leave the outer part
only, and no node that is crossed to lies below another one.  From the root of the outer part one
then sees a tree: `up` takes each node back where it was reached from.

* `forward`, `up` : down and up across the crossings.
* `CrossedTrees.up_forward` : going down and up again.
* `CrossedTrees.path_unique` : the way to a node is unique.
-/

namespace Trees

variable {V : Type*}

/-- A forest with crossings from its outer to its inner part. -/
structure CrossedTrees (V : Type*) where
  /-- The parent of a node; a root is its own. -/
  parent : V → V
  /-- The node of the inner part that an outer node is crossed to. -/
  across : V → Option V
  /-- The node of the outer part that is crossed to an inner node. -/
  back : V → Option V
  Inner : V → Prop
  root : V
  back_eq_some_iff : ∀ {source target}, back target = some source ↔ across source = some target
  inner_parent : ∀ node, Inner (parent node) ↔ Inner node
  outer_of_across : ∀ {source target}, across source = some target → ¬ Inner source
  inner_of_across : ∀ {source target}, across source = some target → Inner target
  root_outer : ¬ Inner root
  across_root : across root = none
  /-- No ancestor of a node that is crossed to is crossed to. -/
  unnested : ∀ {target}, (back target).isSome → ∀ n, back (parent^[n + 1] target) = none

namespace CrossedTrees

variable (trees : CrossedTrees V)

/-- Down across a crossing. -/
def forward (node : V) : V := (trees.across node).getD node

/-- To the parent, from a node that is crossed to by way of the node it stands for. -/
def up (node : V) : V := trees.forward (trees.parent ((trees.back node).getD node))

/-- `child` lies below `node`. -/
def IsChild (node child : V) : Prop := trees.parent child = node ∧ child ≠ node

/-- The children chosen on a way from the root, and the node that the way ends at. -/
inductive Path : List V → V → Prop
  | root : Path [] trees.root
  | step {children : List V} {node child : V} (hpath : Path children node)
      (hchild : trees.IsChild node child) : Path (children ++ [child]) (trees.forward child)

/-- Some way leads to the node. -/
def Visible (node : V) : Prop := ∃ children, trees.Path children node

variable {trees}

theorem forward_of_across {source target : V} (h : trees.across source = some target) :
    trees.forward source = target := by
  rw [forward, h]
  rfl

theorem forward_of_none {node : V} (h : trees.across node = none) : trees.forward node = node := by
  rw [forward, h]
  rfl

/-- What is crossed to is not crossed itself. -/
theorem across_of_inner {node : V} (h : trees.Inner node) : trees.across node = none := by
  cases hnode : trees.across node with
  | none => rfl
  | some target => exact absurd h (trees.outer_of_across hnode)

/-- **Crossing once is enough.** -/
theorem forward_forward (node : V) : trees.forward (trees.forward node) = trees.forward node := by
  cases h : trees.across node with
  | none => rw [forward_of_none h, forward_of_none h]
  | some target =>
    rw [forward_of_across h, forward_of_none (across_of_inner (trees.inner_of_across h))]

/-- A node that is seen is not crossed. -/
theorem Path.forward_eq {children : List V} {node : V} (h : trees.Path children node) :
    trees.forward node = node := by
  cases h with
  | root => exact forward_of_none trees.across_root
  | step _ _ => exact forward_forward _

/-- An inner node that is seen is crossed to, or an ancestor of it is. -/
theorem Path.exists_back {children : List V} {node : V} (h : trees.Path children node)
    (hinner : trees.Inner node) : ∃ n, (trees.back (trees.parent^[n] node)).isSome := by
  induction h with
  | root => exact absurd hinner trees.root_outer
  | @step children node child hpath hchild ih =>
    cases hcross : trees.across child with
    | some target =>
      rw [forward_of_across hcross]
      refine ⟨0, ?_⟩
      rw [Function.iterate_zero_apply, trees.back_eq_some_iff.mpr hcross]
      rfl
    | none =>
      rw [forward_of_none hcross] at hinner ⊢
      obtain ⟨n, hback⟩ := ih (hchild.1 ▸ (trees.inner_parent child).mpr hinner)
      refine ⟨n + 1, ?_⟩
      rw [Function.iterate_succ_apply, hchild.1]
      exact hback

/-- A child of a node that is seen is not crossed to. -/
theorem back_of_isChild {node child : V} (hvisible : trees.Visible node)
    (hchild : trees.IsChild node child) : trees.back child = none := by
  obtain ⟨children, hpath⟩ := hvisible
  by_contra hback
  have hsome := Option.isSome_iff_ne_none.mpr hback
  obtain ⟨source, hsource⟩ := Option.isSome_iff_exists.mp hsome
  have hinner := trees.inner_of_across (trees.back_eq_some_iff.mp hsource)
  obtain ⟨n, hancestor⟩ :=
    hpath.exists_back (hchild.1 ▸ (trees.inner_parent child).mpr hinner)
  have hnone := trees.unnested hsome n
  rw [Function.iterate_succ_apply, hchild.1] at hnone
  rw [hnone] at hancestor
  exact absurd hancestor nofun

/-- **Down and up again.** -/
theorem up_forward {node child : V} (hvisible : trees.Visible node)
    (hchild : trees.IsChild node child) : trees.up (trees.forward child) = node := by
  have hstays : trees.forward node = node := hvisible.elim fun _ hpath => hpath.forward_eq
  cases hcross : trees.across child with
  | some target =>
    rw [forward_of_across hcross, up, trees.back_eq_some_iff.mpr hcross, Option.getD_some,
      hchild.1, hstays]
  | none =>
    rw [forward_of_none hcross, up, back_of_isChild hvisible hchild, Option.getD_none, hchild.1,
      hstays]

/-- Two children of a node that is seen lead to different nodes. -/
theorem forward_inj {node child other : V} (hvisible : trees.Visible node)
    (hchild : trees.IsChild node child) (hother : trees.IsChild node other)
    (h : trees.forward child = trees.forward other) : child = other := by
  have hnot : ∀ {source target}, trees.IsChild node target → trees.across source = some target →
      False := by
    intro source target htarget hcross
    have hback := back_of_isChild hvisible htarget
    rw [trees.back_eq_some_iff.mpr hcross] at hback
    exact absurd hback nofun
  cases hleft : trees.across child with
  | none =>
    cases hright : trees.across other with
    | none => rwa [forward_of_none hleft, forward_of_none hright] at h
    | some target =>
      rw [forward_of_none hleft, forward_of_across hright] at h
      exact (hnot (h ▸ hchild) hright).elim
  | some target =>
    cases hright : trees.across other with
    | none =>
      rw [forward_of_across hleft, forward_of_none hright] at h
      exact (hnot (h ▸ hother) hleft).elim
    | some target' =>
      rw [forward_of_across hleft, forward_of_across hright] at h
      have hback := trees.back_eq_some_iff.mpr hleft
      rw [h, trees.back_eq_some_iff.mpr hright] at hback
      exact (Option.some.inj hback).symm

/-- No step leads to the root. -/
theorem forward_ne_root {node child : V} (hroot : trees.parent trees.root = trees.root)
    (hchild : trees.IsChild node child) : trees.forward child ≠ trees.root := by
  intro h
  cases hcross : trees.across child with
  | some target =>
    rw [forward_of_across hcross] at h
    exact trees.root_outer (h ▸ trees.inner_of_across hcross)
  | none =>
    rw [forward_of_none hcross] at h
    refine hchild.2 ?_
    rw [← hchild.1, h, hroot]

/-- **The way to a node is unique.** -/
theorem path_unique (hroot : trees.parent trees.root = trees.root) {children others : List V}
    {node : V} (h : trees.Path children node) (hother : trees.Path others node) :
    children = others := by
  induction h generalizing others with
  | root =>
    generalize hend : trees.root = last at hother
    cases hother with
    | root => rfl
    | step _ hchild => exact absurd hend.symm (forward_ne_root hroot hchild)
  | @step children node child hpath hchild ih =>
    generalize hend : trees.forward child = last at hother
    cases hother with
    | root => exact absurd hend (forward_ne_root hroot hchild)
    | @step others node' child' hpath' hchild' =>
      have hup := up_forward ⟨_, hpath⟩ hchild
      rw [hend, up_forward ⟨_, hpath'⟩ hchild'] at hup
      subst hup
      rw [ih hpath', forward_inj ⟨_, hpath⟩ hchild hchild' hend]

end CrossedTrees

end Trees
