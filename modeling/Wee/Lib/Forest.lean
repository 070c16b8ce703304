import Mathlib.Data.Finset.Card
import Mathlib.Logic.Function.Basic
import Mathlib.Tactic.Common

/-! # Forests of live nodes

A forest is a finite set of live nodes, each with an optional parent. Nodes come as leaves, under a
live parent or as a new root, and go as leaves. This file has the two operations, the children of a
node and its descendants, and what the operations do to them. -/

namespace Wee

universe u

/-- Live nodes and their parents. -/
@[ext] structure Forest (α : Type u) where
  /-- The live nodes. -/
  nodes : Finset α
  /-- The parent of a node, if it has one. -/
  parent : α → Option α

namespace Forest

variable {α : Type u} {F : Forest α} {r p v x : α} {po : Option α}

/-- `v` is a live descendant of `r`. -/
inductive Under (F : Forest α) (r : α) : α → Prop
  /-- A child. -/
  | child {v : α} : v ∈ F.nodes → F.parent v = some r → Under F r v
  /-- A child of a descendant. -/
  | nested {p v : α} : v ∈ F.nodes → F.parent v = some p → Under F r p → Under F r v

/-- **Well-formed forests**: parents are live, and from every node the parents lead up to a root. -/
structure Wf (F : Forest α) : Prop where
  /-- The parent of a live node is live. -/
  parent_mem : ∀ v ∈ F.nodes, ∀ p, F.parent v = some p → p ∈ F.nodes
  /-- A live node is a root or a descendant of one. -/
  rooted : ∀ v ∈ F.nodes, F.parent v = none ∨ ∃ r ∈ F.nodes, F.parent r = none ∧ F.Under r v

/-- A descendant is live. -/
theorem Under.mem (h : F.Under r v) : v ∈ F.nodes := by
  cases h with
  | child hv _ => exact hv
  | nested hv _ _ => exact hv

variable [DecidableEq α]

/-- The live children of `p`. -/
def children (F : Forest α) (p : α) : Finset α := F.nodes.filter fun v => F.parent v = some p

/-- A new leaf `x` with the parent `po`. -/
def add (F : Forest α) (x : α) (po : Option α) : Forest α :=
  ⟨insert x F.nodes, Function.update F.parent x po⟩

/-- `x` is dropped. -/
def remove (F : Forest α) (x : α) : Forest α :=
  ⟨F.nodes.erase x, Function.update F.parent x none⟩

theorem mem_children : v ∈ F.children p ↔ v ∈ F.nodes ∧ F.parent v = some p := by
  rw [children, Finset.mem_filter]

/-- A node with a descendant has a child. -/
theorem Under.children_nonempty (h : F.Under r v) : (F.children r).Nonempty := by
  induction h with
  | child hv hp => exact ⟨_, mem_children.mpr ⟨hv, hp⟩⟩
  | nested _ _ _ ih => exact ih

/-- **Descendants begin with a child.** -/
theorem exists_under_iff : (∃ v, F.Under r v) ↔ (F.children r).Nonempty := by
  constructor
  · rintro ⟨v, h⟩
    exact h.children_nonempty
  · rintro ⟨v, h⟩
    obtain ⟨hv, hp⟩ := mem_children.mp h
    exact ⟨v, .child hv hp⟩

/-- What is not live has no children. -/
theorem Wf.children_eq_empty (h : F.Wf) (hx : x ∉ F.nodes) : F.children x = ∅ := by
  refine Finset.eq_empty_of_forall_notMem fun v hv => ?_
  obtain ⟨hmem, hp⟩ := mem_children.mp hv
  exact hx (h.parent_mem v hmem x hp)

/-! ### A new leaf -/

/-- The parents of the other nodes stay. -/
theorem parent_add_of_ne (h : v ≠ x) : (F.add x po).parent v = F.parent v := by
  unfold add
  exact Function.update_of_ne h po F.parent

/-- The parent of the new leaf. -/
theorem parent_add_self : (F.add x po).parent x = po := by
  unfold add
  exact Function.update_self x po F.parent

/-- A new leaf is a child of its parent. -/
theorem children_add (hx : x ∉ F.nodes) (p : α) :
    (F.add x po).children p = if po = some p then insert x (F.children p) else F.children p := by
  ext v
  by_cases hv : v = x
  · subst hv
    have hnot : v ∉ F.children p := fun h => hx (mem_children.mp h).1
    rw [mem_children, add]
    simp only [Finset.mem_insert_self, Function.update_self, true_and]
    split_ifs with hpo
    · exact iff_of_true hpo (Finset.mem_insert_self v _)
    · exact iff_of_false hpo hnot
  · rw [mem_children, parent_add_of_ne hv, add, Finset.mem_insert, or_iff_right hv]
    split_ifs with hpo
    · rw [Finset.mem_insert, or_iff_right hv, mem_children]
    · rw [mem_children]

/-- The number of children behind a new leaf. -/
theorem card_children_add (hx : x ∉ F.nodes) (p : α) :
    ((F.add x po).children p).card = (F.children p).card + if po = some p then 1 else 0 := by
  rw [children_add hx]
  split_ifs with hpo
  · exact Finset.card_insert_of_notMem fun h => hx (mem_children.mp h).1
  · rfl

/-- Descendants stay descendants. -/
theorem Under.add (h : F.Under r v) (hx : x ∉ F.nodes) : (F.add x po).Under r v := by
  have hstay {w : α} (hw : w ∈ F.nodes) :
      w ∈ (F.add x po).nodes ∧ (F.add x po).parent w = F.parent w :=
    ⟨Finset.mem_insert_of_mem hw, parent_add_of_ne fun heq => hx (heq ▸ hw)⟩
  induction h with
  | child hv hp =>
    obtain ⟨hv', hp'⟩ := hstay hv
    exact .child hv' (hp'.trans hp)
  | nested hv hp _ ih =>
    obtain ⟨hv', hp'⟩ := hstay hv
    exact .nested hv' (hp'.trans hp) ih

/-- **A new leaf keeps the forest well formed.** -/
theorem Wf.add (h : F.Wf) (hx : x ∉ F.nodes) (hpo : ∀ p, po = some p → p ∈ F.nodes) :
    (F.add x po).Wf := by
  have hne {w : α} (hw : w ∈ F.nodes) : w ≠ x := fun heq => hx (heq ▸ hw)
  have hmem : x ∈ (F.add x po).nodes := Finset.mem_insert_self x _
  constructor
  · intro v hv p hp
    rcases Finset.mem_insert.mp hv with rfl | hold
    · exact Finset.mem_insert_of_mem (hpo p (parent_add_self.symm.trans hp))
    · rw [parent_add_of_ne (hne hold)] at hp
      exact Finset.mem_insert_of_mem (h.parent_mem v hold p hp)
  · -- an old root stays the root of what is below it
    have hroot {v r : α} (hr : r ∈ F.nodes) (hnone : F.parent r = none)
        (hunder : (F.add x po).Under r v) :
        ∃ r ∈ (F.add x po).nodes, (F.add x po).parent r = none ∧ (F.add x po).Under r v :=
      ⟨r, Finset.mem_insert_of_mem hr, (parent_add_of_ne (hne hr)).trans hnone, hunder⟩
    intro v hv
    rcases Finset.mem_insert.mp hv with rfl | hold
    · cases po with
      | none => exact .inl parent_add_self
      | some p =>
        right
        have hp := hpo p rfl
        rcases h.rooted p hp with hnone | ⟨r, hr, hnone, hunder⟩
        · exact hroot hp hnone (.child hmem parent_add_self)
        · exact hroot hr hnone (.nested hmem parent_add_self (hunder.add hx))
    · rw [parent_add_of_ne (hne hold)]
      rcases h.rooted v hold with hnone | ⟨r, hr, hnone, hunder⟩
      · exact .inl hnone
      · exact .inr (hroot hr hnone (hunder.add hx))

/-! ### A leaf goes -/

/-- The parents of the other nodes stay. -/
theorem parent_remove_of_ne (h : v ≠ x) : (F.remove x).parent v = F.parent v := by
  unfold remove
  exact Function.update_of_ne h none F.parent

/-- A dropped node is no child. -/
theorem children_remove (p : α) : (F.remove x).children p = (F.children p).erase x := by
  ext v
  rw [mem_children, Finset.mem_erase, mem_children, remove, Finset.mem_erase]
  by_cases hv : v = x
  · exact iff_of_false (fun h => h.1.1 hv) fun h => h.1 hv
  · simp only [ne_eq, hv, not_false_eq_true, true_and, Function.update_of_ne]

/-- The number of children behind a drop. -/
theorem card_children_remove (hx : x ∈ F.nodes) (p : α) :
    ((F.remove x).children p).card = (F.children p).card - if F.parent x = some p then 1 else 0 := by
  rw [children_remove]
  split_ifs with hp
  · exact Finset.card_erase_of_mem (mem_children.mpr ⟨hx, hp⟩)
  · rw [Finset.erase_eq_of_notMem fun h => hp (mem_children.mp h).2, Nat.sub_zero]

/-- A leaf is nobody's parent. -/
theorem parent_ne_of_leaf (hleaf : F.children x = ∅) (hv : v ∈ F.nodes) (hp : F.parent v = some p) :
    p ≠ x := by
  rintro rfl
  have hmem : v ∈ F.children p := mem_children.mpr ⟨hv, hp⟩
  rw [hleaf] at hmem
  exact Finset.notMem_empty v hmem

/-- Above another descendant than a dropped leaf nothing changes. -/
theorem Under.remove (h : F.Under r v) (hleaf : F.children x = ∅) (hv : v ≠ x) :
    (F.remove x).Under r v := by
  induction h with
  | child hw hp =>
    exact .child (Finset.mem_erase.mpr ⟨hv, hw⟩) ((parent_remove_of_ne hv).trans hp)
  | nested hw hp _ ih =>
    exact .nested (Finset.mem_erase.mpr ⟨hv, hw⟩) ((parent_remove_of_ne hv).trans hp)
      (ih (parent_ne_of_leaf hleaf hw hp))

/-- **Dropping a leaf keeps the forest well formed.** -/
theorem Wf.remove (h : F.Wf) (hleaf : F.children x = ∅) : (F.remove x).Wf := by
  constructor
  · intro v hv p hp
    obtain ⟨hne, hmem⟩ := Finset.mem_erase.mp hv
    rw [parent_remove_of_ne hne] at hp
    exact Finset.mem_erase.mpr ⟨parent_ne_of_leaf hleaf hmem hp, h.parent_mem v hmem p hp⟩
  · intro v hv
    obtain ⟨hne, hmem⟩ := Finset.mem_erase.mp hv
    rw [parent_remove_of_ne hne]
    rcases h.rooted v hmem with hnone | ⟨r, hr, hnone, hunder⟩
    · exact .inl hnone
    · have hrx : r ≠ x := by
        rintro rfl
        have hmem := hunder.children_nonempty
        rw [hleaf] at hmem
        exact Finset.not_nonempty_empty hmem
      exact .inr ⟨r, Finset.mem_erase.mpr ⟨hrx, hr⟩, (parent_remove_of_ne hrx).trans hnone,
        hunder.remove hleaf hne⟩

end Forest

end Wee
