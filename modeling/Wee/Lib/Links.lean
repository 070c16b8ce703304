import Mathlib.Data.List.Chain
import Mathlib.Data.List.Nodup
import Mathlib.Logic.Function.Basic
import Mathlib.Tactic.Common

/-! # Circular lists with links both ways

`Links` are the two pointers of every node. `Circle L h l` says that from the anchor `h` the links
lead through the nodes `l` and back to `h`, forwards and backwards. The rules say when a change of
the links puts a node into the circle or takes one out; the links of nodes outside do not matter. -/

namespace Wee

universe u

/-- The links of the nodes, `none` for a null pointer. -/
structure Links (ν : Type u) where
  /-- The node behind. -/
  next : ν → Option ν
  /-- The node before. -/
  prev : ν → Option ν

namespace Links

variable {ν : Type u} {L L' : Links ν} {h q x y : ν} {l a b pre suf : List ν}

/-- The links from `x` to `y` and back. -/
def Adj (L : Links ν) (x y : ν) : Prop := L.next x = some y ∧ L.prev y = some x

instance [DecidableEq ν] (L : Links ν) (x y : ν) : Decidable (L.Adj x y) :=
  inferInstanceAs (Decidable (L.next x = some y ∧ L.prev y = some x))

/-- The links lead around from `h` through `l`, and no node comes twice. -/
structure Circle (L : Links ν) (h : ν) (l : List ν) : Prop where
  /-- The links. -/
  chain : (h :: (l ++ [h])).IsChain L.Adj
  /-- The nodes are different ones. -/
  nodup : (h :: l).Nodup

section Updates

variable [DecidableEq ν]

/-- `q->next = o`. -/
def setNext (L : Links ν) (q : ν) (o : Option ν) : Links ν :=
  { L with next := Function.update L.next q o }

/-- `q->prev = o`. -/
def setPrev (L : Links ν) (q : ν) (o : Option ν) : Links ν :=
  { L with prev := Function.update L.prev q o }

variable {o : Option ν}

@[simp] theorem setNext_next_self : (L.setNext q o).next q = o := by
  unfold setNext
  exact Function.update_self q o L.next

theorem setNext_next_of_ne (hne : x ≠ q) : (L.setNext q o).next x = L.next x := by
  unfold setNext
  exact Function.update_of_ne hne o L.next

@[simp] theorem setNext_prev : (L.setNext q o).prev = L.prev := rfl

@[simp] theorem setPrev_prev_self : (L.setPrev q o).prev q = o := by
  unfold setPrev
  exact Function.update_self q o L.prev

theorem setPrev_prev_of_ne (hne : x ≠ q) : (L.setPrev q o).prev x = L.prev x := by
  unfold setPrev
  exact Function.update_of_ne hne o L.prev

@[simp] theorem setPrev_next : (L.setPrev q o).next = L.next := rfl

end Updates

/-- **Frame rule**: a chain only depends on the links inside it. -/
theorem isChain_frame (hchain : l.IsChain L.Adj) (hnext : ∀ z ∈ l.dropLast, L'.next z = L.next z)
    (hprev : ∀ z ∈ l.tail, L'.prev z = L.prev z) : l.IsChain L'.Adj := by
  rw [List.isChain_iff_forall_rel_of_append_cons_cons] at hchain ⊢
  intro z w l₁ l₂ heq
  have hz : z ∈ l.dropLast := by
    rw [heq, List.dropLast_append_of_ne_nil (List.cons_ne_nil z _), List.dropLast_cons_cons]
    exact List.mem_append_right l₁ List.mem_cons_self
  have hw : w ∈ l.tail := by
    rw [heq]
    cases l₁ with
    | nil => exact List.mem_cons_self
    | cons c l₁ => exact List.mem_append_right l₁ (List.mem_cons_of_mem z List.mem_cons_self)
  obtain ⟨hnext', hprev'⟩ := hchain heq
  exact ⟨(hnext z hz).trans hnext', (hprev w hw).trans hprev'⟩

/-- The circle cut between `a` and `b`, at the links from `x` to `y`. -/
theorem circle_cut_iff (hx : h :: a = pre ++ [x]) (hy : b ++ [h] = y :: suf) :
    (h :: ((a ++ b) ++ [h])).IsChain L.Adj ↔
      (h :: a).IsChain L.Adj ∧ L.Adj x y ∧ (b ++ [h]).IsChain L.Adj := by
  have heq : h :: ((a ++ b) ++ [h]) = pre ++ x :: y :: suf := by
    rw [List.append_assoc, ← List.cons_append, hx, hy, List.append_assoc, List.singleton_append]
  rw [heq, List.isChain_append_cons_cons, hx, hy]

/-- The circle opened at `q`, between `x` and `y`. -/
theorem circle_open_iff (hx : h :: a = pre ++ [x]) (hy : b ++ [h] = y :: suf) :
    (h :: ((a ++ q :: b) ++ [h])).IsChain L.Adj ↔
      (h :: a).IsChain L.Adj ∧ L.Adj x q ∧ L.Adj q y ∧ (b ++ [h]).IsChain L.Adj := by
  have hq : (q :: b) ++ [h] = q :: (b ++ [h]) := rfl
  rw [circle_cut_iff hx hq, hq, hy, List.isChain_cons_cons, ← hy]

/-- **The two arcs of a circle** do not notice a change of the links from `x` to `y`. -/
theorem arcs_frame (hnodup : (h :: (a ++ b)).Nodup) (hx : h :: a = pre ++ [x])
    (hy : b ++ [h] = y :: suf)
    (hnext : ∀ z ∈ h :: (a ++ b), z ≠ x → L'.next z = L.next z)
    (hprev : ∀ z ∈ h :: (a ++ b), z ≠ y → L'.prev z = L.prev z) :
    ((h :: a).IsChain L.Adj → (h :: a).IsChain L'.Adj)
      ∧ ((b ++ [h]).IsChain L.Adj → (b ++ [h]).IsChain L'.Adj) := by
  rw [← List.cons_append, List.nodup_append] at hnodup
  obtain ⟨hna, hnb, hdisj⟩ := hnodup
  have hxa : x ∈ h :: a := by
    rw [hx]
    exact List.mem_append_right pre List.mem_cons_self
  have hin {z : ν} (hz : z ∈ h :: a) : z ∈ h :: (a ++ b) := by
    rw [← List.cons_append]
    exact List.mem_append_left b hz
  have hin' {z : ν} (hz : z ∈ b) : z ∈ h :: (a ++ b) :=
    List.mem_cons_of_mem h (List.mem_append_right a hz)
  have hnbh : (b ++ [h]).Nodup := by
    refine List.nodup_append.mpr ⟨hnb, List.nodup_singleton h, fun z hz w hw heq => ?_⟩
    rw [List.mem_singleton.mp hw] at heq
    exact hdisj h List.mem_cons_self z hz heq.symm
  constructor
  · intro hchain
    refine isChain_frame hchain (fun z hz => ?_) (fun z hz => ?_)
    · have hmem := (List.dropLast_sublist (h :: a)).subset hz
      refine hnext z (hin hmem) ?_
      rintro rfl
      -- `x` is the last node of this arc
      rw [hx, List.dropLast_concat] at hz
      rw [hx, List.nodup_append] at hna
      exact hna.2.2 z hz z List.mem_cons_self rfl
    · have hmem : z ∈ a := hz
      refine hprev z (hin (List.mem_cons_of_mem h hmem)) ?_
      rintro rfl
      have hyb : z ∈ b ++ [h] := by
        rw [hy]
        exact List.mem_cons_self
      rcases List.mem_append.mp hyb with hzb | hzh
      · exact hdisj z (List.mem_cons_of_mem h hmem) z hzb rfl
      · rw [List.mem_singleton.mp hzh] at hmem
        exact (List.nodup_cons.mp hna).1 hmem
  · intro hchain
    refine isChain_frame hchain (fun z hz => ?_) (fun z hz => ?_)
    · rw [List.dropLast_concat] at hz
      refine hnext z (hin' hz) ?_
      rintro rfl
      exact hdisj z hxa z hz rfl
    · have hmem : z ∈ b ++ [h] := List.mem_of_mem_tail hz
      have hzy : z ≠ y := by
        rintro rfl
        -- `y` is the first node of this arc
        rw [hy] at hz hnbh
        exact (List.nodup_cons.mp hnbh).1 hz
      rcases List.mem_append.mp hmem with hzb | hzh
      · exact hprev z (hin' hzb) hzy
      · rw [List.mem_singleton.mp hzh] at hzy ⊢
        exact hprev h List.mem_cons_self hzy

/-- A node in the middle, brought to the front. -/
theorem perm_middle_anchor (h q : ν) (a b : List ν) :
    (h :: (a ++ q :: b)).Perm (q :: h :: (a ++ b)) :=
  (List.Perm.cons h List.perm_middle).trans (List.Perm.swap q h _)

/-- **A node comes into the circle** between `x` and `y`. -/
theorem Circle.insert (hc : L.Circle h (a ++ b)) (hx : h :: a = pre ++ [x]) (hy : b ++ [h] = y :: suf)
    (hq : q ∉ h :: (a ++ b)) (hxq : L'.Adj x q) (hqy : L'.Adj q y)
    (hnext : ∀ z, z ≠ x → z ≠ q → L'.next z = L.next z)
    (hprev : ∀ z, z ≠ y → z ≠ q → L'.prev z = L.prev z) : L'.Circle h (a ++ q :: b) := by
  have hne {z : ν} (hz : z ∈ h :: (a ++ b)) : z ≠ q := fun heq => hq (heq ▸ hz)
  obtain ⟨harc, harc'⟩ := arcs_frame hc.nodup hx hy (fun z hz hzx => hnext z hzx (hne hz))
    (fun z hz hzy => hprev z hzy (hne hz))
  obtain ⟨hchain, -, hchain'⟩ := (circle_cut_iff hx hy).mp hc.chain
  refine ⟨(circle_open_iff hx hy).mpr ⟨harc hchain, hxq, hqy, harc' hchain'⟩, ?_⟩
  exact (perm_middle_anchor h q a b).nodup_iff.mpr (List.nodup_cons.mpr ⟨hq, hc.nodup⟩)

/-- **A node goes out of the circle** between `x` and `y`. -/
theorem Circle.erase (hc : L.Circle h (a ++ q :: b)) (hx : h :: a = pre ++ [x])
    (hy : b ++ [h] = y :: suf) (hxy : L'.Adj x y) (hnext : ∀ z, z ≠ x → L'.next z = L.next z)
    (hprev : ∀ z, z ≠ y → L'.prev z = L.prev z) : L'.Circle h (a ++ b) := by
  have hnodup := (List.nodup_cons.mp ((perm_middle_anchor h q a b).nodup_iff.mp hc.nodup)).2
  obtain ⟨harc, harc'⟩ := arcs_frame hnodup hx hy (fun z _ => hnext z) (fun z _ => hprev z)
  obtain ⟨hchain, -, -, hchain'⟩ := (circle_open_iff hx hy).mp hc.chain
  exact ⟨(circle_cut_iff hx hy).mpr ⟨harc hchain, hxy, harc' hchain'⟩, hnodup⟩

/-- Links of nodes outside do not matter. -/
theorem Circle.frame (hc : L.Circle h l) (hnext : ∀ z ∈ h :: l, L'.next z = L.next z)
    (hprev : ∀ z ∈ h :: l, L'.prev z = L.prev z) : L'.Circle h l := by
  refine ⟨isChain_frame hc.chain (fun z hz => ?_) (fun z hz => ?_), hc.nodup⟩
  · rw [← List.cons_append, List.dropLast_concat] at hz
    exact hnext z hz
  · rcases List.mem_append.mp hz with hzl | hzh
    · exact hprev z (List.mem_cons_of_mem h hzl)
    · rw [List.mem_singleton.mp hzh]
      exact hprev h List.mem_cons_self

/-- The links from a node on determine the nodes up to the anchor. -/
theorem chain_unique {l' : List ν} {x : ν} (hl : (x :: (l ++ [h])).IsChain L.Adj)
    (hl' : (x :: (l' ++ [h])).IsChain L.Adj) (hh : h ∉ l) (hh' : h ∉ l') : l = l' := by
  induction l generalizing x l' with
  | nil =>
    cases l' with
    | nil => rfl
    | cons z l' =>
      -- the anchor would come before the end
      have hz : some h = some z :=
        (List.isChain_cons_cons.mp hl).1.1.symm.trans (List.isChain_cons_cons.mp hl').1.1
      exact absurd (Option.some.inj hz ▸ List.mem_cons_self) hh'
  | cons y l ih =>
    obtain ⟨hxy, hrest⟩ := List.isChain_cons_cons.mp hl
    cases l' with
    | nil =>
      have hy : some y = some h := hxy.1.symm.trans (List.isChain_cons_cons.mp hl').1.1
      exact absurd (Option.some.inj hy ▸ List.mem_cons_self) hh
    | cons z l' =>
      obtain ⟨hxz, hrest'⟩ := List.isChain_cons_cons.mp hl'
      obtain rfl : y = z := Option.some.inj (hxy.1.symm.trans hxz.1)
      rw [ih hrest hrest' (fun hmem => hh (List.mem_cons_of_mem y hmem))
        (fun hmem => hh' (List.mem_cons_of_mem y hmem))]

/-- **The links determine the nodes of a circle.** -/
theorem Circle.unique {l' : List ν} (hc : L.Circle h l) (hc' : L.Circle h l') : l = l' :=
  chain_unique hc.chain hc'.chain (List.nodup_cons.mp hc.nodup).1 (List.nodup_cons.mp hc'.nodup).1

/-- The last node before the anchor. -/
theorem exists_last (h : ν) (a : List ν) : ∃ pre x, h :: a = pre ++ [x] :=
  ⟨(h :: a).dropLast, (h :: a).getLast (List.cons_ne_nil h a),
    (List.dropLast_append_getLast (List.cons_ne_nil h a)).symm⟩

/-- The first node behind, or the anchor. -/
theorem exists_first (h : ν) (b : List ν) : ∃ y suf, b ++ [h] = y :: suf := by
  cases b with
  | nil => exact ⟨h, [], rfl⟩
  | cons y b => exact ⟨y, b ++ [h], rfl⟩

/-- The node behind the anchor is the first one of the circle. -/
theorem Circle.next_anchor (hc : L.Circle h (q :: l)) : L.next h = some q :=
  (List.isChain_cons_cons.mp hc.chain).1.1

/-- The anchor of an empty circle is linked to itself. -/
theorem Circle.next_anchor_nil (hc : L.Circle h []) : L.next h = some h :=
  (List.isChain_cons_cons.mp hc.chain).1.1

end Links

end Wee
