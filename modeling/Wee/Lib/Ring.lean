import Wee.Lib.Exec
import Mathlib.Data.Nat.ModEq

/-! # Circular arrays

An array is the list of its cells; loads and stores outside it fault. `RingHolds a head l` says that
the cells of `a` from `head` on, read around the end of the array, are the elements of `l`. The
lemmas say what storing behind the last element, dropping the first one and copying the cells in
order do to `l`. -/

namespace Wee

variable {α : Type}

/-! ### Cells -/

/-- Load the cell `i` of the array `a`. -/
def cellLoad (a : List α) (i : Nat) : Exec α :=
  match a[i]? with
  | some x => .ok x
  | none => .error .outOfBounds

/-- Store `x` in the cell `i` of the array `a`. -/
def cellStore (a : List α) (i : Nat) (x : α) : Exec (List α) :=
  if i < a.length then .ok (a.set i x) else .error .outOfBounds

/-- A load of a cell that is there. -/
theorem cellLoad_of_some {a : List α} {i : Nat} {x : α} (h : a[i]? = some x) :
    cellLoad a i = .ok x := by
  rw [cellLoad, h]

/-- A store inside the array. -/
theorem cellStore_of_lt {a : List α} {i : Nat} (h : i < a.length) (x : α) :
    cellStore a i x = .ok (a.set i x) := by
  rw [cellStore, if_pos h]

/-! ### Indices -/

/-- The index behind `i` in an array of `cap` cells. -/
def wrapSucc (cap i : Nat) : Nat := if cap ≤ i + 1 then 0 else i + 1

/-- Going on by one is going on by one modulo the size of the array. -/
theorem wrapSucc_mod {cap : Nat} (hcap : 0 < cap) (x : Nat) :
    wrapSucc cap (x % cap) = (x + 1) % cap := by
  have hlt := Nat.mod_lt x hcap
  rw [← Nat.mod_add_mod x cap 1]
  unfold wrapSucc
  split
  · have hend : x % cap + 1 = cap := by omega
    rw [hend, Nat.mod_self]
  · exact (Nat.mod_eq_of_lt (by omega)).symm

/-- Two positions less than a round apart have different cells. -/
theorem ringIndex_ne {cap head i j : Nat} (hij : i < j) (hj : j < cap) :
    (head + i) % cap ≠ (head + j) % cap := by
  intro h
  have hmod : i % cap = j % cap := Nat.ModEq.add_left_cancel' head h
  rw [Nat.mod_eq_of_lt (by omega), Nat.mod_eq_of_lt hj] at hmod
  omega

/-- A whole round comes back to the start. -/
theorem ringIndex_eq_head {cap head n : Nat} (hhead : head < cap) (hn : n ≤ cap) :
    (head + n) % cap = head ↔ n = 0 ∨ n = cap := by
  constructor
  · intro h
    rcases Nat.lt_or_ge (head + n) cap with hlt | hge
    · rw [Nat.mod_eq_of_lt hlt] at h
      omega
    · rw [Nat.mod_eq_sub_mod hge, Nat.mod_eq_of_lt (by omega)] at h
      omega
  · rintro (rfl | rfl)
    · exact Nat.mod_eq_of_lt hhead
    · rw [Nat.add_mod_right, Nat.mod_eq_of_lt hhead]

/-! ### Contents -/

/-- The cells of `a` from `head` on are the elements of `l`. -/
def RingHolds (a : List α) (head : Nat) (l : List α) : Prop :=
  ∀ i (h : i < l.length), a[(head + i) % a.length]? = some l[i]

/-- An empty ring. -/
theorem ringHolds_nil (a : List α) (head : Nat) : RingHolds a head [] := by
  intro i h
  cases h

/-- The first element is in the cell `head`. -/
theorem RingHolds.head {a : List α} {head : Nat} {x : α} {l : List α}
    (h : RingHolds a head (x :: l)) (hhead : head < a.length) : a[head]? = some x := by
  have hfirst := h 0 (Nat.succ_pos _)
  rwa [Nat.add_zero, Nat.mod_eq_of_lt hhead] at hfirst

/-- Without the first element the ring starts one cell further. -/
theorem RingHolds.tail {a : List α} {head : Nat} {x : α} {l : List α}
    (h : RingHolds a head (x :: l)) : RingHolds a ((head + 1) % a.length) l := by
  intro i hi
  have hnext := h (i + 1) (Nat.succ_lt_succ hi)
  rw [Nat.mod_add_mod, Nat.add_assoc, Nat.add_comm 1 i]
  exact hnext

/-- A store behind the last element adds it. -/
theorem RingHolds.store {a : List α} {head : Nat} {l : List α} (h : RingHolds a head l)
    (hlen : l.length < a.length) (x : α) :
    RingHolds (a.set ((head + l.length) % a.length) x) head (l ++ [x]) := by
  intro i hi
  rw [List.length_set]
  rw [List.length_append, List.length_singleton] at hi
  rcases Nat.lt_or_eq_of_le (Nat.le_of_lt_succ hi) with hlt | rfl
  · rw [List.getElem_append_left hlt, List.getElem?_set_ne (Ne.symm (ringIndex_ne hlt hlen))]
    exact h i hlt
  · rw [List.getElem_concat_length rfl, List.getElem?_set_self (Nat.mod_lt _ (by omega))]

/-- Cells copied in order to the front of another array hold the same elements. -/
theorem ringHolds_zero {a b : List α} {head : Nat} {l : List α} (h : RingHolds a head l)
    (hb : ∀ i < l.length, b[i]? = a[(head + i) % a.length]?) (hlen : l.length ≤ b.length) :
    RingHolds b 0 l := by
  intro i hi
  rw [Nat.zero_add, Nat.mod_eq_of_lt (by omega), hb i hi]
  exact h i hi

end Wee
