import Wee.Lib.Exec
import Wee.Lib.Links

/-! # The intrusive queue (`base/queue.h`)

A `QUEUE` is a pair of pointers inside another object; a queue is a circle of them around an anchor.
The macros are sequences of assignments to `QUEUE_NEXT` and `QUEUE_PREV`. -/

namespace Wee

open Links

variable {ν : Type} [DecidableEq ν]

/-- Access through a pointer to a node. -/
def derefNode (o : Option ν) : Exec ν :=
  match o with
  | some q => .ok q
  | none => .error .outOfBounds

/-- `QUEUE_EMPTY`. -/
def queueEmpty (L : Links ν) (q : ν) : Bool := decide (L.next q = some q)

/-- `QUEUE_HEAD`. -/
def queueHead (L : Links ν) (q : ν) : Option ν := L.next q

/-- `QUEUE_INIT`. -/
def queueInit (L : Links ν) (q : ν) : Links ν := (L.setNext q (some q)).setPrev q (some q)

/-- `QUEUE_INSERT_TAIL`. -/
def queueInsertTail (L : Links ν) (h q : ν) : Exec (Links ν) := do
  let L := L.setNext q (some h)
  let L := L.setPrev q (L.prev h)
  let p ← derefNode (L.prev q)
  let L := L.setNext p (some q)
  return L.setPrev h (some q)

/-- `QUEUE_REMOVE`; the links of `q` itself stay. -/
def queueRemove (L : Links ν) (q : ν) : Exec (Links ν) := do
  let p ← derefNode (L.prev q)
  let L := L.setNext p (L.next q)
  let n ← derefNode (L.next q)
  return L.setPrev n (L.prev q)

variable {L : Links ν} {h q : ν} {l a b : List ν}

/-- `QUEUE_INIT` makes an empty queue. -/
theorem queueInit_circle (L : Links ν) (h : ν) : (queueInit L h).Circle h [] := by
  refine ⟨List.isChain_pair.mpr ⟨?_, ?_⟩, List.nodup_singleton h⟩
  · rw [queueInit, setPrev_next, setNext_next_self]
  · rw [queueInit, setPrev_prev_self]

/-- `QUEUE_INIT` of another node. -/
theorem Links.Circle.init_other (hc : L.Circle h l) (hq : q ∉ h :: l) :
    (queueInit L q).Circle h l := by
  have hne {z : ν} (hz : z ∈ h :: l) : z ≠ q := fun heq => hq (heq ▸ hz)
  refine hc.frame (fun z hz => ?_) (fun z hz => ?_)
  · rw [queueInit, setPrev_next, setNext_next_of_ne (hne hz)]
  · rw [queueInit, setPrev_prev_of_ne (hne hz), setNext_prev]

/-- **`QUEUE_EMPTY`** is true of an empty queue only. -/
theorem Links.Circle.empty_iff (hc : L.Circle h l) : queueEmpty L h = true ↔ l = [] := by
  rw [queueEmpty, decide_eq_true_iff]
  cases l with
  | nil => exact iff_of_true hc.next_anchor_nil rfl
  | cons q l =>
    rw [hc.next_anchor, Option.some.injEq]
    refine iff_of_false (fun heq => ?_) (List.cons_ne_nil q l)
    exact (List.nodup_cons.mp hc.nodup).1 (heq ▸ List.mem_cons_self)

/-- **`QUEUE_INSERT_TAIL`** appends a node that is not in the queue. -/
theorem Links.Circle.insertTail (hc : L.Circle h l) (hq : q ∉ h :: l) :
    Returns (queueInsertTail L h q) fun L' => L'.Circle h (l ++ [q]) := by
  obtain ⟨pre, x, hx⟩ := exists_last h l
  have hxmem : x ∈ h :: l := by
    rw [hx]
    exact List.mem_append_right pre List.mem_cons_self
  have hxq : x ≠ q := fun heq => hq (heq ▸ hxmem)
  have hhq : h ≠ q := fun heq => hq (heq ▸ List.mem_cons_self)
  have hc' : L.Circle h (l ++ []) := by
    rw [List.append_nil]
    exact hc
  -- the links around the anchor
  obtain ⟨-, hadj, -⟩ := (circle_cut_iff hx (show [] ++ [h] = h :: [] from rfl)).mp hc'.chain
  have hprev : L.prev h = some x := hadj.2
  have hrun : queueInsertTail L h q
      = .ok ((((L.setNext q (some h)).setPrev q (some x)).setNext x (some q)).setPrev h (some q)) := by
    rw [queueInsertTail]
    simp only [setNext_prev, hprev, setPrev_prev_self, derefNode, exec_ok_bind, exec_pure]
  refine ⟨_, hrun, hc'.insert hx (show [] ++ [h] = h :: [] from rfl) ?_ ?_ ?_ ?_ ?_⟩
  · rw [List.append_nil]
    exact hq
  · constructor
    · rw [setPrev_next, setNext_next_self]
    · rw [setPrev_prev_of_ne hhq.symm, setNext_prev, setPrev_prev_self]
  · constructor
    · rw [setPrev_next, setNext_next_of_ne hxq.symm, setPrev_next, setNext_next_self]
    · rw [setPrev_prev_self]
  · intro z hzx hzq
    rw [setPrev_next, setNext_next_of_ne hzx, setPrev_next, setNext_next_of_ne hzq]
  · intro z hzh hzq
    rw [setPrev_prev_of_ne hzh, setNext_prev, setPrev_prev_of_ne hzq, setNext_prev]

/-- **`QUEUE_REMOVE`** takes out a node of the queue. -/
theorem Links.Circle.remove (hc : L.Circle h (a ++ q :: b)) :
    Returns (queueRemove L q) fun L' => L'.Circle h (a ++ b) := by
  obtain ⟨pre, x, hx⟩ := exists_last h a
  obtain ⟨y, suf, hy⟩ := exists_first h b
  obtain ⟨-, hxq, hqy, -⟩ := (circle_open_iff hx hy).mp hc.chain
  have hne : q ≠ x := by
    rintro rfl
    have hnodup := (perm_middle_anchor h q a b).nodup_iff.mp hc.nodup
    refine (List.nodup_cons.mp hnodup).1 ?_
    rw [← List.cons_append, hx]
    exact List.mem_append_left b (List.mem_append_right pre List.mem_cons_self)
  have hnext : (L.setNext x (L.next q)).next q = some y :=
    (setNext_next_of_ne hne).trans hqy.1
  have hrun : queueRemove L q = .ok ((L.setNext x (L.next q)).setPrev y (some x)) := by
    rw [queueRemove]
    simp only [hxq.2, derefNode, exec_ok_bind, hnext, setNext_prev, exec_pure]
  refine ⟨_, hrun, hc.erase hx hy ?_ ?_ ?_⟩
  · constructor
    · rw [setPrev_next, setNext_next_self, hqy.1]
    · rw [setPrev_prev_self]
  · intro z hzx
    rw [setPrev_next, setNext_next_of_ne hzx]
  · intro z hzy
    rw [setPrev_prev_of_ne hzy, setNext_prev]

end Wee
