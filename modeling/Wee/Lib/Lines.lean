import Wee.Lib.Links

/-! # Lists with links both ways

`Line L s l` says that from `s` the links lead through the nodes `l` to a null pointer, and back to
one. The nodes are told by their indices: replacing the node at an index by a new one is
`List.set`. -/

namespace Wee

universe u

namespace Links

variable {ν : Type u} {L L' : Links ν} {s : Option ν} {l k : List ν} {x y : ν} {i : Nat}

/-- The links lead from `s` through `l`, and back, and no node comes twice. -/
structure Line (L : Links ν) (s : Option ν) (l : List ν) : Prop where
  /-- The first node. -/
  head : s = l[0]?
  /-- The links to the node behind. -/
  next : ∀ i x, l[i]? = some x → L.next x = l[i + 1]?
  /-- Nothing is before the first node. -/
  prev_head : ∀ x, l[0]? = some x → L.prev x = none
  /-- The links to the node before. -/
  prev : ∀ i x, l[i + 1]? = some x → L.prev x = l[i]?
  /-- The nodes are different ones. -/
  nodup : l.Nodup

/-- **The links tell the nodes**. The induction is on the index. -/
theorem Line.unique (hl : L.Line s l) (hk : L.Line s k) : l = k := by
  apply List.ext_getElem?
  intro i
  induction i with
  | zero => rw [← hl.head, hk.head]
  | succ i ih =>
    cases hx : l[i]? with
    | some x => rw [← hl.next i x hx, hk.next i x (ih ▸ hx)]
    | none =>
      have hll := List.getElem?_eq_none_iff.mp hx
      have hkl := List.getElem?_eq_none_iff.mp (ih ▸ hx)
      rw [List.getElem?_eq_none (by omega), List.getElem?_eq_none (by omega)]

/-- A node has one index. -/
theorem Line.index_eq (h : L.Line s l) {j : Nat} (hi : l[i]? = some x) (hj : l[j]? = some x) :
    i = j := by
  obtain ⟨hlt, -⟩ := List.getElem?_eq_some_iff.mp hi
  exact (List.getElem?_inj hlt h.nodup).mp (hi.trans hj.symm)

/-- The node behind is `x` only for the node at the index before. -/
theorem Line.next_eq_iff (h : L.Line s l) (hi : l[i]? = some x) {j : Nat} {z : ν}
    (hz : l[j]? = some z) : L.next z = some x ↔ j + 1 = i := by
  rw [h.next j z hz]
  constructor
  · intro hj
    exact h.index_eq hj hi
  · rintro rfl
    exact hi

/-- The node before is `x` only for the node at the index behind. -/
theorem Line.prev_eq_iff (h : L.Line s l) (hi : l[i]? = some x) {j : Nat} {z : ν}
    (hz : l[j]? = some z) : L.prev z = some x ↔ j = i + 1 := by
  cases j with
  | zero =>
    rw [h.prev_head z hz]
    simp
  | succ j =>
    rw [h.prev j z hz]
    constructor
    · intro hj
      rw [h.index_eq hj hi]
    · intro hj
      rw [Nat.succ.inj hj]
      exact hi

/-- What is linked behind a node is a node. -/
theorem Line.next_mem (h : L.Line s l) (hi : l[i]? = some x) (hy : L.next x = some y) : y ∈ l := by
  rw [h.next i x hi] at hy
  exact List.mem_of_getElem? hy

/-- What is linked before a node is a node. -/
theorem Line.prev_mem (h : L.Line s l) (hi : l[i]? = some x) (hy : L.prev x = some y) : y ∈ l := by
  cases i with
  | zero =>
    rw [h.prev_head x hi] at hy
    cases hy
  | succ i =>
    rw [h.prev i x hi] at hy
    exact List.mem_of_getElem? hy

/-- A node of the line with `y` for `x` is `y` or an old node at another index. -/
theorem Line.set_cases (h : L.Line s l) (hi : l[i]? = some x) {j : Nat} {z : ν}
    (hz : (l.set i y)[j]? = some z) :
    j = i ∧ z = y ∨ j ≠ i ∧ l[j]? = some z ∧ z ∈ l ∧ z ≠ x := by
  by_cases hj : j = i
  · obtain ⟨hlt, -⟩ := List.getElem?_eq_some_iff.mp hi
    rw [hj, List.getElem?_set_self hlt] at hz
    exact .inl ⟨hj, (Option.some.inj hz).symm⟩
  · rw [List.getElem?_set_ne (Ne.symm hj)] at hz
    refine .inr ⟨hj, hz, List.mem_of_getElem? hz, fun hzx => hj ?_⟩
    exact h.index_eq (hzx ▸ hz) hi

/-- **Replacing a node** by a new one that takes over its links, when every link to the old node is
turned to the new one. -/
theorem Line.set [DecidableEq ν] (h : L.Line s l) (hi : l[i]? = some x) (hy : y ∉ l)
    (hnext : L'.next y = L.next x) (hprev : L'.prev y = L.prev x)
    (hnexts : ∀ z ∈ l, z ≠ x → L'.next z = if L.next z = some x then some y else L.next z)
    (hprevs : ∀ z ∈ l, z ≠ x → L'.prev z = if L.prev z = some x then some y else L.prev z) :
    L'.Line (if s = some x then some y else s) (l.set i y) := by
  obtain ⟨hlt, -⟩ := List.getElem?_eq_some_iff.mp hi
  have hself : (l.set i y)[i]? = some y := List.getElem?_set_self hlt
  have hother {j : Nat} (hj : j ≠ i) : (l.set i y)[j]? = l[j]? :=
    List.getElem?_set_ne (Ne.symm hj)
  constructor
  -- the start of the line
  · by_cases h0 : 0 = i
    · subst h0
      rw [h.head, if_pos hi, hself]
    · have hne : l[0]? ≠ some x := fun hx => h0 (h.index_eq hx hi)
      rw [h.head, if_neg hne, hother h0]
  -- the links forwards
  · intro j z hz
    rcases h.set_cases hi hz with ⟨rfl, rfl⟩ | ⟨hj, hzl, hmem, hzx⟩
    · rw [hnext, h.next j x hi, hother (by omega)]
    · rw [hnexts z hmem hzx]
      by_cases hji : j + 1 = i
      · rw [if_pos ((h.next_eq_iff hi hzl).mpr hji), hji, hself]
      · rw [if_neg (mt (h.next_eq_iff hi hzl).mp hji), h.next j z hzl, hother hji]
  -- the links backwards
  · intro z hz
    rcases h.set_cases hi hz with ⟨rfl, rfl⟩ | ⟨hj, hzl, hmem, hzx⟩
    · rw [hprev, h.prev_head x hi]
    · rw [hprevs z hmem hzx, if_neg (mt (h.prev_eq_iff hi hzl).mp (by omega)), h.prev_head z hzl]
  · intro j z hz
    rcases h.set_cases hi hz with ⟨rfl, rfl⟩ | ⟨hj, hzl, hmem, hzx⟩
    · rw [hprev, h.prev j x hi, hother (by omega)]
    · rw [hprevs z hmem hzx]
      by_cases hji : j = i
      · rw [if_pos ((h.prev_eq_iff hi hzl).mpr (congrArg (· + 1) hji)), hji, hself]
      · rw [if_neg (mt (h.prev_eq_iff hi hzl).mp (by omega)), h.prev j z hzl, hother hji]
  · exact h.nodup.set hy

/-- **Frame rule**: a line only depends on the links of its nodes. -/
theorem Line.frame (h : L.Line s l) (hnext : ∀ z ∈ l, L'.next z = L.next z)
    (hprev : ∀ z ∈ l, L'.prev z = L.prev z) : L'.Line s l where
  head := h.head
  next i x hx := (hnext x (List.mem_of_getElem? hx)).trans (h.next i x hx)
  prev_head x hx := (hprev x (List.mem_of_getElem? hx)).trans (h.prev_head x hx)
  prev i x hx := (hprev x (List.mem_of_getElem? hx)).trans (h.prev i x hx)
  nodup := h.nodup

section Replace

variable [DecidableEq ν] {p o : Option ν}

/-- `if (p != NULL) p->next = o`. -/
def setNextAt (L : Links ν) (p o : Option ν) : Links ν := p.elim L fun q => L.setNext q o

/-- `if (p != NULL) p->prev = o`. -/
def setPrevAt (L : Links ν) (p o : Option ν) : Links ν := p.elim L fun q => L.setPrev q o

@[simp] theorem setNextAt_prev : (L.setNextAt p o).prev = L.prev := by
  cases p <;> rfl

@[simp] theorem setPrevAt_next : (L.setPrevAt p o).next = L.next := by
  cases p <;> rfl

theorem setNextAt_next : (L.setNextAt p o).next x = if p = some x then o else L.next x := by
  cases p with
  | none => rfl
  | some q =>
    by_cases hq : q = x
    · rw [if_pos (congrArg some hq), hq]
      exact setNext_next_self
    · rw [if_neg (mt Option.some.inj hq)]
      exact setNext_next_of_ne (Ne.symm hq)

theorem setPrevAt_prev : (L.setPrevAt p o).prev x = if p = some x then o else L.prev x := by
  cases p with
  | none => rfl
  | some q =>
    by_cases hq : q = x
    · rw [if_pos (congrArg some hq), hq]
      exact setPrev_prev_self
    · rw [if_neg (mt Option.some.inj hq)]
      exact setPrev_prev_of_ne (Ne.symm hq)

/-- `y` takes the place of `x`, whose links become null. -/
def replaceNode (L : Links ν) (x y : ν) : Links ν :=
  let L := (L.setNext y (L.next x)).setPrev y (L.prev x)
  let L := L.setPrevAt (L.next y) (some y)
  let L := L.setNextAt (L.prev y) (some y)
  (L.setNext x none).setPrev x none

/-- The links forwards. -/
theorem replaceNode_next (hnext : L.next x ≠ some y) {z : ν} (hz : z ≠ x) :
    (L.replaceNode x y).next z =
      if L.prev x = some z then some y else if z = y then L.next x else L.next z := by
  unfold replaceNode
  dsimp only
  rw [setPrev_next, setNext_next_of_ne hz, setNextAt_next, setPrevAt_prev, setPrev_prev_self,
    setPrev_next, setNext_next_self, if_neg hnext, setPrevAt_next, setPrev_next]
  by_cases hzy : z = y
  · rw [if_pos hzy, hzy, setNext_next_self]
  · rw [if_neg hzy, setNext_next_of_ne hzy]

/-- The links backwards. -/
theorem replaceNode_prev {z : ν} (hz : z ≠ x) :
    (L.replaceNode x y).prev z =
      if L.next x = some z then some y else if z = y then L.prev x else L.prev z := by
  unfold replaceNode
  dsimp only
  rw [setPrev_prev_of_ne hz, setNext_prev, setNextAt_prev, setPrevAt_prev, setPrev_next,
    setNext_next_self]
  by_cases hzy : z = y
  · rw [if_pos hzy, hzy, setPrev_prev_self]
  · rw [if_neg hzy, setPrev_prev_of_ne hzy, setNext_prev]

/-- **Replacing a node** replaces it at its index. -/
theorem Line.replaceNode (h : L.Line s l) (hi : l[i]? = some x) (hy : y ∉ l) :
    (L.replaceNode x y).Line (if s = some x then some y else s) (l.set i y) := by
  have hx : x ∈ l := List.mem_of_getElem? hi
  have hne : y ≠ x := fun heq => hy (heq ▸ hx)
  have hnext : L.next x ≠ some y := fun heq => hy (h.next_mem hi heq)
  have hprev : L.prev x ≠ some y := fun heq => hy (h.prev_mem hi heq)
  refine h.set hi hy ?_ ?_ (fun z hz hzx => ?_) (fun z hz hzx => ?_)
  · rw [replaceNode_next hnext hne, if_neg hprev, if_pos rfl]
  · rw [replaceNode_prev hne, if_neg hnext, if_pos rfl]
  · have hzy : z ≠ y := fun heq => hy (heq ▸ hz)
    obtain ⟨j, hj⟩ := List.getElem?_of_mem hz
    rw [replaceNode_next hnext hzx, if_neg hzy]
    exact if_congr ((h.prev_eq_iff hj hi).trans ((h.next_eq_iff hi hj).trans eq_comm).symm) rfl rfl
  · have hzy : z ≠ y := fun heq => hy (heq ▸ hz)
    obtain ⟨j, hj⟩ := List.getElem?_of_mem hz
    rw [replaceNode_prev hzx, if_neg hzy]
    exact if_congr ((h.next_eq_iff hj hi).trans ((h.prev_eq_iff hi hj).trans eq_comm).symm) rfl rfl

end Replace

end Links

end Wee
