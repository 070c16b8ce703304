import Wee.Base.TableMap

/-! # `table_set` always finds a slot

After an expansion handles may sit in slots they do not hash to (`TableMap`), and an allocation may
fail; the slots are counted right all the same. So behind the expansion check of `table_set` a slot
is free, and its loop, which tries one handle after the other, comes to a free one. -/

namespace Wee

variable {α : Type}

/-- The number of occupied slots. -/
def occupied (t : Table α) : Nat := t.slots.countP (fun s => s.id ≠ 0)

/-- The expansion check of `table_set`: the table the loop runs on, or `none` for the `return 0`
when there is no memory. -/
def expandCheck (alloc : Bool) (t : Table α) : Option (Table α) :=
  if needsExpand t then tableExpand alloc t else some t

/-- The calls that change a table; `alloc` is whether an allocation succeeds. -/
inductive SlotOp (α : Type)
  /-- `table_set`. -/
  | set (alloc : Bool) (ud : Option α)
  /-- `table_del`. -/
  | del (id : Nat)

/-- One of these calls. -/
def slotStep (t : Table α) : SlotOp α → Exec (TableRet α × Table α)
  | .set alloc ud => do
    let (id, t) ← tableSet alloc t ud
    return (.handle id, t)
  | .del id => return (.data (tableDel t id).1, (tableDel t id).2)

/-- What `table_set` does on the table `t`: it gives up before the loop and leaves the table alone,
or some slot is free and the loop stores the data, within `2 * cap` rounds, in a slot that was
free. -/
def SetFinds (t : Table α) (alloc : Bool) (ud : α) : Prop :=
  match expandCheck alloc t with
  | none => tableSet alloc t (some ud) = .ok (0, t)
  | some t' =>
    occupied t' < t'.cap ∧ tableSet alloc t (some ud) = tableSetLoop ud (2 * t'.cap) t'
      ∧ Returns (tableSetLoop ud (2 * t'.cap) t') fun p =>
          p.1 ≠ 0 ∧ p.1 < 2 ^ 32 ∧ (tableSlot t' (tableHash t' p.1)).id = 0
            ∧ p.2 = storeSlot t' p.1 ud

section Slots

variable {t t' : Table α}

/-- `sz` counts the occupied slots. -/
theorem TableWf.sz_eq_occupied (h : TableWf t) : t.sz = occupied t := by
  rw [h.sz_eq, length_liveHandles, occupied]

/-- `table_set` is the check and the loop. -/
theorem tableSet_eq (alloc : Bool) (t : Table α) (ud : α) :
    tableSet alloc t (some ud) = match expandCheck alloc t with
      | none => .ok (0, t)
      | some t' => tableSetLoop ud (2 * t'.cap) t' := by
  rw [tableSet, expandCheck]
  by_cases hneed : needsExpand t
  · rw [if_pos hneed, if_pos hneed]
    cases tableExpand alloc t with
    | none => rfl
    | some t' => rfl
  · rw [if_neg hneed, if_neg hneed]

/-- **The expansion check** leaves a well-formed table with fewer handles than slots. -/
theorem TableWf.expandCheck_spec (h : TableWf t) {alloc : Bool}
    (hcheck : expandCheck alloc t = some t') : TableWf t' ∧ t'.sz < t'.cap := by
  have hge := h.cap_ge
  have hle := h.sz_le_cap
  rw [expandCheck] at hcheck
  split_ifs at hcheck with hneed
  · rw [tableExpand] at hcheck
    split_ifs at hcheck with hcan
    cases hcheck
    refine ⟨h.expanded hcan.2, ?_⟩
    dsimp only
    omega
  · cases hcheck
    rw [needsExpand] at hneed
    exact ⟨h, by omega⟩

/-- **`table_set` finds a slot** on every well-formed table. -/
theorem TableWf.setFinds (h : TableWf t) (alloc : Bool) (ud : α) : SetFinds t alloc ud := by
  rw [SetFinds, tableSet_eq]
  cases hcheck : expandCheck alloc t with
  | none => rfl
  | some t' =>
    obtain ⟨hwf, hlt⟩ := h.expandCheck_spec hcheck
    obtain ⟨i, hi, hfree⟩ := hwf.exists_free hlt
    exact ⟨hwf.sz_eq_occupied ▸ hlt, rfl, hwf.setLoop_spec ud hi hfree⟩

/-- `table_set` keeps the table well-formed. -/
theorem TableWf.set_wf (h : TableWf t) (alloc : Bool) (ud : Option α) :
    Returns (tableSet alloc t ud) fun p => TableWf p.2 := by
  cases ud with
  | none => exact returns_ok h
  | some ud =>
    have hfinds := h.setFinds alloc ud
    rw [SetFinds] at hfinds
    cases hcheck : expandCheck alloc t with
    | none =>
      rw [hcheck] at hfinds
      exact ⟨(0, t), hfinds, h⟩
    | some t' =>
      rw [hcheck] at hfinds
      obtain ⟨hwf, -⟩ := h.expandCheck_spec hcheck
      obtain ⟨-, heq, hloop⟩ := hfinds
      rw [heq]
      refine hloop.imp fun p hp => ?_
      obtain ⟨h0, hlt, hfree, hp⟩ := hp
      rw [hp]
      exact hwf.stored ud h0 hlt hfree

/-- `table_del` keeps the table well-formed. -/
theorem TableWf.del_wf (h : TableWf t) (id : Nat) : TableWf (tableDel t id).2 := by
  rw [tableDel]
  split_ifs with hnone hne
  · exact h
  · exact h
  · rw [not_or] at hnone
    rw [not_ne_iff] at hne
    exact h.cleared (by rw [hne]; exact hnone.1)

/-- **One call** keeps the table well-formed. -/
theorem slotStep_wf (h : TableWf t) (o : SlotOp α) :
    Returns (slotStep t o) fun p => TableWf p.2 := by
  cases o with
  | set alloc ud => exact (h.set_wf alloc ud).bind fun p hp => returns_ok hp
  | del id => exact returns_ok (h.del_wf id)

end Slots

/-- **`table_set` always finds a slot**: after every history of calls the capacity is a power of
two, `sz` counts the occupied slots, and the next `table_set` finds one that is free. -/
theorem table_set_finds_slot (ops : List (SlotOp α)) :
    Returns (runOps slotStep tableCreate ops) fun p =>
      (∃ k, p.2.cap = 2 ^ k) ∧ p.2.sz = occupied p.2 ∧ ∀ alloc ud, SetFinds p.2 alloc ud := by
  have hrun : Returns (runOps slotStep (tableCreate : Table α) ops) fun p => TableWf p.2 :=
    runOps_returns_calls (I := fun _ _ t => TableWf t) (fun before o after rs t heq h hpre =>
      slotStep_wf h o) tableCreate_repr.wf (admissible_true slotStep tableCreate ops)
  refine hrun.imp fun p h => ?_
  obtain ⟨k, hk, -⟩ := h.cap_pow
  exact ⟨⟨k, hk⟩, h.sz_eq_occupied, h.setFinds⟩

end Wee
