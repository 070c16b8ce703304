import Wee.Lib.Exec
import Mathlib.Data.Nat.ModEq

/-! # The handle table (`base/table.c`)

A table hands out 32-bit handles for the data stored in it. The slot of a handle is
`id & (cap - 1)`, the counter `last` runs through the handles, and the slot array doubles when it is
three quarters full. The data are of an arbitrary type; a `NULL` pointer is `none`. -/

namespace Wee

variable {α : Type}

/-- `struct slot`; a free slot has `id = 0`. -/
structure Slot (α : Type) where
  /-- The handle stored here. -/
  id : Nat
  /-- The data. -/
  ud : Option α
  deriving DecidableEq, Repr

/-- A zeroed slot. -/
def emptySlot : Slot α := ⟨0, none⟩

/-- `struct table`. -/
structure Table (α : Type) where
  /-- The last handle tried, an `unsigned int`. -/
  last : Nat
  /-- Number of slots. -/
  cap : Nat
  /-- Number of handles stored. -/
  sz : Nat
  /-- The slot array. -/
  slots : List (Slot α)
  deriving DecidableEq, Repr

/-- `hash`: the slot index of a handle. -/
def tableHash (t : Table α) (id : Nat) : Nat := id &&& (t.cap - 1)

/-- The slot at an index. -/
def tableSlot (t : Table α) (i : Nat) : Slot α := t.slots.getD i emptySlot

/-- `INIT_SZ`. -/
def initSz : Nat := 16

/-- `table_create`. -/
def tableCreate : Table α :=
  { last := 0, cap := initSz, sz := 0, slots := List.replicate initSz emptySlot }

/-- `table_expand`: twice as many slots, the old ones copied to the same indices. `alloc` is whether
`calloc` succeeds; a capacity that is no longer a positive `int` cannot be allocated. -/
def tableExpand (alloc : Bool) (t : Table α) : Option (Table α) :=
  if alloc ∧ t.cap * 2 < 2 ^ 31 then
    some { t with cap := t.cap * 2, slots := t.slots ++ List.replicate t.cap emptySlot }
  else none

/-- `id = ++t->last`, once more when the 32-bit counter comes to `0`. -/
def nextHandle (last : Nat) : Nat :=
  if (last + 1) % 2 ^ 32 = 0 then 1 else (last + 1) % 2 ^ 32

/-- The `for (;;)` loop of `table_set`: try handles until one has a free slot. The fuel bounds the
number of handles tried. -/
def tableSetLoop (ud : α) : Nat → Table α → Exec (Nat × Table α)
  | 0, _ => .error .outOfFuel
  | fuel + 1, t =>
    let id := nextHandle t.last
    let i := tableHash t id
    -- an occupied slot is skipped, whatever handle is in it
    if (tableSlot t i).id ≠ 0 then tableSetLoop ud fuel { t with last := id }
    else .ok (id, { t with last := id, sz := t.sz + 1, slots := t.slots.set i ⟨id, some ud⟩ })

/-- The expansion check of `table_set`: `t->sz >= t->cap * 0.75`. -/
def needsExpand (t : Table α) : Prop := 3 * t.cap ≤ 4 * t.sz

instance instDecidableNeedsExpand (t : Table α) : Decidable (needsExpand t) :=
  inferInstanceAs (Decidable (_ ≤ _))

/-- `table_set`. The loop gets fuel for `2 * cap` handles. -/
def tableSet (alloc : Bool) (t : Table α) : Option α → Exec (Nat × Table α)
  | none => return (0, t)
  | some ud =>
    if needsExpand t then
      match tableExpand alloc t with
      | none => return (0, t)
      | some t => tableSetLoop ud (2 * t.cap) t
    else tableSetLoop ud (2 * t.cap) t

/-- `table_get`. -/
def tableGet (t : Table α) (id : Nat) : Option α :=
  if id = 0 ∨ t.sz = 0 then none
  else if (tableSlot t (tableHash t id)).id ≠ id then none
  else (tableSlot t (tableHash t id)).ud

/-- `table_del`. -/
def tableDel (t : Table α) (id : Nat) : Option α × Table α :=
  if id = 0 ∨ t.sz = 0 then (none, t)
  else if (tableSlot t (tableHash t id)).id ≠ id then (none, t)
  else ((tableSlot t (tableHash t id)).ud,
    { t with sz := t.sz - 1, slots := t.slots.set (tableHash t id) emptySlot })

/-- `table_size`. -/
def tableSize (t : Table α) : Nat := t.sz

/-- The loop of `table_list` over the slots, with room for `room` more handles. -/
def tableListLoop : List (Slot α) → Nat → List Nat
  | [], _ => []
  | _ :: _, 0 => []
  | s :: ss, room + 1 =>
    if s.id = 0 then tableListLoop ss (room + 1) else s.id :: tableListLoop ss room

/-- `table_list`: the handles stored in `ids`, which has room for `sz`. -/
def tableList (t : Table α) (sz : Nat) : List Nat := tableListLoop t.slots sz

end Wee
