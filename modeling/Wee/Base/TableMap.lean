import Wee.Base.Table
import Wee.Lib.Refine
import Mathlib.Data.Finmap
import Mathlib.Data.Nat.Bitwise
import Mathlib.Tactic.Common

/-! # The handle table and finite maps

`TableWf` holds of every state the table reaches: the capacity is a power of two, `sz` counts the
occupied slots, and the counter is a 32-bit value. `TableAligned` says that every stored handle sits
in the slot its hash names; on an aligned table the slots are a finite map, `table_set` picks a
handle outside it, and all calls act as the map operations do.

`table_expand` copies the slots to the same indices without hashing the handles again, so an aligned
table stays aligned only if no stored handle has the new hash bit set (`ExpandKeeps`). -/

namespace Wee

variable {α : Type}

/-- The handles in the occupied slots, in slot order. -/
def liveHandles (t : Table α) : List Nat := (t.slots.map Slot.id).filter (· ≠ 0)

/-- **Well-formed tables**. -/
structure TableWf (t : Table α) : Prop where
  /-- The capacity is a power of two that fits an `int`. -/
  cap_pow : ∃ k, t.cap = 2 ^ k ∧ 4 ≤ k ∧ k ≤ 30
  /-- There are `cap` slots. -/
  length_slots : t.slots.length = t.cap
  /-- `sz` is the number of occupied slots. -/
  sz_eq : t.sz = (liveHandles t).length
  /-- The counter is an `unsigned int`. -/
  last_lt : t.last < 2 ^ 32

/-- **Aligned tables**: an occupied slot holds a 32-bit handle that hashes to it, with data. -/
def TableAligned (t : Table α) : Prop :=
  ∀ i, (tableSlot t i).id ≠ 0 →
    tableHash t (tableSlot t i).id = i ∧ (tableSlot t i).id < 2 ^ 32 ∧ (tableSlot t i).ud.isSome

/-! ### Slots and hashes -/

section Slots

variable {t : Table α}

/-- The hash is the remainder modulo the capacity. -/
theorem TableWf.hash_eq (h : TableWf t) (id : Nat) : tableHash t id = id % t.cap := by
  obtain ⟨k, hk, -⟩ := h.cap_pow
  rw [tableHash, hk, Nat.and_two_pow_sub_one_eq_mod]

/-- The capacity is at least 16. -/
theorem TableWf.cap_ge (h : TableWf t) : 16 ≤ t.cap := by
  obtain ⟨k, hk, h4, -⟩ := h.cap_pow
  rw [hk]
  exact (Nat.pow_le_pow_right (by decide) h4 : 2 ^ 4 ≤ 2 ^ k)

/-- The capacity is at most `2 ^ 30`. -/
theorem TableWf.cap_le (h : TableWf t) : t.cap ≤ 2 ^ 30 := by
  obtain ⟨k, hk, -, h30⟩ := h.cap_pow
  rw [hk]
  exact Nat.pow_le_pow_right (by decide) h30

/-- A hash is a slot index. -/
theorem TableWf.hash_lt (h : TableWf t) (id : Nat) : tableHash t id < t.cap := by
  have := h.cap_ge
  rw [h.hash_eq]
  exact Nat.mod_lt _ (by omega)

/-- A slot index past the array reads as free. -/
theorem tableSlot_of_length_le {i : Nat} (h : t.slots.length ≤ i) : tableSlot t i = emptySlot := by
  rw [tableSlot, List.getD_eq_default _ _ h]

/-- A slot index inside the array reads the array. -/
theorem tableSlot_of_lt {i : Nat} (h : i < t.slots.length) : tableSlot t i = t.slots[i] := by
  rw [tableSlot, List.getD_eq_getElem _ _ h]

/-- An occupied slot is inside the array. -/
theorem lt_of_occupied {i : Nat} (h : (tableSlot t i).id ≠ 0) : i < t.slots.length := by
  by_contra hge
  rw [tableSlot_of_length_le (by omega)] at h
  exact h rfl

/-- A handle is live iff some slot holds it. -/
theorem mem_liveHandles {h : Nat} :
    h ∈ liveHandles t ↔ h ≠ 0 ∧ ∃ i, (tableSlot t i).id = h := by
  rw [liveHandles, List.mem_filter, List.mem_map, decide_eq_true_iff, and_comm]
  refine and_congr_right fun hne => ⟨?_, ?_⟩
  · rintro ⟨s, hs, rfl⟩
    obtain ⟨i, hi, rfl⟩ := List.mem_iff_getElem.mp hs
    exact ⟨i, by rw [tableSlot_of_lt hi]⟩
  · rintro ⟨i, rfl⟩
    have hi := lt_of_occupied hne
    exact ⟨tableSlot t i, by rw [tableSlot_of_lt hi]; exact List.getElem_mem hi, rfl⟩

/-- The number of live handles is the number of occupied slots. -/
theorem length_liveHandles : (liveHandles t).length = t.slots.countP (fun s => s.id ≠ 0) := by
  rw [liveHandles, ← List.countP_eq_length_filter, List.countP_map]
  rfl

/-- Reading a slot after a store into slot `i`. -/
theorem tableSlot_set (t' : Table α) (j : Nat) {i : Nat} {s : Slot α} (hi : i < t.slots.length)
    (ht' : t'.slots = t.slots.set i s) :
    tableSlot t' j = if i = j then s else tableSlot t j := by
  rw [tableSlot, tableSlot, ht', List.getD_eq_getElem?_getD, List.getD_eq_getElem?_getD,
    List.getElem?_set]
  by_cases hij : i = j
  · subst hij
    simp [hi]
  · simp [hij]

end Slots

/-! ### The lookup a table represents -/

/-- The data under a handle: those of the slot it hashes to, if that slot holds the handle. -/
def tableLookup (t : Table α) (h : Nat) : Option α :=
  if h ≠ 0 ∧ (tableSlot t (tableHash t h)).id = h then (tableSlot t (tableHash t h)).ud else none

section Aligned

variable {t : Table α}

/-- On an aligned table a handle is live iff the slot it hashes to holds it. -/
theorem TableAligned.mem_live_iff (ha : TableAligned t) {h : Nat} :
    h ∈ liveHandles t ↔ h ≠ 0 ∧ (tableSlot t (tableHash t h)).id = h := by
  rw [mem_liveHandles]
  refine and_congr_right fun hne => ⟨?_, fun hs => ⟨_, hs⟩⟩
  rintro ⟨i, rfl⟩
  rw [(ha i hne).1]

/-- On an aligned table the lookup is defined exactly at the live handles. -/
theorem TableAligned.lookup_isSome_iff (ha : TableAligned t) {h : Nat} :
    (tableLookup t h).isSome ↔ h ∈ liveHandles t := by
  rw [ha.mem_live_iff, tableLookup]
  by_cases hl : h ≠ 0 ∧ (tableSlot t (tableHash t h)).id = h
  · have hocc : (tableSlot t (tableHash t h)).id ≠ 0 := by rw [hl.2]; exact hl.1
    rw [if_pos hl]
    exact ⟨fun _ => hl, fun _ => (ha _ hocc).2.2⟩
  · rw [if_neg hl]
    exact ⟨fun h => (nomatch h), fun h => absurd h hl⟩

/-- On an aligned table no handle is stored twice. -/
theorem TableAligned.nodup_live (ha : TableAligned t) : (liveHandles t).Nodup := by
  rw [liveHandles, List.Nodup, List.pairwise_filter, List.pairwise_map, List.pairwise_iff_getElem]
  intro i j hi hj hij hid _ heq
  rw [decide_eq_true_iff] at hid
  -- two slots with one handle are both the slot it hashes to
  have hsi := ha i (by rwa [tableSlot_of_lt hi])
  have hsj := ha j (by rw [tableSlot_of_lt hj, ← heq]; exact hid)
  rw [tableSlot_of_lt hi] at hsi
  rw [tableSlot_of_lt hj, ← heq] at hsj
  have : i = j := hsi.1.symm.trans hsj.1
  omega

end Aligned

/-! ### `table_set` finds a slot

The loop tries consecutive handles, so it reaches every residue modulo the capacity within `cap`
steps, plus at most one partial round when the 32-bit counter wraps and skips `0`. -/

section SetLoop

variable {t : Table α}

/-- Below the wrap the next handle is the successor. -/
theorem nextHandle_succ {last : Nat} (h : last + 1 < 2 ^ 32) : nextHandle last = last + 1 := by
  rw [nextHandle, Nat.mod_eq_of_lt h, if_neg (by omega)]

/-- At the wrap the counter skips `0`. -/
theorem nextHandle_wrap : nextHandle (2 ^ 32 - 1) = 1 := by decide

/-- The table after `id` is stored in the slot it hashes to. -/
def storeSlot (t : Table α) (id : Nat) (ud : α) : Table α :=
  { t with last := id, sz := t.sz + 1, slots := t.slots.set (tableHash t id) ⟨id, some ud⟩ }

/-- What a finished loop has done: a non-zero handle with a free slot, stored there. -/
def StoredAt (t : Table α) (ud : α) (p : Nat × Table α) : Prop :=
  p.1 ≠ 0 ∧ p.1 < 2 ^ 32 ∧ (tableSlot t (tableHash t p.1)).id = 0 ∧ p.2 = storeSlot t p.1 ud

/-- One round of the loop: it stores at the next handle, or goes on from it. -/
theorem tableSetLoop_succ (ud : α) {fuel : Nat} {h : Nat} (hn : nextHandle t.last = h) (h0 : h ≠ 0)
    (hlt : h < 2 ^ 32)
    (hrest : (tableSlot t (tableHash t h)).id ≠ 0 →
      Returns (tableSetLoop ud fuel { t with last := h }) (StoredAt t ud)) :
    Returns (tableSetLoop ud (fuel + 1) t) (StoredAt t ud) := by
  simp only [tableSetLoop, hn]
  by_cases hocc : (tableSlot t (tableHash t h)).id ≠ 0
  · rw [if_pos hocc]
    exact hrest hocc
  · rw [if_neg hocc]
    exact returns_ok ⟨h0, hlt, not_not.mp hocc, rfl⟩

/-- The loop reaches a free slot that a handle above `last`, below the wrap, hashes to. -/
theorem tableSetLoop_below (ud : α) {target fuel : Nat}
    (hlast : t.last < target) (htarget : target < 2 ^ 32)
    (hfree : (tableSlot t (tableHash t target)).id = 0) (hfuel : target - t.last ≤ fuel) :
    Returns (tableSetLoop ud fuel t) (StoredAt t ud) := by
  induction fuel generalizing t with
  | zero => omega
  | succ fuel ih =>
    refine tableSetLoop_succ ud (nextHandle_succ (by omega)) (by omega) (by omega) fun hocc => ?_
    -- the target itself is free, so an occupied next handle is below it
    have hne : t.last + 1 ≠ target := by
      rintro rfl
      exact hocc hfree
    exact ih (t := { t with last := t.last + 1 }) (by dsimp only; omega) hfree
      (by dsimp only; omega)

/-- The loop reaches a free slot that a handle past the wrap hashes to. -/
theorem tableSetLoop_wrap (ud : α) {target fuel : Nat} (hlast : t.last < 2 ^ 32)
    (hpos : 0 < target) (htarget : target < 2 ^ 32)
    (hfree : (tableSlot t (tableHash t target)).id = 0)
    (hfuel : 2 ^ 32 - 1 - t.last + target ≤ fuel) :
    Returns (tableSetLoop ud fuel t) (StoredAt t ud) := by
  induction fuel generalizing t with
  | zero => omega
  | succ fuel ih =>
    by_cases hw : t.last + 1 < 2 ^ 32
    · refine tableSetLoop_succ ud (nextHandle_succ hw) (by omega) hw fun _ => ?_
      exact ih (t := { t with last := t.last + 1 }) hw hfree (by dsimp only; omega)
    · have heq : t.last = 2 ^ 32 - 1 := by omega
      refine tableSetLoop_succ ud (by rw [heq, nextHandle_wrap]) (by omega) (by omega) fun hocc => ?_
      have hne : 1 ≠ target := by
        rintro rfl
        exact hocc hfree
      exact tableSetLoop_below ud (t := { t with last := 1 }) (by dsimp only; omega) htarget hfree
        (by dsimp only; omega)

/-- **`table_set` finds a slot**: with a free slot, `2 * cap` handles are enough. -/
theorem TableWf.setLoop_spec (h : TableWf t) (ud : α) {i : Nat} (hi : i < t.cap)
    (hfree : (tableSlot t i).id = 0) :
    Returns (tableSetLoop ud (2 * t.cap) t) (StoredAt t ud) := by
  have hlast := h.last_lt
  have hge := h.cap_ge
  have hle := h.cap_le
  -- the first handle above `last` that hashes to slot `i`
  let target := t.last + 1 + (i + t.cap - (t.last + 1) % t.cap) % t.cap
  have hmod : target % t.cap = i := by
    have hm : (t.last + 1) % t.cap < t.cap := Nat.mod_lt _ (by omega)
    have : target % t.cap = ((t.last + 1) % t.cap + (i + t.cap - (t.last + 1) % t.cap)) % t.cap := by
      simp only [target, Nat.add_mod, Nat.mod_mod]
    rw [this, Nat.add_sub_cancel' (by omega), Nat.add_mod_right, Nat.mod_eq_of_lt hi]
  have hub : target ≤ t.last + t.cap := by
    have : (i + t.cap - (t.last + 1) % t.cap) % t.cap < t.cap := Nat.mod_lt _ (by omega)
    omega
  have hlb : t.last < target := by omega
  by_cases hwrap : target < 2 ^ 32
  · exact tableSetLoop_below ud hlb hwrap (by rw [h.hash_eq, hmod]; exact hfree) (by omega)
  · -- past the wrap slot `0` is reached by the handle `cap`
    by_cases hi0 : i = 0
    · rw [hi0] at hfree
      exact tableSetLoop_wrap ud hlast (by omega : 0 < t.cap) (by omega)
        (by rw [h.hash_eq, Nat.mod_self]; exact hfree) (by omega)
    · exact tableSetLoop_wrap ud hlast (by omega : 0 < i) (by omega)
        (by rw [h.hash_eq, Nat.mod_eq_of_lt hi]; exact hfree) (by omega)

/-- A table with fewer handles than slots has a free slot. -/
theorem TableWf.exists_free (h : TableWf t) (hlt : t.sz < t.cap) :
    ∃ i, i < t.cap ∧ (tableSlot t i).id = 0 := by
  by_contra hall
  push Not at hall
  have hcount : t.slots.countP (fun s => s.id ≠ 0) = t.slots.length := by
    rw [List.countP_eq_length]
    intro s hs
    obtain ⟨i, hi, rfl⟩ := List.mem_iff_getElem.mp hs
    rw [decide_eq_true_iff, ← tableSlot_of_lt hi]
    exact hall i (by rw [← h.length_slots]; exact hi)
  have hsz := h.sz_eq
  have hlen := h.length_slots
  rw [length_liveHandles, hcount] at hsz
  omega

end SetLoop

/-! ### Stores keep the invariants -/

section Store

variable {t : Table α}

/-- A hash is inside the slot array. -/
theorem TableWf.hash_lt_length (h : TableWf t) (id : Nat) : tableHash t id < t.slots.length := by
  rw [h.length_slots]
  exact h.hash_lt id

/-- Storing a handle in a free slot keeps the table well-formed. -/
theorem TableWf.stored (h : TableWf t) {id : Nat} (ud : α) (h0 : id ≠ 0) (hlt : id < 2 ^ 32)
    (hfree : (tableSlot t (tableHash t id)).id = 0) : TableWf (storeSlot t id ud) := by
  have hi := h.hash_lt_length id
  refine ⟨h.cap_pow, by rw [storeSlot, List.length_set]; exact h.length_slots, ?_, hlt⟩
  rw [tableSlot_of_lt hi] at hfree
  rw [length_liveHandles, storeSlot, List.countP_set hi, ← length_liveHandles, ← h.sz_eq]
  simp [hfree, h0]

/-- Storing a handle in the slot it hashes to keeps the table aligned. -/
theorem TableAligned.stored (ha : TableAligned t) (h : TableWf t) {id : Nat} (ud : α)
    (hlt : id < 2 ^ 32) : TableAligned (storeSlot t id ud) := by
  intro j hj
  rw [tableSlot_set (storeSlot t id ud) j (h.hash_lt_length id) rfl] at hj ⊢
  by_cases hij : tableHash t id = j
  · rw [if_pos hij]
    exact ⟨hij, hlt, rfl⟩
  · rw [if_neg hij] at hj ⊢
    exact ha j hj

/-- Storing a handle in a free slot adds it to the lookup. -/
theorem tableLookup_stored (h : TableWf t) {id : Nat} (ud : α) (h0 : id ≠ 0)
    (hfree : (tableSlot t (tableHash t id)).id = 0) (x : Nat) :
    tableLookup (storeSlot t id ud) x = if x = id then some ud else tableLookup t x := by
  have hhash : tableHash (storeSlot t id ud) x = tableHash t x := rfl
  rw [tableLookup, hhash,
    tableSlot_set (storeSlot t id ud) (tableHash t x) (h.hash_lt_length id) rfl]
  by_cases hx : x = id
  · subst hx
    rw [if_pos rfl, if_pos rfl, if_pos ⟨h0, rfl⟩]
  · rw [if_neg hx]
    by_cases hh : tableHash t id = tableHash t x
    · -- another handle with this hash: its slot holds `id` now and was free before
      rw [if_pos hh, if_neg (by rintro ⟨-, h⟩; exact hx h.symm), tableLookup, ← hh, hfree,
        if_neg (by rintro ⟨h, h'⟩; exact h h'.symm)]
    · rw [if_neg hh, tableLookup]

/-- The table after the slot of `id` is cleared. -/
def clearSlot (t : Table α) (id : Nat) : Table α :=
  { t with sz := t.sz - 1, slots := t.slots.set (tableHash t id) emptySlot }

/-- Clearing an occupied slot keeps the table well-formed. -/
theorem TableWf.cleared (h : TableWf t) {id : Nat}
    (hocc : (tableSlot t (tableHash t id)).id ≠ 0) : TableWf (clearSlot t id) := by
  have hi := h.hash_lt_length id
  refine ⟨h.cap_pow, by rw [clearSlot, List.length_set]; exact h.length_slots, ?_, h.last_lt⟩
  rw [tableSlot_of_lt hi] at hocc
  rw [length_liveHandles, clearSlot, List.countP_set hi, ← length_liveHandles, ← h.sz_eq]
  simp [hocc, emptySlot]

/-- Clearing a slot keeps the table aligned. -/
theorem TableAligned.cleared (ha : TableAligned t) (h : TableWf t) (id : Nat) :
    TableAligned (clearSlot t id) := by
  intro j hj
  rw [tableSlot_set (clearSlot t id) j (h.hash_lt_length id) rfl] at hj ⊢
  by_cases hij : tableHash t id = j
  · rw [if_pos hij] at hj
    exact absurd rfl hj
  · rw [if_neg hij] at hj ⊢
    exact ha j hj

/-- Clearing the slot that holds `id` removes it from the lookup. -/
theorem tableLookup_cleared (h : TableWf t) {id : Nat}
    (hid : (tableSlot t (tableHash t id)).id = id) (x : Nat) :
    tableLookup (clearSlot t id) x = if x = id then none else tableLookup t x := by
  have hhash : tableHash (clearSlot t id) x = tableHash t x := rfl
  rw [tableLookup, hhash,
    tableSlot_set (clearSlot t id) (tableHash t x) (h.hash_lt_length id) rfl]
  by_cases hh : tableHash t id = tableHash t x
  · rw [if_pos hh, if_neg (by rintro ⟨h, h'⟩; exact h h'.symm)]
    by_cases hx : x = id
    · rw [if_pos hx]
    · -- the cleared slot held `id`, not `x`
      rw [if_neg hx, tableLookup, ← hh, hid, if_neg (by rintro ⟨-, h⟩; exact hx h.symm)]
  · have hx : x ≠ id := by rintro rfl; exact hh rfl
    rw [if_neg hh, if_neg hx, tableLookup]

end Store

/-! ### Expansion -/

section Expand

variable {t : Table α}

/-- The condition under which an expansion keeps every handle findable: no live handle has the new
hash bit `cap` set. -/
def ExpandKeeps (t : Table α) : Prop := ∀ h ∈ liveHandles t, h % (2 * t.cap) < t.cap

instance instDecidableExpandKeeps (t : Table α) : Decidable (ExpandKeeps t) :=
  inferInstanceAs (Decidable (∀ h ∈ liveHandles t, _))

/-- The table `table_expand` leaves when the allocation succeeds. -/
def expanded (t : Table α) : Table α :=
  { t with cap := t.cap * 2, slots := t.slots ++ List.replicate t.cap emptySlot }

/-- Every slot reads as before after an expansion. -/
theorem tableSlot_expanded (t : Table α) (i : Nat) : tableSlot (expanded t) i = tableSlot t i := by
  by_cases hi : i < t.slots.length
  · rw [tableSlot, tableSlot, expanded, List.getD_append _ _ _ _ hi]
  · rw [tableSlot_of_length_le (t := t) (by omega), tableSlot, expanded,
      List.getD_append_right _ _ _ _ (by omega)]
    simp

/-- An expansion keeps the live handles. -/
theorem liveHandles_expanded (t : Table α) : liveHandles (expanded t) = liveHandles t := by
  rw [liveHandles, liveHandles, expanded, List.map_append, List.filter_append]
  simp [emptySlot]

/-- An expansion that can be allocated keeps the table well-formed. -/
theorem TableWf.expanded (h : TableWf t) (hcap : t.cap * 2 < 2 ^ 31) : TableWf (expanded t) := by
  obtain ⟨k, hk, h4, h30⟩ := h.cap_pow
  refine ⟨⟨k + 1, ?_, by omega, ?_⟩, ?_, ?_, h.last_lt⟩
  · rw [Wee.expanded, hk, pow_succ]
  · rw [hk, ← pow_succ] at hcap
    have := (Nat.pow_lt_pow_iff_right (by decide : 1 < 2)).mp hcap
    omega
  · simp only [Wee.expanded, List.length_append, List.length_replicate, h.length_slots]
    omega
  · rw [liveHandles_expanded]
    exact h.sz_eq

/-- Under `ExpandKeeps` the hash of a live handle does not change. -/
theorem TableWf.hash_expanded (h : TableWf t) (hcap : t.cap * 2 < 2 ^ 31) {id : Nat}
    (hid : id % (2 * t.cap) < t.cap) : tableHash (Wee.expanded t) id = tableHash t id := by
  rw [(h.expanded hcap).hash_eq, h.hash_eq]
  simp only [Wee.expanded]
  rw [Nat.mul_comm t.cap 2, ← Nat.mod_mod_of_dvd id (Dvd.intro_left 2 rfl : t.cap ∣ 2 * t.cap),
    Nat.mod_eq_of_lt hid]

/-- Under `ExpandKeeps` an expansion keeps the table aligned. -/
theorem TableAligned.expanded (ha : TableAligned t) (h : TableWf t) (hcap : t.cap * 2 < 2 ^ 31)
    (hkeep : ExpandKeeps t) : TableAligned (Wee.expanded t) := by
  intro i hi
  rw [tableSlot_expanded] at hi ⊢
  have hlive : (tableSlot t i).id ∈ liveHandles t := mem_liveHandles.mpr ⟨hi, i, rfl⟩
  rw [h.hash_expanded hcap (hkeep _ hlive)]
  exact ha i hi

/-- Under `ExpandKeeps` an expansion keeps the lookup. -/
theorem tableLookup_expanded (h : TableWf t) (ha : TableAligned t) (hcap : t.cap * 2 < 2 ^ 31)
    (hkeep : ExpandKeeps t) (x : Nat) : tableLookup (expanded t) x = tableLookup t x := by
  by_cases hx : x ∈ liveHandles t
  · rw [tableLookup, tableLookup, h.hash_expanded hcap (hkeep x hx), tableSlot_expanded]
  · -- not live: neither lookup finds it
    have hx' : x ∉ liveHandles (expanded t) := by rwa [liveHandles_expanded]
    rw [← ha.lookup_isSome_iff, Option.not_isSome_iff_eq_none] at hx
    rw [← (ha.expanded h hcap hkeep).lookup_isSome_iff, Option.not_isSome_iff_eq_none] at hx'
    rw [hx, hx']

end Expand

/-! ### Runs of the interface -/

/-- The loop of `table_list` collects the live handles as far as there is room. -/
theorem tableListLoop_eq (ss : List (Slot α)) (room : Nat) :
    tableListLoop ss room = ((ss.map Slot.id).filter (· ≠ 0)).take room := by
  induction ss generalizing room with
  | nil => simp [tableListLoop]
  | cons s ss ih =>
    cases room with
    | zero => simp [tableListLoop]
    | succ room =>
      by_cases hs : s.id = 0
      · simp only [tableListLoop, hs, if_true, ih, List.map_cons]
        rw [List.filter_cons_of_neg (by simp)]
      · simp only [tableListLoop, hs, if_false, ih, List.map_cons]
        rw [List.filter_cons_of_pos (by simp [hs]), List.take_succ_cons]

/-- The calls of the table interface; the data of `set` are not `NULL`. -/
inductive TableOp (α : Type)
  /-- `table_set`. -/
  | set (ud : α)
  /-- `table_get`. -/
  | get (h : Nat)
  /-- `table_del`. -/
  | del (h : Nat)
  /-- `table_size`. -/
  | size
  /-- `table_list` with room for `room` handles. -/
  | list (room : Nat)

/-- What a call returns. -/
inductive TableRet (α : Type)
  /-- A handle. -/
  | handle (h : Nat)
  /-- Data or `NULL`. -/
  | data (ud : Option α)
  /-- A count. -/
  | num (n : Nat)
  /-- The listed handles. -/
  | handles (hs : List Nat)
  deriving DecidableEq

/-- One call of the interface, with allocations succeeding. -/
def tableStep (t : Table α) : TableOp α → Exec (TableRet α × Table α)
  | .set ud => do
    let (h, t) ← tableSet true t (some ud)
    return (.handle h, t)
  | .get h => return (.data (tableGet t h), t)
  | .del h => return (.data (tableDel t h).1, (tableDel t h).2)
  | .size => return (.num (tableSize t), t)
  | .list room => return (.handles (tableList t room), t)

/-- The allocation a call asks for can succeed: the doubled capacity is an `int`. -/
def AllocPossible (t : Table α) : TableOp α → Prop
  | .set _ => needsExpand t → t.cap * 2 < 2 ^ 31
  | _ => True

/-- A call that expands the table does so while no live handle has the new hash bit set. -/
def ExpandsAligned (t : Table α) : TableOp α → Prop
  | .set _ => needsExpand t → ExpandKeeps t
  | _ => True

instance instDecidableAllocPossible (t : Table α) : ∀ o, Decidable (AllocPossible t o)
  | .set _ => inferInstanceAs (Decidable (_ → _))
  | .get _ | .del _ | .size | .list _ => inferInstanceAs (Decidable True)

instance instDecidableExpandsAligned (t : Table α) : ∀ o, Decidable (ExpandsAligned t o)
  | .set _ => inferInstanceAs (Decidable (_ → _))
  | .get _ | .del _ | .size | .list _ => inferInstanceAs (Decidable True)

/-- **The finite map a handle table is for**: what each call does to the map from live handles to
their data, and what it returns. -/
inductive MapStep : (Finmap fun _ : Nat => α) → TableOp α → TableRet α → (Finmap fun _ : Nat => α) →
    Prop
  /-- `set` binds a non-zero handle that is not live. -/
  | set (m ud) {h} : h ≠ 0 → h ∉ m → MapStep m (.set ud) (.handle h) (m.insert h ud)
  /-- `get` returns the data bound to the handle. -/
  | get (m h) : MapStep m (.get h) (.data (m.lookup h)) m
  /-- `del` returns the data bound to the handle and removes it. -/
  | del (m h) : MapStep m (.del h) (.data (m.lookup h)) (m.erase h)
  /-- `size` counts the live handles. -/
  | size (m) : MapStep m .size (.num m.keys.card) m
  /-- `list` returns distinct live handles, all of them when there is room. -/
  | list (m) {room hs} : hs.Nodup → (∀ h ∈ hs, h ∈ m) → hs.length = min room m.keys.card →
      (m.keys.card ≤ room → ∀ h, h ∈ hs ↔ h ∈ m) → MapStep m (.list room) (.handles hs) m

/-- A table represents a map: it is well-formed and aligned, and its lookup is the map's. -/
structure TableRepr (t : Table α) (m : Finmap fun _ : Nat => α) : Prop where
  /-- The table is well-formed. -/
  wf : TableWf t
  /-- Every stored handle sits in the slot it hashes to. -/
  aligned : TableAligned t
  /-- The lookups agree. -/
  lookup_eq : ∀ h, m.lookup h = tableLookup t h

section Repr

variable {t : Table α} {m : Finmap fun _ : Nat => α}

/-- The bound handles are the live ones. -/
theorem TableRepr.mem_iff (h : TableRepr t m) {x : Nat} : x ∈ m ↔ x ∈ liveHandles t := by
  rw [← h.aligned.lookup_isSome_iff, ← h.lookup_eq, Finmap.lookup_isSome]

/-- `sz` is the number of bound handles. -/
theorem TableRepr.card_keys (h : TableRepr t m) : m.keys.card = t.sz := by
  have hkeys : m.keys = (liveHandles t).toFinset := by
    ext x
    rw [Finmap.mem_keys, h.mem_iff, List.mem_toFinset]
  rw [hkeys, List.toFinset_card_of_nodup h.aligned.nodup_live, h.wf.sz_eq]

/-- `table_get` is the map's lookup. -/
theorem TableRepr.get_eq (h : TableRepr t m) (x : Nat) : tableGet t x = m.lookup x := by
  rw [tableGet]
  by_cases hx : x = 0 ∨ t.sz = 0
  · rw [if_pos hx, eq_comm, Finmap.lookup_eq_none, h.mem_iff]
    intro hmem
    rcases hx with hx | hx
    · exact (mem_liveHandles.mp hmem).1 hx
    · rw [h.wf.sz_eq, List.length_eq_zero_iff] at hx
      rw [hx] at hmem
      exact (nomatch hmem)
  · push Not at hx
    rw [if_neg (by tauto), h.lookup_eq, tableLookup]
    by_cases hid : (tableSlot t (tableHash t x)).id = x
    · rw [if_neg (by simpa using hid), if_pos ⟨hx.1, hid⟩]
    · rw [if_pos hid, if_neg (by tauto)]

/-- `table_del` clears the slot of a live handle and does nothing otherwise. -/
theorem TableRepr.del_eq (h : TableRepr t m) (x : Nat) :
    tableDel t x = (m.lookup x, if x ∈ m then clearSlot t x else t) := by
  have hget := h.get_eq x
  rw [tableGet] at hget
  rw [tableDel]
  by_cases hx : x = 0 ∨ t.sz = 0
  · rw [if_pos hx] at hget ⊢
    rw [← hget, if_neg (Finmap.lookup_eq_none.mp hget.symm)]
  · rw [if_neg hx] at hget ⊢
    by_cases hid : (tableSlot t (tableHash t x)).id ≠ x
    · rw [if_pos hid] at hget ⊢
      rw [← hget, if_neg (Finmap.lookup_eq_none.mp hget.symm)]
    · rw [if_neg hid] at hget ⊢
      have hmem : x ∈ m := by
        rw [h.mem_iff, h.aligned.mem_live_iff]
        exact ⟨by tauto, not_not.mp hid⟩
      rw [hget, if_pos hmem, clearSlot]

/-- `table_del` removes the binding. -/
theorem TableRepr.del_spec (h : TableRepr t m) (x : Nat) :
    (tableDel t x).1 = m.lookup x ∧ TableRepr (tableDel t x).2 (m.erase x) := by
  rw [h.del_eq]
  refine ⟨rfl, ?_⟩
  dsimp only
  by_cases hmem : x ∈ m
  · rw [if_pos hmem]
    obtain ⟨h0, hid⟩ := h.aligned.mem_live_iff.mp (h.mem_iff.mp hmem)
    refine ⟨h.wf.cleared (by rw [hid]; exact h0), h.aligned.cleared h.wf x, fun y => ?_⟩
    rw [tableLookup_cleared h.wf hid, ← h.lookup_eq]
    by_cases hy : y = x
    · rw [if_pos hy, hy, Finmap.lookup_erase]
    · rw [if_neg hy, Finmap.lookup_erase_ne hy]
  · rw [if_neg hmem]
    have herase : m.erase x = m := by
      refine Finmap.ext_lookup fun y => ?_
      by_cases hy : y = x
      · rw [hy, Finmap.lookup_erase, Finmap.lookup_eq_none.mpr hmem]
      · rw [Finmap.lookup_erase_ne hy]
    rwa [herase]

/-- `table_list` returns the live handles as far as there is room. -/
theorem TableRepr.list_spec (h : TableRepr t m) (room : Nat) :
    MapStep m (.list room) (.handles (tableList t room)) m := by
  have hcard : m.keys.card = (liveHandles t).length := by rw [h.card_keys, h.wf.sz_eq]
  have hlist : tableList t room = (liveHandles t).take room := tableListLoop_eq _ _
  rw [hlist]
  refine .list m (h.aligned.nodup_live.sublist (List.take_sublist _ _)) ?_ ?_ ?_
  · intro x hx
    exact h.mem_iff.mpr (List.mem_of_mem_take hx)
  · rw [List.length_take, hcard]
  · intro hroom x
    rw [List.take_of_length_le (by omega), h.mem_iff]

/-- The loop of `table_set` on a represented map with a free slot binds a fresh handle. -/
theorem TableRepr.setLoop_spec (h : TableRepr t m) (hlt : t.sz < t.cap) (ud : α) :
    Returns (tableSetLoop ud (2 * t.cap) t) fun p =>
      p.1 ≠ 0 ∧ p.1 ∉ m ∧ TableRepr p.2 (m.insert p.1 ud) := by
  obtain ⟨i, hi, hfree⟩ := h.wf.exists_free hlt
  -- below `cap` handles there is a free slot, so the loop ends; what it stores is a fresh handle
  refine (h.wf.setLoop_spec ud hi hfree).imp ?_
  rintro ⟨id, t'⟩ ⟨h0, hid, hslot, ht'⟩
  obtain rfl : t' = storeSlot t id ud := ht'
  refine ⟨h0, ?_, ?_⟩
  · rw [h.mem_iff, h.aligned.mem_live_iff, hslot]
    rintro ⟨-, heq⟩
    exact h0 heq.symm
  · refine ⟨h.wf.stored ud h0 hid hslot, h.aligned.stored h.wf ud hid, fun x => ?_⟩
    rw [tableLookup_stored h.wf ud h0 hslot, ← h.lookup_eq]
    by_cases hx : x = id
    · rw [if_pos hx, hx, Finmap.lookup_insert]
    · rw [if_neg hx, Finmap.lookup_insert_of_ne _ hx]

/-- An aligned expansion represents the same map. -/
theorem TableRepr.expand (h : TableRepr t m) (hcap : t.cap * 2 < 2 ^ 31) (hkeep : ExpandKeeps t) :
    TableRepr (expanded t) m :=
  ⟨h.wf.expanded hcap, h.aligned.expanded h.wf hcap hkeep, fun x => by
    rw [tableLookup_expanded h.wf h.aligned hcap hkeep, h.lookup_eq]⟩

/-- A table never holds more handles than slots. -/
theorem TableWf.sz_le_cap (h : TableWf t) : t.sz ≤ t.cap := by
  rw [h.sz_eq, length_liveHandles, ← h.length_slots]
  exact List.countP_le_length

/-- `table_set` binds a fresh handle, when an expansion it makes is aligned. -/
theorem TableRepr.set_spec (h : TableRepr t m) (ud : α) (halloc : AllocPossible t (.set ud))
    (hexp : ExpandsAligned t (.set ud)) :
    Returns (tableSet true t (some ud)) fun p =>
      p.1 ≠ 0 ∧ p.1 ∉ m ∧ TableRepr p.2 (m.insert p.1 ud) := by
  have hge := h.wf.cap_ge
  rw [tableSet]
  -- either way there are fewer handles than slots when the loop starts
  by_cases hneed : needsExpand t
  · have hcap := halloc hneed
    have hsz := h.wf.sz_le_cap
    rw [if_pos hneed, tableExpand, if_pos ⟨rfl, hcap⟩]
    exact (h.expand hcap (hexp hneed)).setLoop_spec
      (by simp only [expanded]; omega) ud
  · rw [if_neg hneed]
    rw [needsExpand] at hneed
    exact h.setLoop_spec (by omega) ud

end Repr

/-- **Every call acts as the map operation does**, when an expansion it makes is aligned. -/
theorem tableStep_simulates :
    Simulates (tableStep (α := α)) (fun t o => AllocPossible t o ∧ ExpandsAligned t o) MapStep
      TableRepr := by
  intro t m o h hpre
  cases o with
  | set ud =>
    refine (h.set_spec ud hpre.1 hpre.2).bind ?_
    rintro ⟨id, t'⟩ ⟨h0, hfresh, hrepr⟩
    exact returns_ok ⟨_, .set m ud h0 hfresh, hrepr⟩
  | get x => exact returns_ok ⟨m, by rw [h.get_eq]; exact .get m x, h⟩
  | del x =>
    obtain ⟨hret, hrepr⟩ := h.del_spec x
    exact returns_ok ⟨m.erase x, by rw [hret]; exact .del m x, hrepr⟩
  | size => exact returns_ok ⟨m, by rw [tableSize, ← h.card_keys]; exact .size m, h⟩
  | list room => exact returns_ok ⟨m, h.list_spec room, h⟩

/-- A fresh table is the empty map. -/
theorem tableCreate_repr : TableRepr (tableCreate : Table α) ∅ := by
  have hempty : ∀ i, tableSlot (tableCreate : Table α) i = emptySlot := by
    intro i
    simp [tableSlot, tableCreate]
  refine ⟨⟨⟨4, rfl, le_rfl, by omega⟩, rfl, ?_, Nat.two_pow_pos 32⟩, ?_, ?_⟩
  · simp [tableCreate, liveHandles, emptySlot]
  · intro i hi
    rw [hempty] at hi
    exact absurd rfl hi
  · intro x
    rw [Finmap.lookup_empty, tableLookup, hempty, emptySlot, ite_self]

/-- Deleting handles one after another leaves the map without them. -/
theorem TableRepr.del_all {t : Table α} {m : Finmap fun _ : Nat => α} (h : TableRepr t m)
    (hs : List Nat) :
    TableRepr (hs.foldl (fun t x => (tableDel t x).2) t) (hs.foldl (fun m x => m.erase x) m) := by
  induction hs generalizing t m with
  | nil => exact h
  | cons x hs ih => exact ih (h.del_spec x).2

/-- What is left of a map after erasing handles. -/
theorem mem_foldl_erase (hs : List Nat) (m : Finmap fun _ : Nat => α) (y : Nat) :
    y ∈ hs.foldl (fun m x => m.erase x) m ↔ y ∉ hs ∧ y ∈ m := by
  induction hs generalizing m with
  | nil => simp
  | cons x hs ih =>
    rw [List.foldl_cons, ih, Finmap.mem_erase, List.mem_cons]
    tauto

/-- **The handle table refines a finite map on every run whose expansions are aligned.** Such a run
never gets stuck, all its results are those the map allows, the final table reads as the map, and
deleting every handle `table_list` returns empties it. -/
theorem table_refines_map (ops : List (TableOp α))
    (hadm : Admissible tableStep (fun t o => AllocPossible t o ∧ ExpandsAligned t o) tableCreate
      ops) :
    Returns (runOps tableStep tableCreate ops) fun p =>
      (∃ m, SpecRun MapStep ∅ ops p.1 m ∧ (∀ h, tableGet p.2 h = m.lookup h)
          ∧ tableSize p.2 = m.keys.card)
        ∧ tableSize ((tableList p.2 (tableSize p.2)).foldl (fun t h => (tableDel t h).2) p.2) = 0 := by
  refine (tableStep_simulates.run ops tableCreate_repr hadm).imp ?_
  rintro ⟨rs, t⟩ ⟨m, hrun, h⟩
  refine ⟨⟨m, hrun, h.get_eq, h.card_keys.symm⟩, ?_⟩
  dsimp only
  have hlist : tableList t (tableSize t) = liveHandles t := by
    rw [tableList, tableListLoop_eq, ← liveHandles, tableSize, h.wf.sz_eq, List.take_length]
  -- the listed handles are all the bound ones, so nothing is left
  have hdel := h.del_all (liveHandles t)
  rw [hlist, tableSize, ← hdel.card_keys, Finset.card_eq_zero, Finset.eq_empty_iff_forall_notMem]
  intro y hy
  rw [Finmap.mem_keys, mem_foldl_erase, h.mem_iff] at hy
  exact hy.1 hy.2

/-- Thirteen handles stored in a row: the thirteenth call expands an aligned table. -/
theorem table_refines_map_thirteen :
    Returns (runOps tableStep tableCreate ((List.range 13).map TableOp.set)) fun p =>
      (∃ m, SpecRun MapStep ∅ ((List.range 13).map TableOp.set) p.1 m
          ∧ (∀ h, tableGet p.2 h = m.lookup h) ∧ tableSize p.2 = m.keys.card)
        ∧ tableSize ((tableList p.2 (tableSize p.2)).foldl (fun t h => (tableDel t h).2) p.2) = 0 :=
  table_refines_map _ (by decide +kernel)

/-- In a finite map a handle just bound is found after another one is bound. -/
theorem get_after_two_sets {m m' : Finmap fun _ : Nat => α} {u v : α} {h h' : Nat} {d : Option α}
    (hrun : SpecRun MapStep m [.set u, .set v, .get h] [.handle h, .handle h', .data d] m') :
    d = some u := by
  obtain _ | ⟨hset, hrun⟩ := hrun
  obtain _ | ⟨hset', hrun⟩ := hrun
  obtain _ | ⟨hget, hrun⟩ := hrun
  cases hset
  cases hset' with
  | set _ _ hfresh =>
  cases hget
  -- the second handle is fresh, so it is not the first one
  have hne : h ≠ h' := by
    rintro rfl
    exact hfresh (Finmap.mem_insert.mpr (.inl rfl))
  rw [Finmap.lookup_insert_of_ne _ hne, Finmap.lookup_insert]

/-- A run that loses a handle: eleven handles stay live while five more come and go, so the next
one, 28, lands in slot 12 of 16; storing another one expands the table. -/
def losingRun : List (TableOp Nat) :=
  ((List.range 11).map .set
    ++ [.set 11, .del 12, .set 12, .del 13, .set 13, .del 14, .set 14, .del 15, .set 15, .del 16])
    ++ [.set 16, .set 17, .get 28]

/-- The run returns, with these results at its end: 28 is stored, never deleted, and not found. -/
theorem losingRun_results :
    (runOps tableStep tableCreate losingRun).toOption.map (fun p => p.1.drop 21)
      = some [.handle 28, .handle 29, .data none] := by
  decide +kernel

/-- **An expansion loses live handles**: every allocation of the run can succeed, and its results
are not those of any finite map. -/
theorem table_expand_loses_handle :
    Admissible tableStep AllocPossible tableCreate losingRun
      ∧ ¬ Returns (runOps tableStep tableCreate losingRun)
          (fun p => ∃ m, SpecRun MapStep ∅ losingRun p.1 m) := by
  refine ⟨by decide +kernel, ?_⟩
  rintro ⟨⟨rs, t⟩, hrun, m, hspec⟩
  have hres := losingRun_results
  rw [hrun] at hres
  -- only the last three calls matter
  obtain ⟨m₀, rs', hlast, hrs'⟩ := SpecRun.append_inv hspec
  have hrs : rs' = [.handle 28, .handle 29, .data none] :=
    hrs'.trans (Option.some.inj hres)
  rw [hrs] at hlast
  exact absurd (get_after_two_sets hlast) (by decide)

end Wee
