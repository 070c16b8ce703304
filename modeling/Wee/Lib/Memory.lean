import Wee.Lib.Exec
import Mathlib.Data.List.GetD

/-! # Byte blocks: loads and stores

A memory object is the list of its bytes. `memLoad` and `memStore` are `memcpy` out of and into an
object: they fault when the range leaves it. `slice` is the pure range of bytes, and the lemmas say
how a store changes the slices around it. -/

namespace Wee

/-- The `len` bytes of `m` from offset `off` on. -/
def slice (m : List UInt8) (off len : Nat) : List UInt8 := (m.drop off).take len

/-- `m` with the bytes from offset `off` on replaced by `d`. -/
def splice (m : List UInt8) (off : Nat) (d : List UInt8) : List UInt8 :=
  m.take off ++ d ++ m.drop (off + d.length)

/-- Load `len` bytes at offset `off` of the object `m`. -/
def memLoad (m : List UInt8) (off len : Nat) : Exec (List UInt8) :=
  if off + len ≤ m.length then .ok (slice m off len) else .error .outOfBounds

/-- Store the bytes `d` at offset `off` of the object `m`. -/
def memStore (m : List UInt8) (off : Nat) (d : List UInt8) : Exec (List UInt8) :=
  if off + d.length ≤ m.length then .ok (splice m off d) else .error .outOfBounds

variable {m d : List UInt8} {off len : Nat}

/-- A load inside the object returns the slice. -/
theorem memLoad_of_le (h : off + len ≤ m.length) : memLoad m off len = .ok (slice m off len) := by
  rw [memLoad, if_pos h]

/-- A load that returns stays inside the object. -/
theorem memLoad_inv (h : memLoad m off len = .ok d) :
    off + len ≤ m.length ∧ d = slice m off len := by
  rw [memLoad] at h
  split at h
  · rename_i hle
    exact ⟨hle, (Except.ok.inj h).symm⟩
  · cases h

/-- A store inside the object splices the bytes in. -/
theorem memStore_of_le (h : off + d.length ≤ m.length) :
    memStore m off d = .ok (splice m off d) := by
  rw [memStore, if_pos h]

/-- A store that leaves the object faults. -/
theorem memStore_of_gt (h : m.length < off + d.length) :
    memStore m off d = .error .outOfBounds := by
  rw [memStore, if_neg (by omega)]

/-! ### Slices -/

/-- The empty range. -/
@[simp] theorem slice_zero (m : List UInt8) (off : Nat) : slice m off 0 = [] := by
  rw [slice, List.take_zero]

/-- A slice inside the object has the length asked for. -/
theorem length_slice (h : off + len ≤ m.length) : (slice m off len).length = len := by
  rw [slice, List.length_take, List.length_drop]
  omega

/-- Two adjacent slices make one. -/
theorem slice_append (m : List UInt8) (off j k : Nat) :
    slice m off j ++ slice m (off + j) k = slice m off (j + k) := by
  rw [slice, slice, slice, List.take_add, List.drop_drop]

/-- Dropping the front of a slice moves its start. -/
theorem drop_slice (m : List UInt8) (off : Nat) (j : Nat) :
    (slice m off len).drop j = slice m (off + j) (len - j) := by
  rw [slice, slice, List.drop_take, List.drop_drop]

/-- Taking the front of a slice shortens it. -/
theorem take_slice (m : List UInt8) (off : Nat) {j : Nat} (h : j ≤ len) :
    (slice m off len).take j = slice m off j := by
  rw [slice, slice, List.take_take, Nat.min_eq_left h]

/-- A slice of a slice. -/
theorem slice_slice (m : List UInt8) {j k : Nat} (h : j + k ≤ len) :
    slice (slice m off len) j k = slice m (off + j) k := by
  rw [slice, drop_slice, take_slice _ _ (by omega)]

/-! ### Stores -/

/-- A store keeps the size of the object. -/
theorem length_splice (h : off + d.length ≤ m.length) : (splice m off d).length = m.length := by
  simp only [splice, List.length_append, List.length_take, List.length_drop]
  omega

/-- The stored range reads back as the stored bytes. -/
theorem slice_splice_self (h : off + d.length ≤ m.length) :
    slice (splice m off d) off d.length = d := by
  have hlen : (m.take off).length = off := by rw [List.length_take]; omega
  rw [slice, splice, List.append_assoc, List.drop_left' hlen, List.take_left]

/-- A range before the store is unchanged. -/
theorem slice_splice_before {j : Nat} (hj : j + len ≤ off) (h : off ≤ m.length) :
    slice (splice m off d) j len = slice m j len := by
  have hlen : (m.take off).length = off := by rw [List.length_take]; omega
  rw [slice, splice, List.append_assoc, List.drop_append_of_le_length (by omega),
    List.take_append_of_le_length (by rw [List.length_drop]; omega), slice,
    List.drop_take, List.take_take, Nat.min_eq_left (by omega)]

/-- A range after the store is unchanged. -/
theorem slice_splice_after {j : Nat} (hj : off + d.length ≤ j) (h : off + d.length ≤ m.length) :
    slice (splice m off d) j len = slice m j len := by
  have hlen : (m.take off ++ d).length = off + d.length := by
    rw [List.length_append, List.length_take]; omega
  rw [slice, splice, List.drop_append, List.drop_of_length_le (by omega), List.nil_append, hlen,
    List.drop_drop, Nat.add_sub_cancel' hj, slice]

/-- A range over a store that starts inside it or behind it: the stored bytes stand over the old
ones, as far as the range reaches. -/
theorem slice_splice_over {j : Nat} (hj : j ≤ off) (h : off + d.length ≤ m.length)
    (hlen : j + len ≤ m.length) :
    slice (splice m off d) j len = ((slice m j len).take (off - j) ++ d
      ++ (slice m j len).drop (off - j + d.length)).take len := by
  have hleft : (m.take off).length = off := by rw [List.length_take]; omega
  have hdrop : (m.take off).drop j = (m.drop j).take (off - j) := List.drop_take
  rw [slice, splice, List.append_assoc, List.drop_append_of_le_length (by omega), hdrop, slice,
    List.take_take, List.drop_take, List.drop_drop]
  refine List.ext_getElem? fun i => ?_
  simp only [List.getElem?_take, List.getElem?_append, List.getElem?_drop, List.length_take,
    List.length_append, List.length_drop]
  grind

/-- A store of no bytes. -/
theorem splice_nil (m : List UInt8) (off : Nat) : splice m off [] = m := by
  rw [splice, List.append_nil, List.length_nil, Nat.add_zero, List.take_append_drop]

/-- A store behind an offset is a store in the whole object. -/
theorem take_append_splice_drop (i : Nat) :
    m.take i ++ splice (m.drop i) off d = splice m (i + off) d := by
  rw [splice, splice, List.take_add, List.drop_drop, ← List.append_assoc, ← List.append_assoc,
    Nat.add_assoc]

/-- A store that returns stays inside the object and keeps its size. -/
theorem memStore_inv {m' : List UInt8} (h : memStore m off d = .ok m') :
    off + d.length ≤ m.length ∧ m'.length = m.length := by
  rw [memStore] at h
  split at h
  · rename_i hle
    rw [← Except.ok.inj h, length_splice hle]
    exact ⟨hle, rfl⟩
  · cases h

/-! ### Raw memory

A pointer into memory that is not bounds-checked is a function from offsets to bytes. -/

/-- The memory `mem` holds the bytes `bs` from offset `i` on. -/
def Holds (mem : Nat → UInt8) : Nat → List UInt8 → Prop
  | _, [] => True
  | i, b :: bs => mem i = b ∧ Holds mem (i + 1) bs

@[simp] theorem holds_nil (mem : Nat → UInt8) (i : Nat) : Holds mem i [] := trivial

@[simp] theorem holds_cons {mem : Nat → UInt8} {i : Nat} {b : UInt8} {bs : List UInt8} :
    Holds mem i (b :: bs) ↔ mem i = b ∧ Holds mem (i + 1) bs := Iff.rfl

/-- Bytes held one after another. -/
theorem holds_append {mem : Nat → UInt8} {i : Nat} {bs cs : List UInt8} :
    Holds mem i (bs ++ cs) ↔ Holds mem i bs ∧ Holds mem (i + bs.length) cs := by
  induction bs generalizing i with
  | nil => simp
  | cons b bs ih =>
    rw [List.cons_append, holds_cons, holds_cons, ih, List.length_cons, and_assoc,
      Nat.add_right_comm, Nat.add_assoc]

/-- The first `k` bytes held. -/
theorem Holds.take {mem : Nat → UInt8} {i : Nat} {bs : List UInt8} (h : Holds mem i bs) (k : Nat) :
    Holds mem i (bs.take k) := by
  rw [← List.take_append_drop k bs, holds_append] at h
  exact h.1

/-- What stands behind the first `k` bytes held. -/
theorem Holds.drop {mem : Nat → UInt8} {i k : Nat} {bs : List UInt8} (h : Holds mem i bs)
    (hk : k ≤ bs.length) : Holds mem (i + k) (bs.drop k) := by
  rw [← List.take_append_drop k bs, holds_append, List.length_take, Nat.min_eq_left hk] at h
  exact h.2

/-- Bytes held behind a moved pointer. -/
theorem holds_shift {mem : Nat → UInt8} (off i : Nat) (bs : List UInt8) :
    Holds (fun j => mem (off + j)) i bs ↔ Holds mem (off + i) bs := by
  induction bs generalizing i with
  | nil => simp
  | cons b bs ih => rw [holds_cons, holds_cons, ih, Nat.add_assoc]

/-- Held bytes, one at a time. -/
theorem holds_iff_getElem {mem : Nat → UInt8} {i : Nat} {bs : List UInt8} :
    Holds mem i bs ↔ ∀ j (hj : j < bs.length), mem (i + j) = bs[j] := by
  induction bs generalizing i with
  | nil => simp
  | cons b bs ih =>
    rw [holds_cons, ih]
    constructor
    · rintro ⟨hb, hbs⟩ j hj
      cases j with
      | zero => exact hb
      | succ j =>
        rw [List.getElem_cons_succ, ← hbs j (Nat.lt_of_succ_lt_succ hj), Nat.add_assoc,
          Nat.add_comm 1 j]
    · intro h
      refine ⟨h 0 (Nat.succ_pos _), fun j hj => ?_⟩
      have hsucc := h (j + 1) (Nat.succ_lt_succ hj)
      rwa [List.getElem_cons_succ, ← Nat.add_assoc, Nat.add_right_comm] at hsucc

/-- The memory that starts with `bs` and is zero behind it. -/
def zeroExt (bs : List UInt8) (i : Nat) : UInt8 := bs.getD i 0

/-- `zeroExt bs` holds `bs`. -/
theorem holds_zeroExt (bs : List UInt8) : Holds (zeroExt bs) 0 bs := by
  refine holds_iff_getElem.mpr fun j hj => ?_
  rw [Nat.zero_add, zeroExt, List.getD_eq_getElem _ _ hj]

/-- Loading held bytes by their offsets. -/
theorem Holds.map_range {mem : Nat → UInt8} {i : Nat} {bs : List UInt8} (h : Holds mem i bs) :
    (List.range bs.length).map (fun j => mem (i + j)) = bs := by
  refine List.ext_getElem (by simp) fun j hj hj' => ?_
  rw [List.getElem_map, List.getElem_range, holds_iff_getElem.mp h j hj']

end Wee
