import Wee.Lib.Memory
import Wee.Lib.Word
import Wee.Base.BufferInts

/-! # Host and network byte order

A load of an integer reads its bytes in the byte order of the host; `htobe32`, `be32toh` and `ntohs`
turn such a value into the one its bytes have in network byte order, and back. -/

namespace Wee

/-- A load of the byte at offset `off`. -/
def byteLoad (m : List UInt8) (off : Nat) : Exec Nat :=
  match m[off]? with
  | some b => .ok b.toNat
  | none => .error .outOfBounds

/-- The byte at offset `off`. -/
def byteAt (m : List UInt8) (off : Nat) : Nat := (m.getD off 0).toNat

/-- The value of some bytes as an unsigned integer of a host. -/
def hostNat : ByteOrder → List UInt8 → Nat
  | .big, bs => beNat bs
  | .little, bs => beNat bs.reverse

/-- A load of an unsigned integer of `len` bytes at offset `off`. -/
def hostLoad (order : ByteOrder) (m : List UInt8) (off len : Nat) : Exec Nat := do
  let bs ← memLoad m off len
  return hostNat order bs

/-- The integer of `k` bytes with the bytes the other way round, on a little-endian host. -/
def swapBytes (order : ByteOrder) (k x : Nat) : Nat :=
  match order with
  | .big => x
  | .little => beNat (beBytes k x).reverse

/-- `htobe32`. -/
def htobe32 (order : ByteOrder) (x : Nat) : Nat := swapBytes order 4 x

/-- `be32toh`. -/
def be32toh (order : ByteOrder) (x : Nat) : Nat := swapBytes order 4 x

/-- `ntohs`. -/
def ntohs (order : ByteOrder) (x : Nat) : Nat := swapBytes order 2 x

section

variable {order : ByteOrder} {bs m : List UInt8} {k off : Nat}

/-- **Bytes in network byte order**: swapping the value loaded gives the value they have there. -/
theorem swapBytes_hostNat (order : ByteOrder) (h : bs.length = k) :
    swapBytes order k (hostNat order bs) = beNat bs := by
  cases order with
  | big => rfl
  | little =>
    have hrev : beBytes k (beNat bs.reverse) = bs.reverse := by
      rw [← h, ← List.length_reverse, beBytes_beNat]
    rw [swapBytes, hostNat, hrev, List.reverse_reverse]

/-- Swapping twice changes nothing. -/
theorem swapBytes_swapBytes {x : Nat} (hx : x < 256 ^ k) :
    swapBytes order k (swapBytes order k x) = x := by
  cases order with
  | big => rfl
  | little =>
    have hlen : (beBytes k x).length = k := length_beBytes k x
    have hswap := swapBytes_hostNat .little hlen
    rw [beNat_beBytes, Nat.mod_eq_of_lt hx] at hswap
    exact hswap

/-- A value loaded is a constant swapped iff the bytes are those of the constant. -/
theorem hostNat_eq_swapBytes {x : Nat} (h : bs.length = k) (hx : x < 256 ^ k) :
    hostNat order bs = swapBytes order k x ↔ bs = beBytes k x := by
  constructor
  · intro heq
    have hval : beNat bs = x := by
      rw [← swapBytes_hostNat order h, heq, swapBytes_swapBytes hx]
    rw [← hval, ← h, beBytes_beNat]
  · rintro rfl
    cases order with
    | big => rw [hostNat, beNat_beBytes, Nat.mod_eq_of_lt hx, swapBytes]
    | little => rfl

/-- A load of a byte inside the object. -/
theorem byteLoad_of_lt (h : off < m.length) : byteLoad m off = .ok (byteAt m off) := by
  rw [byteLoad, byteAt, List.getElem?_eq_getElem h, List.getD_eq_getElem _ _ h]

/-- A load of a byte outside the object faults. -/
theorem byteLoad_of_ge (h : m.length ≤ off) : byteLoad m off = .error .outOfBounds := by
  rw [byteLoad, List.getElem?_eq_none h]

/-- A byte in front of more memory. -/
theorem byteLoad_append (h : off < m.length) (rest : List UInt8) :
    byteLoad (m ++ rest) off = byteLoad m off := by
  rw [byteLoad, byteLoad, List.getElem?_append_left h]

/-- A byte behind a moved pointer. -/
theorem byteAt_drop (m : List UInt8) (i j : Nat) : byteAt (m.drop i) j = byteAt m (i + j) := by
  rw [byteAt, byteAt, List.getD_eq_getElem?_getD, List.getElem?_drop, List.getD_eq_getElem?_getD]

/-- A byte of a slice. -/
theorem byteAt_slice (m : List UInt8) (i : Nat) {j len : Nat} (hj : j < len) :
    byteAt (slice m i len) j = byteAt m (i + j) := by
  rw [← byteAt_drop, byteAt, byteAt, slice, List.getD_eq_getElem?_getD, List.getElem?_take_of_lt hj,
    List.getD_eq_getElem?_getD]

/-- A byte has eight bits. -/
theorem byteAt_lt (m : List UInt8) (off : Nat) : byteAt m off < 256 := UInt8.toNat_lt _

/-- A value loaded has the width of the load. -/
theorem hostNat_lt (order : ByteOrder) (bs : List UInt8) : hostNat order bs < 256 ^ bs.length := by
  cases order with
  | big => exact beNat_lt bs
  | little =>
    have hlt := beNat_lt bs.reverse
    rw [List.length_reverse] at hlt
    exact hlt

/-- The last byte is the high one on a little-endian host. -/
theorem hostNat_little_div (h : bs.length = k + 1) :
    hostNat .little bs / 256 ^ k = byteAt bs k := by
  obtain rfl | ⟨low, b, rfl⟩ := List.eq_nil_or_concat' bs
  · cases h
  · rw [List.length_append, List.length_singleton, Nat.add_right_cancel_iff] at h
    subst h
    have hlow := beNat_lt low.reverse
    rw [List.length_reverse] at hlow
    rw [hostNat, List.reverse_append, List.reverse_singleton, List.singleton_append, beNat,
      List.length_reverse, Nat.mul_comm, Nat.mul_add_div (by positivity), Nat.div_eq_of_lt hlow,
      byteAt, List.getD_append_right _ _ _ _ (le_refl _), Nat.sub_self]
    rfl

/-- A load inside the object. -/
theorem hostLoad_of_le {len : Nat} (h : off + len ≤ m.length) :
    hostLoad order m off len = .ok (hostNat order (slice m off len)) := by
  rw [hostLoad, memLoad_of_le h, exec_ok_bind, exec_pure]

/-- A load outside the object faults. -/
theorem hostLoad_of_gt {len : Nat} (h : m.length < off + len) :
    hostLoad order m off len = .error .outOfBounds := by
  rw [hostLoad, memLoad, if_neg (not_le.mpr h), exec_error_bind]

end

end Wee
