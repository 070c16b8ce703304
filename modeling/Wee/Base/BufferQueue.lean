import Wee.Base.Buffer
import Wee.Lib.Refine

/-! # The buffer is a byte queue

`bufBytes b` is the abstract value of a buffer: the queue of its readable bytes. `BufWf` is the
well-formedness every operation keeps, `BufInv` adds that the reserved front has not been used by a
prepend. Each operation has one specification lemma: under its length precondition it returns, keeps
the invariant and changes the queue as its name says. -/

namespace Wee

/-- The readable bytes. -/
def bufBytes (b : Buffer) : List UInt8 := slice b.buf b.readIdx (b.writeIdx - b.readIdx)

/-- **Well-formed buffers**: ordered indices inside a block of `sz` bytes, not locked by a view. -/
structure BufWf (b : Buffer) : Prop where
  /-- The read index is not past the write index. -/
  read_le_write : b.readIdx ≤ b.writeIdx
  /-- The write index is inside the block. -/
  write_le_sz : b.writeIdx ≤ b.sz
  /-- The reserved front is inside the block. -/
  pSz_le_sz : b.pSz ≤ b.sz
  /-- The block has `sz` bytes. -/
  length_buf : b.buf.length = b.sz
  /-- The capacity is a `size_t`. -/
  sz_lt : b.sz < 2 ^ 64
  /-- No view locks the buffer. -/
  unlocked : bufWriteLocked b = false

/-- **The queue invariant** `p_sz ≤ read_idx ≤ write_idx ≤ sz`. -/
structure BufInv (b : Buffer) : Prop extends BufWf b where
  /-- The reserved front is free. -/
  pSz_le_read : b.pSz ≤ b.readIdx

/-- What reading needs: ordered indices inside a block of `sz` bytes. A locked buffer and a view
have this shape as well. -/
structure BufShape (b : Buffer) : Prop where
  /-- The read index is not past the write index. -/
  read_le_write : b.readIdx ≤ b.writeIdx
  /-- The write index is inside the block. -/
  write_le_sz : b.writeIdx ≤ b.sz
  /-- The reserved front is inside the block. -/
  pSz_le_sz : b.pSz ≤ b.sz
  /-- The block has `sz` bytes. -/
  length_buf : b.buf.length = b.sz
  /-- The capacity is a `size_t`. -/
  sz_lt : b.sz < 2 ^ 64

section Sizes

variable {b : Buffer}

/-- A well-formed buffer has the shape. -/
theorem BufWf.shape (h : BufWf b) : BufShape b := { h with }

/-- `buf_readable` without wrap-around. -/
theorem BufShape.readable_eq (h : BufShape b) : bufReadable b = b.writeIdx - b.readIdx :=
  szSub_eq h.read_le_write (lt_of_le_of_lt h.write_le_sz h.sz_lt)

/-- `buf_readable` is the length of the queue. -/
theorem BufShape.length_bufBytes (h : BufShape b) : (bufBytes b).length = bufReadable b := by
  have hr := h.read_le_write
  have hw := h.write_le_sz
  rw [bufBytes, length_slice (by rw [h.length_buf]; omega), h.readable_eq]

/-- Any front part of the readable bytes can be loaded. -/
theorem BufShape.load_front (h : BufShape b) {len : Nat} (hlen : len ≤ bufReadable b) :
    memLoad b.buf b.readIdx len = .ok ((bufBytes b).take len) := by
  have hr := h.read_le_write
  have hw := h.write_le_sz
  rw [h.readable_eq] at hlen
  rw [memLoad_of_le (by rw [h.length_buf]; omega), bufBytes, take_slice _ _ hlen]

/-- `buf_readable` of a well-formed buffer. -/
theorem BufWf.readable_eq (h : BufWf b) : bufReadable b = b.writeIdx - b.readIdx :=
  h.shape.readable_eq

/-- `buf_writable` without wrap-around. -/
theorem BufWf.writable_eq (h : BufWf b) : bufWritable b = b.sz - b.writeIdx :=
  szSub_eq h.write_le_sz h.sz_lt

/-- The length of the queue of a well-formed buffer. -/
theorem BufWf.length_bufBytes (h : BufWf b) : (bufBytes b).length = bufReadable b :=
  h.shape.length_bufBytes

/-- The readable bytes can be loaded. -/
theorem BufWf.load_readable (h : BufWf b) :
    memLoad b.buf b.readIdx (bufReadable b) = .ok (bufBytes b) := by
  have hr := h.read_le_write
  have hw := h.write_le_sz
  rw [h.readable_eq, memLoad_of_le (by rw [h.length_buf]; omega), bufBytes]

end Sizes

/-! ### Creation -/

/-- `buf_create_ex` returns an empty queue. -/
theorem bufCreateEx_spec {size prependSize : Nat} (hpos : 0 < size)
    (hov : size + prependSize < 2 ^ 64) :
    Returns (bufCreateEx size prependSize) fun b =>
      BufInv b ∧ bufBytes b = [] ∧ b.pSz = prependSize ∧ b.sz = size + prependSize
        ∧ b.writeIdx = prependSize := by
  rw [bufCreateEx]
  refine returns_cassert_bind hpos (returns_ok ⟨?_, ?_, rfl, szAdd_eq hov, rfl⟩)
  · rw [szAdd_eq hov]
    exact { read_le_write := le_rfl, write_le_sz := by dsimp only; omega,
            pSz_le_sz := by dsimp only; omega, length_buf := List.length_replicate,
            sz_lt := hov, unlocked := rfl, pSz_le_read := le_rfl }
  · simp only [bufBytes, Nat.sub_self, slice_zero]

/-- `buf_create` returns an empty queue with room for `n` bytes. -/
theorem bufCreate_spec {n : Nat} (hpos : 0 < n) (hov : n + bufCheapPrepend < 2 ^ 64) :
    Returns (bufCreate n) fun b =>
      BufInv b ∧ bufBytes b = [] ∧ b.pSz = bufCheapPrepend ∧ b.sz = n + bufCheapPrepend
        ∧ b.writeIdx = bufCheapPrepend :=
  bufCreateEx_spec hpos hov

/-! ### Consuming -/

/-- `buf_retrieveAll` empties the queue. -/
theorem bufRetrieveAll_spec {b : Buffer} (h : BufWf b) :
    BufInv (bufRetrieveAll b) ∧ bufBytes (bufRetrieveAll b) = [] := by
  refine ⟨?_, ?_⟩
  · exact { read_le_write := le_rfl, write_le_sz := h.pSz_le_sz, pSz_le_sz := h.pSz_le_sz,
            length_buf := h.length_buf, sz_lt := h.sz_lt, unlocked := h.unlocked,
            pSz_le_read := le_rfl }
  · simp only [bufBytes, bufRetrieveAll, Nat.sub_self, slice_zero]

/-- `b'` is `b` with `k` bytes consumed: the block and the reserved front are those of `b`. -/
structure Consumed (k : Nat) (b b' : Buffer) : Prop where
  /-- The shape. -/
  shape : BufShape b'
  /-- `k` bytes are gone from the front. -/
  bytes : bufBytes b' = (bufBytes b).drop k
  /-- The capacity. -/
  sz : b'.sz = b.sz
  /-- The size of the reserved front. -/
  pSz : b'.pSz = b.pSz
  /-- The lock. -/
  locked : bufWriteLocked b' = bufWriteLocked b
  /-- The reserved front is as free as it was. -/
  front : b.pSz ≤ b.readIdx → b'.pSz ≤ b'.readIdx
  /-- What is left ends where it ended. -/
  write : bufBytes b' ≠ [] → b'.writeIdx = b.writeIdx
  /-- An empty queue begins behind the reserved front. -/
  idle : bufBytes b' = [] → b'.readIdx = b'.pSz

/-- Bytes consumed one after the other. -/
theorem Consumed.trans {j k : Nat} {b b' b'' : Buffer} (h : Consumed j b b')
    (h' : Consumed k b' b'') : Consumed (j + k) b b'' where
  shape := h'.shape
  bytes := by rw [h'.bytes, h.bytes, List.drop_drop]
  sz := h'.sz.trans h.sz
  pSz := h'.pSz.trans h.pSz
  locked := h'.locked.trans h.locked
  front := fun hp => h'.front (h.front hp)
  write := fun hne => by
    refine (h'.write hne).trans (h.write fun hnil => hne ?_)
    rw [h'.bytes, hnil, List.drop_nil]
  idle := h'.idle

/-- Consuming keeps the queue invariant. -/
theorem Consumed.inv {k : Nat} {b b' : Buffer} (hc : Consumed k b b') (h : BufInv b) : BufInv b' :=
  { hc.shape with unlocked := hc.locked.trans h.unlocked, pSz_le_read := hc.front h.pSz_le_read }

/-- `buf_retrieve` drops `len` bytes from the front. -/
theorem BufShape.retrieve_spec {b : Buffer} {len : Nat} (h : BufShape b)
    (hlen : len ≤ bufReadable b) : Returns (bufRetrieve b len) (Consumed len b) := by
  have hr := h.read_le_write
  have hw := h.write_le_sz
  have hs := h.sz_lt
  have hread := h.readable_eq
  rw [bufRetrieve]
  refine returns_cassert_bind hlen ?_
  by_cases hlt : len < bufReadable b
  · -- the read index advances
    rw [if_pos hlt]
    have hidx : szAdd b.readIdx len = b.readIdx + len := szAdd_eq (by omega)
    refine returns_ok { shape := ?_, bytes := ?_, sz := rfl, pSz := rfl, locked := rfl, front := ?_,
                        write := fun _ => rfl, idle := ?_ }
    · exact { h with read_le_write := by dsimp only; omega }
    · rw [bufBytes, bufBytes, drop_slice, hidx, Nat.sub_sub]
    · intro hp
      dsimp only
      omega
    · intro hnil
      have hl := h.length_buf
      have hlength := congrArg List.length hnil
      rw [bufBytes, length_slice (by dsimp only; omega)] at hlength
      simp only [hidx, List.length_nil] at hlength
      omega
  · -- everything is consumed: the indices go back to the reserved front
    rw [if_neg hlt]
    refine returns_ok { shape := ?_, bytes := ?_, sz := rfl, pSz := rfl, locked := rfl,
                        front := fun _ => le_rfl, write := fun hne => absurd ?_ hne,
                        idle := fun _ => rfl }
    · exact { h with read_le_write := le_rfl, write_le_sz := h.pSz_le_sz }
    · rw [List.drop_of_length_le (by rw [h.length_bufBytes]; omega), bufBytes]
      simp only [bufRetrieveAll, Nat.sub_self, slice_zero]
    · simp only [bufBytes, bufRetrieveAll, Nat.sub_self, slice_zero]

/-- `buf_retrieve` on a queue. -/
theorem BufInv.retrieve_spec {b : Buffer} {len : Nat} (h : BufInv b) (hlen : len ≤ bufReadable b) :
    Returns (bufRetrieve b len) fun b' =>
      BufInv b' ∧ bufBytes b' = (bufBytes b).drop len ∧ b'.sz = b.sz ∧ b'.pSz = b.pSz :=
  (h.shape.retrieve_spec hlen).imp fun _ hb' => ⟨hb'.inv h, hb'.bytes, hb'.sz, hb'.pSz⟩

/-- `buf_retrieve` of more bytes than are readable aborts. -/
theorem bufRetrieve_of_gt {b : Buffer} {len : Nat} (h : bufReadable b < len) :
    bufRetrieve b len = .error .assertFailed := by
  rw [bufRetrieve, cassert_bind_of_not (by omega)]

/-- `buf_unwrite` drops `len` bytes from the end; the read index stays. -/
theorem BufWf.unwrite_spec {b : Buffer} {len : Nat} (h : BufWf b) (hlen : len ≤ bufReadable b) :
    Returns (bufUnwrite b len) fun b' =>
      BufWf b' ∧ bufBytes b' = (bufBytes b).take ((bufBytes b).length - len)
        ∧ b'.readIdx = b.readIdx ∧ b'.pSz = b.pSz := by
  have hr := h.read_le_write
  have hw := h.write_le_sz
  have hs := h.sz_lt
  have hread := h.readable_eq
  have hidx : szSub b.writeIdx len = b.writeIdx - len := szSub_eq (by omega) (by omega)
  rw [bufUnwrite, assertWrite]
  refine returns_cassert_bind h.unlocked (returns_cassert_bind hlen (returns_ok ⟨?_, ?_, rfl, rfl⟩))
  · exact { read_le_write := by dsimp only; omega, write_le_sz := by dsimp only; omega,
            pSz_le_sz := h.pSz_le_sz, length_buf := h.length_buf, sz_lt := hs,
            unlocked := h.unlocked }
  · rw [h.length_bufBytes, hread, bufBytes, bufBytes, take_slice _ _ (by omega), hidx]
    congr 1
    dsimp only
    omega

/-- `buf_unwrite` on a queue. -/
theorem BufInv.unwrite_spec {b : Buffer} {len : Nat} (h : BufInv b) (hlen : len ≤ bufReadable b) :
    Returns (bufUnwrite b len) fun b' =>
      BufInv b' ∧ bufBytes b' = (bufBytes b).take ((bufBytes b).length - len) := by
  refine (h.toBufWf.unwrite_spec hlen).imp fun b' hb' => ?_
  obtain ⟨hwf, hbytes, hread, hpSz⟩ := hb'
  have hp := h.pSz_le_read
  exact ⟨⟨hwf, by omega⟩, hbytes⟩

/-- `buf_retrieveAsString` hands out the first `len` bytes and drops them. -/
theorem BufInv.retrieveAsString_spec {b : Buffer} {len : Nat} (h : BufInv b)
    (hlen : len ≤ bufReadable b) :
    Returns (bufRetrieveAsString b len) fun r =>
      r.1 = (bufBytes b).take len ++ [0] ∧ BufInv r.2 ∧ bufBytes r.2 = (bufBytes b).drop len := by
  rw [bufRetrieveAsString, h.shape.load_front hlen, exec_ok_bind]
  refine (h.retrieve_spec hlen).bind fun b' hb' => returns_ok ⟨rfl, hb'.1, hb'.2.1⟩

/-! ### Producing -/

/-- Writing through `buf_beginWrite` and then `buf_has_written` adds the bytes at the end. -/
theorem bufBeginWriteStore_hasWritten_spec {b : Buffer} {d : List UInt8} (h : BufWf b)
    (hd : d.length ≤ bufWritable b) :
    Returns (bufBeginWriteStore b d >>= fun b => bufHasWritten b d.length) fun b' =>
      BufWf b' ∧ b'.readIdx = b.readIdx ∧ b'.writeIdx = b.writeIdx + d.length
        ∧ bufBytes b' = bufBytes b ++ d ∧ b'.sz = b.sz ∧ b'.pSz = b.pSz := by
  have hr := h.read_le_write
  have hw := h.write_le_sz
  have hs := h.sz_lt
  have hl := h.length_buf
  have hwr := h.writable_eq
  have hidx : szAdd b.writeIdx d.length = b.writeIdx + d.length := szAdd_eq (by omega)
  rw [bufBeginWriteStore, memStore_of_le (by omega)]
  simp only [exec_ok_bind, exec_pure, bufHasWritten]
  refine returns_cassert_bind hd (returns_ok ⟨?_, rfl, hidx, ?_, rfl, rfl⟩)
  · exact { read_le_write := by dsimp only; omega, write_le_sz := by dsimp only; omega,
            pSz_le_sz := h.pSz_le_sz, length_buf := by dsimp only; rw [length_splice (by omega), hl],
            sz_lt := hs, unlocked := h.unlocked }
  · have hlen : b.writeIdx + d.length - b.readIdx = (b.writeIdx - b.readIdx) + d.length := by omega
    have hend : b.readIdx + (b.writeIdx - b.readIdx) = b.writeIdx := by omega
    simp only [bufBytes]
    rw [hidx, hlen, ← slice_append, hend, slice_splice_self (by omega),
      slice_splice_before (by omega) (by omega)]

/-- Moving the readable bytes of `b` to the reserved front of a block of `nsz` bytes that holds them
and keeping the indices in step leaves the queue as it was. -/
theorem bufBytes_moved {b : Buffer} (h : BufWf b) {m : List UInt8} {nsz : Nat}
    (hm : m.length = nsz) (hfit : b.pSz + bufReadable b ≤ nsz) (hns : nsz < 2 ^ 64) :
    BufInv { b with readIdx := b.pSz, writeIdx := b.pSz + bufReadable b, sz := nsz,
                    buf := splice m b.pSz (bufBytes b) }
      ∧ bufBytes { b with readIdx := b.pSz, writeIdx := b.pSz + bufReadable b, sz := nsz,
                          buf := splice m b.pSz (bufBytes b) } = bufBytes b := by
  have hlen := h.length_bufBytes
  refine ⟨?_, ?_⟩
  · exact { read_le_write := by dsimp only; omega, write_le_sz := hfit,
            pSz_le_sz := by dsimp only; omega,
            length_buf := by dsimp only; rw [length_splice (by omega), hm],
            sz_lt := hns, unlocked := h.unlocked, pSz_le_read := le_rfl }
  · have hsub : b.pSz + bufReadable b - b.pSz = (bufBytes b).length := by omega
    rw [bufBytes]
    dsimp only
    rw [hsub, slice_splice_self (by omega)]

/-- The index reset and the last assertion of `buf_makeSpace` after the bytes have been moved. -/
theorem bufMakeSpace_of_room {b b₁ : Buffer} {len : Nat} (hroom : bufMakeRoom b len = .ok b₁)
    (hinv : BufInv { b₁ with readIdx := b₁.pSz, writeIdx := b₁.pSz + bufReadable b }) :
    bufMakeSpace b len
      = .ok { b₁ with readIdx := b₁.pSz, writeIdx := b₁.pSz + bufReadable b } := by
  have hidx : szAdd b₁.pSz (bufReadable b) = b₁.pSz + bufReadable b :=
    szAdd_eq (lt_of_le_of_lt hinv.write_le_sz hinv.sz_lt)
  have hread := hinv.readable_eq
  rw [bufMakeSpace]
  simp only [hroom, exec_ok_bind, hidx]
  rw [cassert_bind_of]
  · rfl
  · rw [hread]
    dsimp only
    omega

/-- The free bytes `buf_makeSpace` counts, when the reserved front is free. -/
theorem BufInv.free_eq {b : Buffer} (h : BufInv b) :
    szSub (szAdd (bufPrependable b) (bufWritable b)) b.pSz
      = b.readIdx + bufWritable b - b.pSz := by
  have hr := h.read_le_write
  have hw := h.write_le_sz
  have hp := h.pSz_le_read
  have hs := h.sz_lt
  have hwr := h.writable_eq
  rw [bufPrependable, szAdd_eq (by omega), szSub_eq (by omega) (by omega)]

/-- `buf_makeSpace` with a bigger block: it ends `len` bytes behind the old write index. -/
theorem BufInv.makeSpace_grow {b : Buffer} {len : Nat} (h : BufInv b)
    (hgrow : b.readIdx + bufWritable b - b.pSz < len) (hov : b.writeIdx + len < 2 ^ 64) :
    bufMakeSpace b len = .ok { b with
      readIdx := b.pSz, writeIdx := b.pSz + bufReadable b, sz := b.writeIdx + len,
      buf := splice (List.replicate (b.writeIdx + len) 0) b.pSz (bufBytes b) } := by
  have hp := h.pSz_le_read
  have hread := h.readable_eq
  have hr := h.read_le_write
  have hlen := h.length_bufBytes
  have hnsz : szAdd b.writeIdx len = b.writeIdx + len := szAdd_eq hov
  have hroom : bufMakeRoom b len = .ok { b with
      buf := splice (List.replicate (b.writeIdx + len) 0) b.pSz (bufBytes b),
      sz := b.writeIdx + len } := by
    rw [bufMakeRoom, h.free_eq, if_pos hgrow, hnsz, bufSwap, cassert_bind_of (by omega),
      h.load_readable, exec_ok_bind,
      memStore_of_le (by rw [List.length_replicate, hlen]; omega)]
    rfl
  exact bufMakeSpace_of_room hroom (bufBytes_moved h.toBufWf
    (m := List.replicate (b.writeIdx + len) 0) List.length_replicate (by omega) hov).1

/-- `buf_makeSpace` with a move to the reserved front of the same block. -/
theorem BufInv.makeSpace_move {b : Buffer} {len : Nat} (h : BufInv b) (hlt : bufWritable b < len)
    (hfree : len ≤ b.readIdx + bufWritable b - b.pSz) :
    bufMakeSpace b len = .ok { b with
      readIdx := b.pSz, writeIdx := b.pSz + bufReadable b,
      buf := splice b.buf b.pSz (bufBytes b) } := by
  have hr := h.read_le_write
  have hw := h.write_le_sz
  have hp := h.pSz_le_read
  have hl := h.length_buf
  have hread := h.readable_eq
  have hlen := h.length_bufBytes
  have hroom : bufMakeRoom b len = .ok { b with buf := splice b.buf b.pSz (bufBytes b) } := by
    rw [bufMakeRoom, h.free_eq, if_neg (by omega), cassert_bind_of (by omega), h.load_readable,
      exec_ok_bind, memStore_of_le (by omega)]
    rfl
  exact bufMakeSpace_of_room hroom (bufBytes_moved h.toBufWf (m := b.buf) hl (by omega) h.sz_lt).1

/-- `buf_makeSpace`, called when the bytes do not fit behind the write index, keeps the queue and
leaves room for `len` bytes. Either branch is taken: a bigger block, or a move inside this one. -/
theorem BufInv.makeSpace_spec {b : Buffer} {len : Nat} (h : BufInv b)
    (hlt : bufWritable b < len) (hov : b.writeIdx + len < 2 ^ 64) :
    Returns (bufMakeSpace b len) fun b' =>
      BufInv b' ∧ bufBytes b' = bufBytes b ∧ len ≤ bufWritable b' ∧ b'.sz ≤ b.sz + len
        ∧ b'.pSz = b.pSz := by
  have hr := h.read_le_write
  have hw := h.write_le_sz
  have hp := h.pSz_le_read
  have hread := h.readable_eq
  have hwr := h.writable_eq
  by_cases hgrow : b.readIdx + bufWritable b - b.pSz < len
  · -- a bigger block
    obtain ⟨hinv, hbytes⟩ := bufBytes_moved h.toBufWf
      (m := List.replicate (b.writeIdx + len) 0) List.length_replicate (by omega) hov
    refine ⟨_, h.makeSpace_grow hgrow hov, hinv, hbytes, ?_, by dsimp only; omega, rfl⟩
    rw [hinv.writable_eq]
    dsimp only
    omega
  · -- a move to the reserved front of this block
    obtain ⟨hinv, hbytes⟩ := bufBytes_moved h.toBufWf (m := b.buf) h.length_buf (by omega) h.sz_lt
    refine ⟨_, h.makeSpace_move hlt (by omega), hinv, hbytes, ?_, by dsimp only; omega, rfl⟩
    rw [hinv.writable_eq]
    dsimp only
    omega

/-- `buf_ensureWritable` changes nothing in the queue and leaves room for `len` bytes. -/
theorem BufInv.ensureWritable_spec {b : Buffer} {len : Nat} (h : BufInv b)
    (hov : b.writeIdx + len < 2 ^ 64) :
    Returns (bufEnsureWritable b len) fun b' =>
      BufInv b' ∧ bufBytes b' = bufBytes b ∧ len ≤ bufWritable b' ∧ b'.sz ≤ b.sz + len
        ∧ b'.pSz = b.pSz := by
  rw [bufEnsureWritable, assertWrite]
  refine returns_cassert_bind h.unlocked ?_
  by_cases hlt : bufWritable b < len
  · rw [if_pos hlt]
    refine (h.makeSpace_spec hlt hov).bind fun b' hb' => ?_
    exact returns_cassert_bind hb'.2.2.1 (returns_ok hb')
  · rw [if_neg hlt, exec_pure, exec_ok_bind]
    exact returns_cassert_bind (by omega) (returns_ok ⟨h, rfl, by omega, by omega, rfl⟩)

/-- `buf_append` adds exactly the given bytes at the end. -/
theorem BufInv.append_spec {b : Buffer} {d : List UInt8} (h : BufInv b)
    (hov : b.writeIdx + d.length < 2 ^ 64) :
    Returns (bufAppend b d) fun b' =>
      BufInv b' ∧ bufBytes b' = bufBytes b ++ d ∧ b'.sz ≤ b.sz + d.length ∧ b'.pSz = b.pSz := by
  rw [bufAppend, assertWrite]
  refine returns_cassert_bind h.unlocked ((h.ensureWritable_spec hov).bind fun b₁ hb₁ => ?_)
  obtain ⟨hinv, hbytes, hroom, hsz, hp⟩ := hb₁
  refine (bufBeginWriteStore_hasWritten_spec hinv.toBufWf hroom).imp fun b' hb' => ?_
  obtain ⟨hwf, hri, -, hb, hs', hp'⟩ := hb'
  refine ⟨⟨hwf, ?_⟩, by rw [hb, hbytes], by omega, by omega⟩
  have := hinv.pSz_le_read
  omega

/-- A failing `readv` leaves the buffer as it was. -/
theorem BufInv.readFd_fail {b : Buffer} (h : BufInv b) (errno e : Int) :
    bufReadFd b errno (.fail e) = .ok (-1, -1, b) := by
  rw [bufReadFd, assertWrite, cassert_bind_of h.unlocked]
  rfl

/-- `buf_readFd` adds exactly the bytes `readv` delivered at the end. The part beyond the writable
bytes comes back out of `extrabuf` through `buf_append`. -/
theorem BufInv.readFd_spec {b : Buffer} {data : List UInt8} (h : BufInv b) (errno : Int)
    (hroom : data.length ≤ bufReadvRoom b) (hov : b.writeIdx + data.length < 2 ^ 64) :
    Returns (bufReadFd b errno (.got data)) fun r =>
      r.1 = data.length ∧ r.2.1 = errno ∧ BufInv r.2.2 ∧ bufBytes r.2.2 = bufBytes b ++ data
        ∧ r.2.2.sz ≤ b.sz + data.length := by
  have hw := h.write_le_sz
  have hwr := h.writable_eq
  have hs := h.sz_lt
  have hp := h.pSz_le_read
  rw [bufReadFd, assertWrite]
  refine returns_cassert_bind h.unlocked ?_
  simp only [List.take_of_length_le hroom]
  -- what `readv` puts in the first iovec, accounted for by moving the write index over it
  have hfst : (data.take (bufWritable b)).length ≤ bufWritable b := by
    rw [List.length_take]; omega
  obtain ⟨b₂, hb₂, hwf, hri, hwi, hbytes, hsz, hpz⟩ :=
    bufBeginWriteStore_hasWritten_spec h.toBufWf hfst
  obtain ⟨b₁, hb₁, hhas⟩ := exec_bind_eq_ok.mp hb₂
  obtain ⟨-, -, hb₂eq⟩ := exec_bind_eq_ok.mp hhas
  simp only [exec_pure, Except.ok.injEq] at hb₂eq
  have hinv : BufInv b₂ := ⟨hwf, by omega⟩
  rw [hb₁, exec_ok_bind]
  by_cases hle : data.length ≤ bufWritable b
  · rw [if_pos hle]
    rw [List.take_of_length_le hle] at hb₂eq hbytes
    rw [hb₂eq]
    exact returns_ok ⟨rfl, rfl, hinv, hbytes, by dsimp only; omega⟩
  · rw [if_neg hle]
    have hlen : (data.take (bufWritable b)).length = bufWritable b := by
      rw [List.length_take]; omega
    have hfull : ({ b₁ with writeIdx := b₁.sz } : Buffer) = b₂ := by
      rw [hlen] at hb₂eq hwi
      subst hb₂eq
      simp only at hwi hsz
      rw [hwi, hsz, hwr]
      congr 1
      omega
    have hdrop : (data.drop (bufWritable b)).length = data.length - bufWritable b :=
      List.length_drop
    rw [hfull]
    refine (hinv.append_spec (d := data.drop (bufWritable b)) (by omega)).bind fun b' hb' => ?_
    obtain ⟨hinv', hbytes', hsz', -⟩ := hb'
    refine returns_ok ⟨rfl, rfl, hinv', ?_, by dsimp only; omega⟩
    rw [hbytes', hbytes, List.append_assoc, List.take_append_drop]

/-! ### The reserved front, and integers -/

/-- `buf_prepend` puts the bytes in front of the queue. -/
theorem bufPrepend_spec {b : Buffer} {d : List UInt8} (h : BufWf b) (hd : d.length ≤ b.readIdx) :
    Returns (bufPrepend b d) fun b' =>
      BufWf b' ∧ bufBytes b' = d ++ bufBytes b ∧ b'.readIdx = b.readIdx - d.length
        ∧ b'.sz = b.sz ∧ b'.pSz = b.pSz := by
  have hr := h.read_le_write
  have hw := h.write_le_sz
  have hs := h.sz_lt
  have hl := h.length_buf
  have hidx : szSub b.readIdx d.length = b.readIdx - d.length := szSub_eq hd (by omega)
  rw [bufPrepend]
  refine returns_cassert_bind hd ?_
  rw [hidx, memStore_of_le (by omega), exec_ok_bind]
  refine returns_ok ⟨?_, ?_, rfl, rfl, rfl⟩
  · exact { read_le_write := by dsimp only; omega, write_le_sz := hw, pSz_le_sz := h.pSz_le_sz,
            length_buf := by dsimp only; rw [length_splice (by omega), hl],
            sz_lt := hs, unlocked := h.unlocked }
  · have hlen : b.writeIdx - (b.readIdx - d.length) = d.length + (b.writeIdx - b.readIdx) := by
      omega
    have hend : b.readIdx - d.length + d.length = b.readIdx := by omega
    simp only [bufBytes]
    rw [hlen, ← slice_append, slice_splice_self (by omega), hend,
      slice_splice_after (by omega) (by omega)]

/-- `buf_prependInt*` puts the big-endian bytes of the integer in front of the queue. -/
theorem bufPrependInt_spec {b : Buffer} {k : Nat} (h : BufWf b) (hk : k ≤ b.readIdx) (x : Int) :
    Returns (bufPrependInt k b x) fun b' =>
      BufWf b' ∧ bufBytes b' = beBytes k (toUnsigned (8 * k) x) ++ bufBytes b
        ∧ b'.readIdx = b.readIdx - k ∧ b'.sz = b.sz ∧ b'.pSz = b.pSz := by
  have hspec := bufPrepend_spec (d := beBytes k (toUnsigned (8 * k) x)) h
    (by rwa [length_beBytes])
  rwa [length_beBytes] at hspec

/-- `buf_peekInt*` reads the integer at the front. -/
theorem BufShape.peekInt_spec {b : Buffer} {k : Nat} (h : BufShape b) (hk : k ≤ bufReadable b) :
    bufPeekInt k b = .ok (toSigned (8 * k) (beNat ((bufBytes b).take k))) := by
  rw [bufPeekInt, cassert_bind_of hk, h.load_front hk]
  rfl

/-- `buf_readInt*` takes the integer from the front. -/
theorem BufShape.readInt_spec {b : Buffer} {k : Nat} (h : BufShape b) (hk : k ≤ bufReadable b) :
    Returns (bufReadInt k b) fun r =>
      r.1 = toSigned (8 * k) (beNat ((bufBytes b).take k)) ∧ Consumed k b r.2 := by
  rw [bufReadInt, h.peekInt_spec hk, exec_ok_bind]
  refine (h.retrieve_spec hk).bind fun b' hb' => returns_ok ?_
  exact ⟨rfl, hb'⟩

/-! ### Runs of the interface -/

/-- The calls of the queue interface. -/
inductive BufOp
  /-- `buf_append`. -/
  | append (d : List UInt8)
  /-- `buf_ensureWritable`. -/
  | ensureWritable (len : Nat)
  /-- A write of `d` through `buf_beginWrite`, then `buf_has_written`. -/
  | write (d : List UInt8)
  /-- `buf_unwrite`. -/
  | unwrite (len : Nat)
  /-- `buf_retrieve`. -/
  | retrieve (len : Nat)
  /-- `buf_retrieveAll`. -/
  | retrieveAll
  /-- `buf_retrieveAsString`. -/
  | retrieveAsString (len : Nat)
  /-- `buf_readFd` with the outcome of its `readv`. -/
  | readFd (r : ReadvRes)

/-- What a call shows its caller. -/
inductive BufRet
  /-- Nothing. -/
  | unit
  /-- `buf_writable` after the call. -/
  | room (n : Nat)
  /-- The bytes stored in `str`. -/
  | str (s : List UInt8)
  /-- The count `buf_readFd` returns. -/
  | count (n : Int)
  deriving DecidableEq, Repr

/-- One call of the queue interface on the buffer. -/
def bufStep (b : Buffer) : BufOp → Exec (BufRet × Buffer)
  | .append d => do
    let b ← bufAppend b d
    return (.unit, b)
  | .ensureWritable len => do
    let b ← bufEnsureWritable b len
    return (.room (bufWritable b), b)
  | .write d => do
    let b ← bufBeginWriteStore b d >>= fun b => bufHasWritten b d.length
    return (.unit, b)
  | .unwrite len => do
    let b ← bufUnwrite b len
    return (.unit, b)
  | .retrieve len => do
    let b ← bufRetrieve b len
    return (.unit, b)
  | .retrieveAll => return (.unit, bufRetrieveAll b)
  | .retrieveAsString len => do
    let (s, b) ← bufRetrieveAsString b len
    return (.str s, b)
  | .readFd r => do
    let (n, _, b) ← bufReadFd b 0 r
    return (.count n, b)

/-- The length precondition a call asserts, with no `size_t` overflow; `readv` delivers at most the
total size of its iovecs. -/
def BufPre (b : Buffer) : BufOp → Prop
  | .append d => b.writeIdx + d.length < 2 ^ 64
  | .ensureWritable len => b.writeIdx + len < 2 ^ 64
  | .write d => d.length ≤ bufWritable b
  | .unwrite len => len ≤ bufReadable b
  | .retrieve len => len ≤ bufReadable b
  | .retrieveAll => True
  | .retrieveAsString len => len ≤ bufReadable b
  | .readFd (.fail _) => True
  | .readFd (.got data) => data.length ≤ bufReadvRoom b ∧ b.writeIdx + data.length < 2 ^ 64

/-- The preconditions are comparisons of sizes. -/
instance instDecidableBufPre (b : Buffer) : ∀ o, Decidable (BufPre b o)
  | .append _ => inferInstanceAs (Decidable (_ < _))
  | .ensureWritable _ => inferInstanceAs (Decidable (_ < _))
  | .write _ => inferInstanceAs (Decidable (_ ≤ _))
  | .unwrite _ => inferInstanceAs (Decidable (_ ≤ _))
  | .retrieve _ => inferInstanceAs (Decidable (_ ≤ _))
  | .retrieveAll => inferInstanceAs (Decidable True)
  | .retrieveAsString _ => inferInstanceAs (Decidable (_ ≤ _))
  | .readFd (.fail _) => inferInstanceAs (Decidable True)
  | .readFd (.got _) => inferInstanceAs (Decidable (_ ∧ _))

/-- **The abstract byte queue**: what each call does to the queue `q` and what it returns. -/
inductive QueueStep : List UInt8 → BufOp → BufRet → List UInt8 → Prop
  /-- Append adds the bytes at the end. -/
  | append (q d) : QueueStep q (.append d) .unit (q ++ d)
  /-- Ensuring room changes nothing and leaves the room asked for. -/
  | ensureWritable (q) {len n} : len ≤ n → QueueStep q (.ensureWritable len) (.room n) q
  /-- A write adds the bytes at the end. -/
  | write (q d) : QueueStep q (.write d) .unit (q ++ d)
  /-- Unwrite drops bytes from the end. -/
  | unwrite (q len) : QueueStep q (.unwrite len) .unit (q.take (q.length - len))
  /-- Retrieve drops bytes from the front. -/
  | retrieve (q len) : QueueStep q (.retrieve len) .unit (q.drop len)
  /-- Retrieving everything empties the queue. -/
  | retrieveAll (q) : QueueStep q .retrieveAll .unit []
  /-- Retrieving as a string hands out the dropped bytes, NUL-terminated. -/
  | retrieveAsString (q len) :
      QueueStep q (.retrieveAsString len) (.str (q.take len ++ [0])) (q.drop len)
  /-- A failed read changes nothing. -/
  | readFail (q e) : QueueStep q (.readFd (.fail e)) (.count (-1)) q
  /-- A read adds the delivered bytes at the end. -/
  | readGot (q data) : QueueStep q (.readFd (.got data)) (.count data.length) (q ++ data)

/-- A buffer represents a queue: the invariant holds and the readable bytes are the queue. -/
def BufRepr (b : Buffer) (q : List UInt8) : Prop := BufInv b ∧ bufBytes b = q

/-- **Every call simulates the queue**: one case per call, each by its specification lemma. -/
theorem bufStep_simulates : Simulates bufStep BufPre QueueStep BufRepr := by
  rintro b _ o ⟨h, rfl⟩ hpre
  cases o with
  | append d =>
    exact (h.append_spec hpre).bind fun b' hb' => returns_ok ⟨_, .append _ _, hb'.1, hb'.2.1⟩
  | ensureWritable len =>
    exact (h.ensureWritable_spec hpre).bind fun b' hb' =>
      returns_ok ⟨_, .ensureWritable _ hb'.2.2.1, hb'.1, hb'.2.1⟩
  | write d =>
    refine (bufBeginWriteStore_hasWritten_spec h.toBufWf hpre).bind fun b' hb' => ?_
    obtain ⟨hwf, hri, -, hbytes, -, hpz⟩ := hb'
    have hp := h.pSz_le_read
    exact returns_ok ⟨_, .write _ _, ⟨hwf, by dsimp only; omega⟩, hbytes⟩
  | unwrite len =>
    exact (h.unwrite_spec hpre).bind fun b' hb' => returns_ok ⟨_, .unwrite _ _, hb'⟩
  | retrieve len =>
    exact (h.retrieve_spec hpre).bind fun b' hb' => returns_ok ⟨_, .retrieve _ _, hb'.1, hb'.2.1⟩
  | retrieveAll => exact returns_ok ⟨_, .retrieveAll _, bufRetrieveAll_spec h.toBufWf⟩
  | retrieveAsString len =>
    refine (h.retrieveAsString_spec hpre).bind fun p hp => ?_
    obtain ⟨hs, hrepr⟩ := hp
    exact returns_ok ⟨_, hs ▸ .retrieveAsString _ _, hrepr⟩
  | readFd r =>
    cases r with
    | fail e =>
      rw [bufStep, h.readFd_fail]
      exact returns_ok ⟨_, .readFail _ _, h, rfl⟩
    | got data =>
      refine (h.readFd_spec 0 hpre.1 hpre.2).bind fun p hp => ?_
      obtain ⟨hn, -, hinv, hbytes, -⟩ := hp
      exact returns_ok ⟨_, hn ▸ .readGot _ _, hinv, hbytes⟩

/-- Every state of a run represents a queue. -/
theorem bufRun_inv {size prependSize : Nat} {b₀ b : Buffer} {ops : List BufOp} {rs : List BufRet}
    (hpos : 0 < size) (hov : size + prependSize < 2 ^ 64)
    (hcreate : bufCreateEx size prependSize = .ok b₀)
    (hadm : Admissible bufStep BufPre b₀ ops) (hrun : runOps bufStep b₀ ops = .ok (rs, b)) :
    BufInv b := by
  obtain ⟨b₁, hb₁, hinv, hbytes, -⟩ := bufCreateEx_spec hpos hov
  obtain rfl : b₁ = b₀ := Except.ok.inj (hb₁.symm.trans hcreate)
  obtain ⟨p, hp, q, -, hinv', -⟩ := bufStep_simulates.run ops ⟨hinv, hbytes⟩ hadm
  obtain rfl : p = (rs, b) := Except.ok.inj (hp.symm.trans hrun)
  exact hinv'

/-- **The buffer is a byte queue.** Every admissible run from `buf_create_ex` returns (no assertion
fails and no access leaves the block), shows its caller exactly what the abstract queue allows, and
ends with `p_sz ≤ read_idx ≤ write_idx ≤ sz` and the queue as the readable bytes. -/
theorem buffer_refines_queue (size prependSize : Nat) (b₀ : Buffer) (ops : List BufOp)
    (hpos : 0 < size) (hov : size + prependSize < 2 ^ 64)
    (hcreate : bufCreateEx size prependSize = .ok b₀)
    (hadm : Admissible bufStep BufPre b₀ ops) :
    Returns (runOps bufStep b₀ ops) fun p =>
      (∃ q, SpecRun QueueStep [] ops p.1 q ∧ bufBytes p.2 = q ∧ bufReadable p.2 = q.length)
        ∧ p.2.pSz ≤ p.2.readIdx ∧ p.2.readIdx ≤ p.2.writeIdx ∧ p.2.writeIdx ≤ p.2.sz := by
  obtain ⟨b, hb, hinv, hbytes, -⟩ := bufCreateEx_spec hpos hov
  obtain rfl : b = b₀ := Except.ok.inj (hb.symm.trans hcreate)
  refine (bufStep_simulates.run ops ⟨hinv, hbytes⟩ hadm).imp fun p hp => ?_
  obtain ⟨q, hrun, hinv', rfl⟩ := hp
  exact ⟨⟨_, hrun, rfl, hinv'.length_bufBytes.symm⟩, hinv'.pSz_le_read, hinv'.read_le_write,
    hinv'.write_le_sz⟩

/-- A run that grows the block, consumes part of the queue and compacts it. -/
theorem buffer_refines_queue_grow_compact :
    Returns (bufCreateEx 2 1 >>= fun b₀ =>
        runOps bufStep b₀ [.append [1, 2, 3], .retrieve 2, .append [4, 5]]) fun p =>
      (∃ q, SpecRun QueueStep [] [.append [1, 2, 3], .retrieve 2, .append [4, 5]] p.1 q
          ∧ bufBytes p.2 = q ∧ bufReadable p.2 = q.length)
        ∧ p.2.pSz ≤ p.2.readIdx ∧ p.2.readIdx ≤ p.2.writeIdx ∧ p.2.writeIdx ≤ p.2.sz := by
  exact buffer_refines_queue 2 1 _ _ (by decide) (by decide) rfl (by decide)

end Wee
