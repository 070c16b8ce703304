import Wee.Base.BufferFields

/-! # How an append can end

`BufInv.append_spec` says what `buf_append` does to a queue. This file has the other cases: a read
index inside the reserved front, which `buf_prepend` leaves behind, and a size that overflows. When
the bytes do not fit behind the write index, `buf_makeSpace` counts its free bytes from the reserved
front and puts the queue back behind it, so that with bytes in that front it makes too little room,
or moves where there is nothing to gain: an assertion fails either way. -/

namespace Wee

/-! ### Appending from any well-formed state -/

/-- `b'` is `b` with the bytes `d` appended: ordered indices inside the block, and `d` at the end of
the queue. -/
structure AppendedTo (b : Buffer) (d : List UInt8) (b' : Buffer) : Prop where
  /-- The read index is not past the write index. -/
  read_le_write : b'.readIdx ≤ b'.writeIdx
  /-- The write index is inside the block. -/
  write_le_sz : b'.writeIdx ≤ b'.sz
  /-- `d` stands at the end of the queue. -/
  bytes : bufBytes b' = bufBytes b ++ d

/-- The free bytes `buf_makeSpace` counts when the read index is inside the reserved front: what is
left behind the write index less the used part of the front, which wraps around when that is
negative. -/
theorem BufWf.free_of_read_lt {b : Buffer} (h : BufWf b) (hfront : b.readIdx < b.pSz) :
    szSub (szAdd (bufPrependable b) (bufWritable b)) b.pSz
      = if b.pSz ≤ b.readIdx + bufWritable b then b.readIdx + bufWritable b - b.pSz
        else b.readIdx + bufWritable b + 2 ^ 64 - b.pSz := by
  have hr := h.read_le_write
  have hw := h.write_le_sz
  have hp := h.pSz_le_sz
  have hs := h.sz_lt
  have hwr := h.writable_eq
  rw [bufPrependable, szAdd_eq (by omega)]
  by_cases hle : b.pSz ≤ b.readIdx + bufWritable b
  · rw [if_pos hle, szSub_eq hle (by omega)]
  · rw [if_neg hle]
    unfold szSub
    omega

/-- **Making space with bytes in the reserved front**: the block grows by too little, or the
assertion that there is something to gain by moving fails. -/
theorem BufWf.ensureWritable_stuck {b : Buffer} {len : Nat} (h : BufWf b)
    (hov : b.writeIdx + len < 2 ^ 64) (hlt : bufWritable b < len) (hfront : b.readIdx < b.pSz) :
    bufEnsureWritable b len = .error .assertFailed := by
  have hr := h.read_le_write
  have hw := h.write_le_sz
  have hp := h.pSz_le_sz
  have hs := h.sz_lt
  have hl := h.length_buf
  have hread := h.readable_eq
  have hwr := h.writable_eq
  have hlen := h.length_bufBytes
  have hnsz : szAdd b.writeIdx len = b.writeIdx + len := szAdd_eq hov
  rw [bufEnsureWritable, assertWrite, cassert_bind_of h.unlocked, if_pos hlt]
  by_cases hle : b.pSz ≤ b.readIdx + bufWritable b
  · -- a bigger block, in which the queue starts behind the reserved front
    have hroom : bufMakeRoom b len = .ok { b with
        buf := splice (List.replicate (b.writeIdx + len) 0) b.pSz (bufBytes b),
        sz := b.writeIdx + len } := by
      rw [bufMakeRoom, h.free_of_read_lt hfront, if_pos hle, if_pos (by omega), hnsz, bufSwap,
        cassert_bind_of (by omega), h.load_readable, exec_ok_bind,
        memStore_of_le (by rw [List.length_replicate, hlen]; omega)]
      rfl
    obtain ⟨hinv, -⟩ := bufBytes_moved h
      (m := List.replicate (b.writeIdx + len) 0) List.length_replicate (by omega) hov
    rw [bufMakeSpace_of_room hroom hinv, exec_ok_bind]
    refine cassert_bind_of_not ?_ _
    rw [hinv.writable_eq]
    dsimp only
    omega
  · -- the difference wraps around, and the move has nothing to gain
    have hroom : bufMakeRoom b len = .error .assertFailed := by
      rw [bufMakeRoom, h.free_of_read_lt hfront, if_neg hle, if_neg (by omega)]
      exact cassert_bind_of_not (by omega) _
    rw [bufMakeSpace, hroom]
    rfl

/-- Appending with bytes in the reserved front and no room behind the write index. -/
theorem BufWf.append_stuck {b : Buffer} {d : List UInt8} (h : BufWf b)
    (hov : b.writeIdx + d.length < 2 ^ 64) (hlt : bufWritable b < d.length)
    (hfront : b.readIdx < b.pSz) : bufAppend b d = .error .assertFailed := by
  rw [bufAppend, assertWrite, cassert_bind_of h.unlocked, h.ensureWritable_stuck hov hlt hfront,
    exec_error_bind]

/-- **When an append works**: exactly when the bytes fit behind the write index or no byte stands in
the reserved front. -/
theorem BufWf.append_iff {b : Buffer} {d : List UInt8} (h : BufWf b)
    (hov : b.writeIdx + d.length < 2 ^ 64) :
    Returns (bufAppend b d) (AppendedTo b d) ↔ d.length ≤ bufWritable b ∨ b.pSz ≤ b.readIdx := by
  constructor
  · rintro ⟨b', hok, -⟩
    by_contra hno
    rw [h.append_stuck hov (by omega) (by omega)] at hok
    cases hok
  · rintro (hfit | hfront)
    · refine (h.append_fits hfit).imp fun b' hb' => ?_
      exact ⟨hb'.1.read_le_write, hb'.1.write_le_sz, hb'.2.2.2.1⟩
    · refine (BufInv.append_spec ⟨h, hfront⟩ hov).imp fun b' hb' => ?_
      exact ⟨hb'.1.read_le_write, hb'.1.write_le_sz, hb'.2.1⟩

/-- An append that returns leaves a well-formed buffer. -/
theorem BufWf.append_ok {b b' : Buffer} {d : List UInt8} (h : BufWf b)
    (hov : b.writeIdx + d.length < 2 ^ 64) (hok : bufAppend b d = .ok b') : BufWf b' := by
  by_cases hfit : d.length ≤ bufWritable b
  · obtain ⟨b₁, hok₁, hwf, -⟩ := h.append_fits hfit
    obtain rfl := Except.ok.inj (hok₁.symm.trans hok)
    exact hwf
  · by_cases hfront : b.pSz ≤ b.readIdx
    · obtain ⟨b₁, hok₁, hinv, -⟩ := BufInv.append_spec ⟨h, hfront⟩ hov
      obtain rfl := Except.ok.inj (hok₁.symm.trans hok)
      exact hinv.toBufWf
    · rw [h.append_stuck hov (by omega) (by omega)] at hok
      cases hok

/-! ### Appending through a move -/

/-- Appending behind a `buf_makeSpace` that made room. -/
theorem BufWf.append_of_makeSpace {b b₁ : Buffer} {d : List UInt8} (h : BufWf b)
    (hlt : bufWritable b < d.length) (hmake : bufMakeSpace b d.length = .ok b₁) (h₁ : BufWf b₁)
    (hroom : d.length ≤ bufWritable b₁) :
    Returns (bufAppend b d) fun b' =>
      BufWf b' ∧ b'.readIdx = b₁.readIdx ∧ b'.writeIdx = b₁.writeIdx + d.length
        ∧ bufBytes b' = bufBytes b₁ ++ d ∧ b'.sz = b₁.sz ∧ b'.pSz = b₁.pSz := by
  have hens : bufEnsureWritable b d.length = .ok b₁ := by
    rw [bufEnsureWritable, assertWrite, cassert_bind_of h.unlocked, if_pos hlt, hmake, exec_ok_bind]
    exact cassert_bind_of hroom _
  rw [bufAppend, assertWrite, cassert_bind_of h.unlocked, hens, exec_ok_bind]
  exact bufBeginWriteStore_hasWritten_spec h₁ hroom

/-- Appending bytes that do not fit behind the write index: the queue starts behind the reserved
front, in the old block or in one that is sized for the old write index. -/
theorem BufInv.append_moved {b : Buffer} {d : List UInt8} (h : BufInv b)
    (hlt : bufWritable b < d.length)
    (hov : d.length ≤ b.readIdx + bufWritable b - b.pSz ∨ b.writeIdx + d.length < 2 ^ 64) :
    Returns (bufAppend b d) fun b' =>
      BufWf b' ∧ b'.readIdx = b.pSz ∧ b'.writeIdx = b.pSz + bufReadable b + d.length
        ∧ bufBytes b' = bufBytes b ++ d ∧ b'.pSz = b.pSz
        ∧ b'.sz = if d.length ≤ b.readIdx + bufWritable b - b.pSz then b.sz
            else b.writeIdx + d.length := by
  have hr := h.read_le_write
  have hw := h.write_le_sz
  have hp := h.pSz_le_read
  have hread := h.readable_eq
  have hwr := h.writable_eq
  by_cases hfree : d.length ≤ b.readIdx + bufWritable b - b.pSz
  · -- inside the block
    obtain ⟨hinv, hbytes⟩ :=
      bufBytes_moved h.toBufWf (m := b.buf) h.length_buf (by omega) h.sz_lt
    have hroom := hinv.writable_eq
    dsimp only at hroom
    refine (h.append_of_makeSpace hlt (h.makeSpace_move hlt hfree) hinv.toBufWf
      (by omega)).imp fun b' hb' => ?_
    obtain ⟨hwf, hread', hwrite', hbytes', hsz', hpSz'⟩ := hb'
    rw [if_pos hfree]
    exact ⟨hwf, hread', hwrite', by rw [hbytes', hbytes], hpSz', hsz'⟩
  · -- into a bigger block
    have hov : b.writeIdx + d.length < 2 ^ 64 := by omega
    obtain ⟨hinv, hbytes⟩ := bufBytes_moved h.toBufWf
      (m := List.replicate (b.writeIdx + d.length) 0) List.length_replicate (by omega) hov
    have hroom := hinv.writable_eq
    dsimp only at hroom
    refine (h.append_of_makeSpace hlt (h.makeSpace_grow (by omega) hov) hinv.toBufWf
      (by omega)).imp fun b' hb' => ?_
    obtain ⟨hwf, hread', hwrite', hbytes', hsz', hpSz'⟩ := hb'
    rw [if_neg hfree]
    exact ⟨hwf, hread', hwrite', by rw [hbytes', hbytes], hpSz', hsz'⟩

/-- Appending bytes that need a bigger block than a `size_t` can tell does not return. -/
theorem BufInv.append_overflow {b b' : Buffer} {d : List UInt8} (h : BufInv b)
    (hfree : b.readIdx + bufWritable b - b.pSz < d.length) (hd : d.length < 2 ^ 64)
    (hov : 2 ^ 64 ≤ b.writeIdx + d.length) : bufAppend b d ≠ .ok b' := by
  have hr := h.read_le_write
  have hw := h.write_le_sz
  have hp := h.pSz_le_read
  have hs := h.sz_lt
  have hread := h.readable_eq
  have hlen := h.length_bufBytes
  -- the size of the new block wraps around
  have hnsz : szAdd b.writeIdx d.length = b.writeIdx + d.length - 2 ^ 64 := by
    unfold szAdd
    omega
  intro hok
  rw [bufAppend, assertWrite, cassert_bind_of h.unlocked] at hok
  obtain ⟨b₁, hens, -⟩ := exec_bind_eq_ok.mp hok
  rw [bufEnsureWritable, assertWrite, cassert_bind_of h.unlocked, if_pos (by omega)] at hens
  obtain ⟨b₂, hmake, hens⟩ := exec_bind_eq_ok.mp hens
  obtain ⟨_, hroom, -⟩ := exec_bind_eq_ok.mp hens
  obtain ⟨b₃, hmake, hend⟩ := exec_bind_eq_ok.mp hmake
  rw [bufMakeRoom, h.free_eq, if_pos hfree, hnsz] at hmake
  obtain ⟨_, -, hmake⟩ := exec_bind_eq_ok.mp hmake
  rw [h.load_readable, exec_ok_bind] at hmake
  obtain ⟨m, hstore, hmake⟩ := exec_bind_eq_ok.mp hmake
  -- the bytes are in the new block, and it is smaller than the bytes to append
  obtain ⟨hfit, -⟩ := memStore_inv hstore
  rw [List.length_replicate, hlen] at hfit
  cases hmake
  obtain ⟨_, -, hend⟩ := exec_bind_eq_ok.mp hend
  cases hend
  have hlt := of_cassert hroom
  rw [bufWritable] at hlt
  dsimp only at hlt
  rw [szAdd_eq (by omega), szSub_eq hfit (by omega)] at hlt
  omega

/-- **What an append that returned has done** to a queue, whatever the sizes. -/
theorem BufInv.append_inv {b b' : Buffer} {d : List UInt8} (h : BufInv b) (hd : d.length < 2 ^ 64)
    (hok : bufAppend b d = .ok b') : BufInv b' ∧ bufBytes b' = bufBytes b ++ d := by
  have hw := h.write_le_sz
  have hs := h.sz_lt
  have hp := h.pSz_le_read
  have hwr := h.writable_eq
  by_cases hov : b.writeIdx + d.length < 2 ^ 64
  · obtain ⟨b₁, hok₁, hinv, hbytes, -⟩ := h.append_spec hov
    obtain rfl := Except.ok.inj (hok₁.symm.trans hok)
    exact ⟨hinv, hbytes⟩
  · -- the sum overflows, so that the queue has moved inside its block
    by_cases hfree : d.length ≤ b.readIdx + bufWritable b - b.pSz
    · obtain ⟨b₁, hok₁, hwf, hread, -, hbytes, hpSz, -⟩ := h.append_moved (by omega) (.inl hfree)
      obtain rfl := Except.ok.inj (hok₁.symm.trans hok)
      exact ⟨⟨hwf, by omega⟩, hbytes⟩
    · exact absurd hok (h.append_overflow (by omega) hd (by omega))

end Wee
