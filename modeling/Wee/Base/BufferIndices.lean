import Wee.Base.BufferAppend

/-! # Indices that outlive a move

`buf_makeSpace` puts the queue behind the reserved front and moves the indices with it. `buf_shrink`
moves the bytes alone, and a caller of `buf_getWriteIndex` keeps an index of the old block. Both go
wrong exactly when the queue does not start behind the reserved front (and some more cases of the
second), which this file makes precise. -/

namespace Wee

/-! ### Shrinking -/

/-- `buf_shrink` when the sizes do not overflow: the bytes move, the indices do not. -/
theorem BufInv.shrink_eq {b : Buffer} {reserve : Nat} (h : BufInv b)
    (hov : b.pSz + bufReadable b + reserve < 2 ^ 64) :
    bufShrink b reserve = .ok { b with
      buf := splice (List.replicate (b.pSz + bufReadable b + reserve) 0) b.pSz (bufBytes b),
      sz := b.pSz + bufReadable b + reserve } := by
  have hlen := h.length_bufBytes
  rw [bufShrink, assertWrite, cassert_bind_of h.unlocked, szAdd_eq (a := b.pSz) (by omega),
    szAdd_eq hov, bufSwap, cassert_bind_of (by omega), h.load_readable, exec_ok_bind,
    memStore_of_le (by rw [List.length_replicate, hlen]; omega)]
  rfl

/-- `buf_shrink` when the size overflows: the block is too small for the bytes. -/
theorem BufInv.shrink_overflow {b : Buffer} {reserve : Nat} (h : BufInv b)
    (hres : reserve < 2 ^ 64) (hov : 2 ^ 64 ≤ b.pSz + bufReadable b + reserve) :
    ∃ e, bufShrink b reserve = .error e := by
  have hr := h.read_le_write
  have hw := h.write_le_sz
  have hp := h.pSz_le_read
  have hs := h.sz_lt
  have hread := h.readable_eq
  have hlen := h.length_bufBytes
  have hnsz : szAdd (szAdd b.pSz (bufReadable b)) reserve
      = b.pSz + bufReadable b + reserve - 2 ^ 64 := by
    rw [szAdd_eq (a := b.pSz) (by omega)]
    unfold szAdd
    omega
  rw [bufShrink, assertWrite, cassert_bind_of h.unlocked, hnsz, bufSwap]
  by_cases hfit : bufReadable b ≤ b.pSz + bufReadable b + reserve - 2 ^ 64
  · rw [cassert_bind_of hfit, h.load_readable, exec_ok_bind,
      memStore_of_gt (by rw [List.length_replicate, hlen]; omega)]
    exact ⟨_, rfl⟩
  · exact ⟨_, cassert_bind_of_not hfit _⟩

/-- `buf_shrink` keeps the content of `b`: the readable bytes are the same, `reserve` bytes are
writable, the indices are ordered, and the calls made from then on do to the queue what they should.
-/
def ShrinkKeeps (b : Buffer) (reserve : Nat) : Prop :=
  Returns (bufShrink b reserve) fun b' =>
    bufBytes b' = bufBytes b ∧ bufWritable b' = reserve
      ∧ b'.readIdx ≤ b'.writeIdx ∧ b'.writeIdx ≤ b'.sz
      ∧ ∀ os, Admissible bufStep BufPre b' os →
        Returns (runOps bufStep b' os) fun p =>
          ∃ q, SpecRun QueueStep (bufBytes b) os p.1 q ∧ bufBytes p.2 = q

/-- **Shrinking a queue** keeps it exactly when it starts behind the reserved front and the size of
the new block does not overflow. -/
theorem BufInv.shrink_iff {b : Buffer} {reserve : Nat} (h : BufInv b) (hres : reserve < 2 ^ 64) :
    ShrinkKeeps b reserve ↔
      b.readIdx = b.pSz ∧ b.pSz + bufReadable b + reserve < 2 ^ 64 := by
  have hr := h.read_le_write
  have hw := h.write_le_sz
  have hp := h.pSz_le_read
  have hs := h.sz_lt
  have hread := h.readable_eq
  constructor
  · rintro ⟨b', hok, -, hwritable, -⟩
    by_cases hov : b.pSz + bufReadable b + reserve < 2 ^ 64
    · -- what is writable behind the old write index is `reserve` less the bytes retrieved
      rw [h.shrink_eq hov] at hok
      obtain rfl := Except.ok.inj hok
      rw [bufWritable, szSub] at hwritable
      dsimp only at hwritable
      exact ⟨by omega, hov⟩
    · obtain ⟨e, he⟩ := h.shrink_overflow hres (by omega)
      rw [he] at hok
      cases hok
  · rintro ⟨hfront, hov⟩
    obtain ⟨hinv, hbytes⟩ := bufBytes_moved h.toBufWf
      (m := List.replicate (b.pSz + bufReadable b + reserve) 0) List.length_replicate (by omega) hov
    -- the old indices are those of the moved bytes
    have hwrite : b.pSz + bufReadable b = b.writeIdx := by omega
    rw [hwrite, ← hfront] at hinv hbytes
    have hshrink := h.shrink_eq hov
    rw [hwrite, ← hfront] at hshrink
    refine ⟨_, hshrink, hbytes, ?_, hinv.read_le_write, hinv.write_le_sz, fun os hadm => ?_⟩
    · rw [hinv.writable_eq]
      dsimp only
      omega
    · refine (bufStep_simulates.run os ⟨hinv, rfl⟩ hadm).imp fun p hp => ?_
      obtain ⟨q, hspec, -, hq⟩ := hp
      rw [hbytes] at hspec
      exact ⟨q, hspec, hq⟩

/-- **`buf_shrink` in every state of every run.** -/
theorem shrink_keeps_iff {size prependSize reserve : Nat} {b₀ b : Buffer} {os : List BufOp}
    {rs : List BufRet} (hpos : 0 < size) (hov : size + prependSize < 2 ^ 64)
    (hcreate : bufCreateEx size prependSize = .ok b₀) (hadm : Admissible bufStep BufPre b₀ os)
    (hrun : runOps bufStep b₀ os = .ok (rs, b)) (hres : reserve < 2 ^ 64) :
    ShrinkKeeps b reserve ↔ b.readIdx = b.pSz ∧ b.pSz + bufReadable b + reserve < 2 ^ 64 :=
  (bufRun_inv hpos hov hcreate hadm hrun).shrink_iff hres

/-- Shrinking behind an append. -/
theorem shrink_keeps_iff_append :
    ∃ b₀ rs b, bufCreateEx 4 4 = .ok b₀ ∧ runOps bufStep b₀ [.append [1, 2, 3]] = .ok (rs, b)
      ∧ (ShrinkKeeps b 2 ↔ b.readIdx = b.pSz ∧ b.pSz + bufReadable b + 2 < 2 ^ 64) := by
  refine ⟨_, _, _, rfl, rfl, ?_⟩
  exact shrink_keeps_iff (by decide) (by decide) (show bufCreateEx 4 4 = .ok _ from rfl)
    (by decide) (show runOps bufStep _ [.append [1, 2, 3]] = .ok _ from rfl) (by decide)

/-- **Shrinking loses bytes**: with one byte retrieved, the rest moves in front of the read
index. -/
theorem shrink_keeps_fails :
    ∃ b₀ rs b, bufCreateEx 4 4 = .ok b₀
      ∧ Admissible bufStep BufPre b₀ [.append [1, 2, 3], .retrieve 1]
      ∧ runOps bufStep b₀ [.append [1, 2, 3], .retrieve 1] = .ok (rs, b)
      ∧ bufBytes b = [2, 3]
      ∧ (Returns (bufShrink b 2) fun b' => bufBytes b' = [3, 0] ∧ bufWritable b' = 1)
      ∧ ¬ ShrinkKeeps b 2 := by
  refine ⟨_, _, _, rfl, by decide, rfl, rfl, by decide, ?_⟩
  rintro ⟨b', hok, hbytes, -⟩
  obtain rfl := Except.ok.inj hok
  revert hbytes
  decide

/-! ### Reserve, append, patch, restore -/

/-- Leave room for `patch` at the end, append `d`, go back and fill in `patch`, and go to the end
again. -/
def bufReservePatch (b : Buffer) (patch d : List UInt8) : Exec Buffer := do
  let s := bufGetWriteIndex b
  let b ← bufSetWriteIndex b (szAdd s patch.length)
  let b ← bufAppend b d
  let e := bufGetWriteIndex b
  let b ← bufSetWriteIndex b s
  let b ← bufAppend b patch
  bufSetWriteIndex b e

/-- A patch written `shift` positions too far does no harm: the bytes that were there before are the
patch as far as they are not written over, and what is written over is the patch once more. `stale`
are the bytes in the room left for the patch. -/
def ShiftHarmless (shift : Nat) (stale patch d : List UInt8) : Prop :=
  stale.take shift = patch.take shift
    ∧ ((patch ++ d).drop shift).take patch.length
      = patch.take (patch.length + d.length - shift)

/-- **What a shifted patch leaves**: `patch` and `d` exactly when the shift does no harm. -/
theorem shiftHarmless_iff {shift : Nat} {stale patch d : List UInt8}
    (hlen : stale.length = patch.length) :
    ((stale ++ d).take shift ++ patch ++ (stale ++ d).drop (shift + patch.length)).take
        (patch.length + d.length) = patch ++ d
      ↔ ShiftHarmless shift stale patch d := by
  simp only [ShiftHarmless, List.ext_getElem?_iff, List.getElem?_take, List.getElem?_append,
    List.getElem?_drop, List.length_take, List.length_append]
  constructor
  · intro hall
    refine ⟨fun i => ?_, fun i => ?_⟩
    · have := hall i
      grind
    · have := hall (shift + i)
      grind
  · rintro ⟨hfront, hover⟩ i
    have := hfront i
    have := hover (i - shift)
    grind

/-- A patch in its place does no harm. -/
theorem shiftHarmless_zero (stale patch d : List UInt8) : ShiftHarmless 0 stale patch d := by
  refine ⟨rfl, ?_⟩
  rw [List.drop_zero, List.take_left, Nat.sub_zero, List.take_of_length_le (by omega)]

/-- `buf_setWriteIndex` inside the block. -/
theorem BufWf.setWriteIndex_ok {b : Buffer} {i : Nat} (h : BufWf b) (hlo : b.readIdx ≤ i)
    (hhi : i < b.sz) : bufSetWriteIndex b i = .ok { b with writeIdx := i } := by
  rw [bufSetWriteIndex, assertWrite, cassert_bind_of h.unlocked, cassert_bind_of ⟨hlo, hhi⟩]
  rfl

/-- The write index moved inside the block. -/
theorem BufWf.withWriteIndex {b : Buffer} {i : Nat} (h : BufWf b) (hlo : b.readIdx ≤ i)
    (hhi : i < b.sz) : BufWf { b with writeIdx := i } :=
  { h with read_le_write := hlo, write_le_sz := Nat.le_of_lt hhi }

/-- The append of a patch at the index `s`, which is `shift` bytes past the end of the old queue:
what the block then holds up to the old write index. -/
theorem BufWf.patched {b : Buffer} {s : Nat} {old stale patch d : List UInt8} (h : BufWf b)
    (shift : Nat) (hbytes : bufBytes b = old ++ (stale ++ d)) (hlen : stale.length = patch.length)
    (hs : b.readIdx + old.length + shift = s) (hlt : s < b.sz) (hfit : s + patch.length ≤ b.sz) :
    Returns (bufAppend { b with writeIdx := s } patch) fun b₂ =>
      BufWf b₂ ∧ b₂.readIdx = b.readIdx ∧ b₂.sz = b.sz
        ∧ slice b₂.buf b.readIdx (b.writeIdx - b.readIdx)
          = old ++ ((stale ++ d).take shift ++ patch
              ++ (stale ++ d).drop (shift + patch.length)).take (patch.length + d.length) := by
  have hr := h.read_le_write
  have hw := h.write_le_sz
  have hl := h.length_buf
  have hread := h.readable_eq
  have hlength := h.length_bufBytes
  have hall : b.writeIdx - b.readIdx = old.length + (patch.length + d.length) := by
    rw [hbytes, List.length_append, List.length_append] at hlength
    omega
  have h₁ := h.withWriteIndex (i := s) (by omega) hlt
  have hroom := h₁.writable_eq
  dsimp only at hroom
  obtain ⟨b₂, hok, hwf, hread₂, -, -, hsz₂, -⟩ := h₁.append_fits (d := patch) (by omega)
  refine ⟨b₂, hok, hwf, hread₂, hsz₂, ?_⟩
  have hbuf : b₂.buf = splice b.buf s patch := h₁.append_fits_buf (by omega) hok
  have hoff : s - b.readIdx = old.length + shift := by omega
  have hslice : slice b.buf b.readIdx (b.writeIdx - b.readIdx) = old ++ (stale ++ d) := hbytes
  rw [hbuf, slice_splice_over (by omega) (by omega) (by omega), hslice, hoff, Nat.add_assoc,
    List.take_length_add_append, List.drop_length_add_append, List.append_assoc,
    List.append_assoc, hall, List.take_length_add_append, List.append_assoc]

/-- **The second half**: the patch is written at the saved index `s`, and the write index is put
back to the end of the queue. -/
theorem BufWf.patch_iff {b : Buffer} {s : Nat} {old stale patch d : List UInt8} (h : BufWf b)
    (shift : Nat) (hbytes : bufBytes b = old ++ (stale ++ d)) (hlen : stale.length = patch.length)
    (hs : b.readIdx + old.length + shift = s) (hlt : s < b.sz) (hfit : s + patch.length ≤ b.sz) :
    (Returns (bufSetWriteIndex b s >>= fun b₁ => bufAppend b₁ patch >>= fun b₂ =>
        bufSetWriteIndex b₂ b.writeIdx) fun b' => bufBytes b' = old ++ (patch ++ d))
      ↔ b.writeIdx < b.sz ∧ ShiftHarmless shift stale patch d := by
  have hr := h.read_le_write
  obtain ⟨b₂, hok, hwf, hread₂, hsz₂, hover⟩ := h.patched shift hbytes hlen hs hlt hfit
  rw [h.setWriteIndex_ok (by omega) hlt, exec_ok_bind, hok, exec_ok_bind]
  by_cases hend : b.writeIdx < b.sz
  · rw [hwf.setWriteIndex_ok (by omega) (by omega)]
    constructor
    · rintro ⟨b', hb', hq⟩
      obtain rfl := Except.ok.inj hb'
      rw [bufBytes] at hq
      dsimp only at hq
      rw [hread₂, hover, List.append_cancel_left_eq, shiftHarmless_iff hlen] at hq
      exact ⟨hend, hq⟩
    · rintro ⟨-, hharm⟩
      refine returns_ok ?_
      rw [bufBytes]
      dsimp only
      rw [hread₂, hover, (shiftHarmless_iff hlen).mpr hharm]
  · -- the saved end is the end of the block, which the strict bound refuses
    rw [bufSetWriteIndex, assertWrite, cassert_bind_of hwf.unlocked,
      cassert_bind_of_not (by omega)]
    constructor
    · rintro ⟨b', hb', -⟩
      cases hb'
    · rintro ⟨hlt', -⟩
      exact absurd hlt' hend

/-- **When a patch gets to its place**: the patch and `d` leave a byte of the block free; or they do
not fit behind the write index, so that the queue moves `shift` bytes to the front, their end is not
the end of the block the append leaves, and the shift does no harm. -/
def PatchSafe (b : Buffer) (patch d : List UInt8) : Prop :=
  patch.length + d.length < bufWritable b
    ∨ bufWritable b < patch.length + d.length
      ∧ b.pSz < b.readIdx
      ∧ patch.length + d.length ≠ b.readIdx - b.pSz + bufWritable b
      ∧ (patch.length + d.length < b.readIdx - b.pSz + bufWritable b
          ∨ b.writeIdx + patch.length + d.length < 2 ^ 64)
      ∧ ShiftHarmless (b.readIdx - b.pSz) (slice b.buf b.writeIdx patch.length) patch d

section Reserve

variable {b : Buffer} {patch d : List UInt8}

/-- The room for a patch is made of the stale bytes behind the queue. -/
theorem BufInv.reserve {k : Nat} (h : BufInv b) (hk : k < bufWritable b) :
    BufInv { b with writeIdx := b.writeIdx + k }
      ∧ bufBytes { b with writeIdx := b.writeIdx + k } = bufBytes b ++ slice b.buf b.writeIdx k := by
  have hr := h.read_le_write
  have hw := h.write_le_sz
  have hwr := h.writable_eq
  refine ⟨⟨h.withWriteIndex (by omega) (by omega), h.pSz_le_read⟩, ?_⟩
  have hsum : b.writeIdx + k - b.readIdx = b.writeIdx - b.readIdx + k := by omega
  have hend : b.readIdx + (b.writeIdx - b.readIdx) = b.writeIdx := by omega
  rw [bufBytes, bufBytes]
  dsimp only
  rw [hsum, ← slice_append, hend]

/-- As many stale bytes as the patch has. -/
theorem BufInv.length_stale (h : BufInv b) (hk : patch.length < bufWritable b) :
    (slice b.buf b.writeIdx patch.length).length = patch.length := by
  have hl := h.length_buf
  have hwr := h.writable_eq
  exact length_slice (by omega)

/-- The append behind the room, and then the second half. -/
theorem BufInv.reservePatch_eq (h : BufInv b) (hk : patch.length < bufWritable b) :
    bufReservePatch b patch d
      = bufAppend { b with writeIdx := b.writeIdx + patch.length } d >>= fun b₁ =>
        bufSetWriteIndex b₁ b.writeIdx >>= fun b₂ => bufAppend b₂ patch >>= fun b₃ =>
          bufSetWriteIndex b₃ b₁.writeIdx := by
  have hr := h.read_le_write
  have hs := h.sz_lt
  have hwr := h.writable_eq
  rw [bufReservePatch, bufGetWriteIndex, szAdd_eq (by omega),
    h.setWriteIndex_ok (by omega) (by omega), exec_ok_bind]
  rfl

/-- **Nothing moves**: the patch gets to its place when a byte of the block stays free. -/
theorem BufInv.reservePatch_stays (h : BufInv b) (hk : patch.length < bufWritable b)
    (hfit : patch.length + d.length ≤ bufWritable b) :
    (Returns (bufReservePatch b patch d) fun b' => bufBytes b' = bufBytes b ++ (patch ++ d))
      ↔ patch.length + d.length < bufWritable b := by
  have hr := h.read_le_write
  have hw := h.write_le_sz
  have hwr := h.writable_eq
  have hread := h.readable_eq
  have hlen := h.length_bufBytes
  obtain ⟨h₁, hbytes₁⟩ := h.reserve hk
  have hwr₁ := h₁.writable_eq
  dsimp only at hwr₁
  obtain ⟨b₂, hok, hwf, hread₂, hwrite₂, hbytes₂, hsz₂, -⟩ :=
    h₁.toBufWf.append_fits (d := d) (by omega)
  dsimp only at hread₂ hwrite₂ hsz₂
  rw [hbytes₁, List.append_assoc] at hbytes₂
  rw [h.reservePatch_eq hk, hok, exec_ok_bind,
    hwf.patch_iff 0 hbytes₂ (h.length_stale hk) (by omega) (by omega) (by omega)]
  constructor
  · rintro ⟨hend, -⟩
    omega
  · intro hroom
    exact ⟨by omega, shiftHarmless_zero _ _ _⟩

/-- **The queue moves to the reserved front**, and the saved index does not: the patch gets to its
place when there is a byte behind the end of the queue and the shift does no harm. -/
theorem BufInv.reservePatch_moves (h : BufInv b) (hk : patch.length < bufWritable b)
    (hno : bufWritable b < patch.length + d.length)
    (hov : patch.length + d.length ≤ b.readIdx - b.pSz + bufWritable b
      ∨ b.writeIdx + patch.length + d.length < 2 ^ 64) :
    (Returns (bufReservePatch b patch d) fun b' => bufBytes b' = bufBytes b ++ (patch ++ d))
      ↔ b.pSz < b.readIdx ∧ patch.length + d.length ≠ b.readIdx - b.pSz + bufWritable b
        ∧ ShiftHarmless (b.readIdx - b.pSz) (slice b.buf b.writeIdx patch.length) patch d := by
  have hr := h.read_le_write
  have hw := h.write_le_sz
  have hp := h.pSz_le_read
  have hwr := h.writable_eq
  have hread := h.readable_eq
  have hlen := h.length_bufBytes
  obtain ⟨h₁, hbytes₁⟩ := h.reserve hk
  have hwr₁ := h₁.writable_eq
  have hread₁ := h₁.readable_eq
  dsimp only at hwr₁ hread₁
  obtain ⟨b₂, hok, hwf, hread₂, hwrite₂, hbytes₂, -, hsz₂⟩ :=
    h₁.append_moved (d := d) (by omega) (by dsimp only; omega)
  dsimp only at hread₂ hwrite₂ hsz₂
  rw [hbytes₁, List.append_assoc] at hbytes₂
  -- the block stays, or it grows to the size that is needed
  have hsize : (patch.length + d.length ≤ b.readIdx - b.pSz + bufWritable b ∧ b₂.sz = b.sz)
      ∨ (b.readIdx - b.pSz + bufWritable b < patch.length + d.length
        ∧ b₂.sz = b.writeIdx + patch.length + d.length) := by
    by_cases hfree : patch.length + d.length ≤ b.readIdx - b.pSz + bufWritable b
    · rw [if_pos (by omega)] at hsz₂
      exact Or.inl ⟨hfree, hsz₂⟩
    · rw [if_neg (by omega)] at hsz₂
      exact Or.inr ⟨by omega, hsz₂⟩
  rw [h.reservePatch_eq hk, hok, exec_ok_bind,
    hwf.patch_iff (b.readIdx - b.pSz) hbytes₂ (h.length_stale hk) (by omega) (by omega) (by omega)]
  constructor
  · rintro ⟨hend, hharm⟩
    exact ⟨by omega, by omega, hharm⟩
  · rintro ⟨hfront, hne, hharm⟩
    exact ⟨by omega, hharm⟩

/-- **The bigger block has no size**: the append does not return. -/
theorem BufInv.reservePatch_overflows (h : BufInv b) (hk : patch.length < bufWritable b)
    (hd : d.length < 2 ^ 64) {P : Buffer → Prop}
    (hno : b.readIdx - b.pSz + bufWritable b < patch.length + d.length)
    (hov : 2 ^ 64 ≤ b.writeIdx + patch.length + d.length) :
    ¬ Returns (bufReservePatch b patch d) P := by
  have hr := h.read_le_write
  have hp := h.pSz_le_read
  have hw := h.write_le_sz
  have hwr := h.writable_eq
  obtain ⟨h₁, -⟩ := h.reserve hk
  have hwr₁ := h₁.writable_eq
  dsimp only at hwr₁
  rw [h.reservePatch_eq hk]
  rintro ⟨b', hok, -⟩
  obtain ⟨b₂, happ, -⟩ := exec_bind_eq_ok.mp hok
  exact h₁.append_overflow (by dsimp only; omega) hd (by dsimp only; omega) happ

/-- **Reserve, append, patch, restore** on a queue. -/
theorem BufInv.reservePatch_iff (h : BufInv b) (hk : patch.length < bufWritable b)
    (hd : d.length < 2 ^ 64) :
    (Returns (bufReservePatch b patch d) fun b' => bufBytes b' = bufBytes b ++ (patch ++ d))
      ↔ PatchSafe b patch d := by
  rw [PatchSafe]
  by_cases hfit : patch.length + d.length ≤ bufWritable b
  · rw [h.reservePatch_stays hk hfit]
    constructor
    · exact Or.inl
    · rintro (hroom | ⟨hno, -⟩)
      · exact hroom
      · exact absurd hno (by omega)
  · by_cases hov : patch.length + d.length ≤ b.readIdx - b.pSz + bufWritable b
        ∨ b.writeIdx + patch.length + d.length < 2 ^ 64
    · rw [h.reservePatch_moves hk (by omega) hov]
      constructor
      · rintro ⟨hfront, hne, hharm⟩
        exact Or.inr ⟨by omega, hfront, hne, by omega, hharm⟩
      · rintro (hroom | ⟨-, hfront, hne, -, hharm⟩)
        · exact absurd hroom (by omega)
        · exact ⟨hfront, hne, hharm⟩
    · constructor
      · intro hret
        exact absurd hret (h.reservePatch_overflows hk hd (by omega) (by omega))
      · rintro (hroom | ⟨-, -, -, hsize, -⟩)
        · exact absurd hroom (by omega)
        · exact absurd hsize (by omega)

end Reserve

/-- **Reserve, append, patch, restore in every state of every run.** -/
theorem reserve_patch_iff {size prependSize : Nat} {b₀ b : Buffer} {os : List BufOp}
    {rs : List BufRet} {patch d : List UInt8} (hpos : 0 < size) (hov : size + prependSize < 2 ^ 64)
    (hcreate : bufCreateEx size prependSize = .ok b₀) (hadm : Admissible bufStep BufPre b₀ os)
    (hrun : runOps bufStep b₀ os = .ok (rs, b)) (hk : patch.length < bufWritable b)
    (hd : d.length < 2 ^ 64) :
    (Returns (bufReservePatch b patch d) fun b' => bufBytes b' = bufBytes b ++ (patch ++ d))
      ↔ PatchSafe b patch d :=
  (bufRun_inv hpos hov hcreate hadm hrun).reservePatch_iff hk hd

/-- A patch of two bytes in front of a string, in a fresh buffer of ten. -/
theorem reserve_patch_iff_fresh :
    ∃ b₀, bufCreateEx 10 8 = .ok b₀ ∧
      ((Returns (bufReservePatch b₀ [58, 58] [72, 69, 76, 76, 79]) fun b' =>
          bufBytes b' = bufBytes b₀ ++ ([58, 58] ++ [72, 69, 76, 76, 79]))
        ↔ PatchSafe b₀ [58, 58] [72, 69, 76, 76, 79]) := by
  refine ⟨_, rfl, ?_⟩
  exact reserve_patch_iff (by decide) (by decide) (show bufCreateEx 10 8 = .ok _ from rfl)
    (by decide) (show runOps bufStep _ [] = .ok _ from rfl) (by decide) (by decide)

/-- **The patch goes wrong**: where the append fills the block to its end the restored index is
refused, and where it moves the queue the patch lands on the appended bytes. -/
theorem reserve_patch_fails :
    (∃ b₀, bufCreateEx 10 8 = .ok b₀
      ∧ bufReservePatch b₀ [58, 58] [1, 2, 3, 4, 5, 6, 7, 8] = .error .assertFailed)
      ∧ ∃ b₀ rs b, bufCreateEx 10 8 = .ok b₀
        ∧ Admissible bufStep BufPre b₀ [.append [1, 2, 3, 4], .retrieve 3]
        ∧ runOps bufStep b₀ [.append [1, 2, 3, 4], .retrieve 3] = .ok (rs, b)
        ∧ [58, 59].length < bufWritable b ∧ bufBytes b = [4]
        ∧ (Returns (bufReservePatch b [58, 59] [5, 6, 7, 8, 9]) fun b' =>
            bufBytes b' = [4, 0, 0, 5, 58, 59, 8, 9])
        ∧ ¬ Returns (bufReservePatch b [58, 59] [5, 6, 7, 8, 9]) fun b' =>
            bufBytes b' = bufBytes b ++ ([58, 59] ++ [5, 6, 7, 8, 9]) := by
  refine ⟨⟨_, rfl, rfl⟩, _, _, _, rfl, by decide, rfl, by decide, rfl, by decide, ?_⟩
  decide

end Wee
