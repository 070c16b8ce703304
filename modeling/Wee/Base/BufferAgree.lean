import Wee.Base.BufferFields
import Wee.Base.Buffer2
import Wee.Base.View

/-! # The two buffers agree

`SameBuffer b p` says that the pointers of `p` are the indices of `b` behind the address of the
block, and that everything else is the same. Every operation keeps it, in lockstep, as long as no
size wraps around: then the pointers, which are compared where `buffer.c` compares indices, are in
the same order as these. -/

namespace Wee

/-- **The same buffer**, with indices and with pointers. -/
structure SameBuffer (b : Buffer) (p : Buffer2) : Prop where
  /-- The indices are in order, inside the block. -/
  wf : BufWf b
  /-- The block lies in the address space. -/
  fits : p.buf + b.sz < 2 ^ 64
  /-- `read_idx`. -/
  readIdx : p.readIdx = p.buf + b.readIdx
  /-- `write_idx`. -/
  writeIdx : p.writeIdx = p.buf + b.writeIdx
  /-- `sz`. -/
  sz : p.sz = b.sz
  /-- `p_sz`. -/
  pSz : p.pSz = b.pSz
  /-- The bytes. -/
  mem : p.mem = b.buf

/-- The distance of two addresses behind the same one. -/
theorem szSub_base {a n m : Nat} (h : a + n < 2 ^ 64) (hm : m ≤ n) :
    szSub (a + n) (a + m) = n - m := by
  rw [szSub_eq (by omega) h]
  omega

/-- `memmem` finds its string inside. -/
theorem le_of_memmem {needle hay : List UInt8} {i : Nat} (h : memmem needle hay = some i) :
    i ≤ hay.length := by
  induction hay generalizing i with
  | nil =>
    rw [memmem] at h
    split at h
    · exact (Option.some.inj h).symm.le
    · cases h
  | cons c hay ih =>
    rw [memmem] at h
    split at h
    · exact (Option.some.inj h).symm.le.trans (Nat.zero_le _)
    · obtain ⟨j, hj, rfl⟩ := Option.map_eq_some_iff.mp h
      exact Nat.succ_le_succ (ih hj)

/-- The block that `buf_makeSpace` asks `malloc` for, if it does: its size does not wrap around, and
at `addr` it lies in the address space. -/
def GrowthFits (b : Buffer) (len addr : Nat) : Prop :=
  bufSwaps b len = true → addr + (b.writeIdx + len) < 2 ^ 64

/-- The block that `buf_readFd` may ask `malloc` for, with a full block before. -/
def ReadFdFits (b : Buffer) (r : ReadvRes) (addr : Nat) : Prop :=
  match r with
  | .fail _ => True
  | .got data =>
    let data := data.take (bufReadvRoom b)
    bufWritable b < data.length →
      GrowthFits { b with writeIdx := b.sz } (data.length - bufWritable b) addr

instance (b : Buffer) (len addr : Nat) : Decidable (GrowthFits b len addr) :=
  inferInstanceAs (Decidable (_ → _))

instance instDecidableReadFdFits (b : Buffer) (addr : Nat) : ∀ r, Decidable (ReadFdFits b r addr)
  | .fail _ => inferInstanceAs (Decidable True)
  | .got _ => inferInstanceAs (Decidable (_ → _))

/-- Between the copy of `n` readable bytes and the reset of the indices. -/
structure RoomMade (n : Nat) (b : Buffer) (p : Buffer2) : Prop where
  /-- The bytes fit behind the reserved front. -/
  room : b.pSz + n ≤ b.sz
  /-- The size of the block. -/
  length_buf : b.buf.length = b.sz
  /-- The block lies in the address space. -/
  fits : p.buf + b.sz < 2 ^ 64
  /-- No view locks the buffer. -/
  unlocked : bufWriteLocked b = false
  /-- `sz`. -/
  sz : p.sz = b.sz
  /-- `p_sz`. -/
  pSz : p.pSz = b.pSz
  /-- The bytes. -/
  mem : p.mem = b.buf

namespace SameBuffer

variable {b : Buffer} {p : Buffer2}

/-- An address in the block. -/
theorem add_eq (h : SameBuffer b p) {n : Nat} (hn : n ≤ b.sz) : szAdd p.buf n = p.buf + n :=
  szAdd_eq (by have := h.fits; omega)

/-- The distance of an address in the block from its start. -/
theorem sub_buf (h : SameBuffer b p) {n : Nat} (hn : n ≤ b.sz) : szSub (p.buf + n) p.buf = n :=
  szSub_base (a := p.buf) (m := 0) (by have := h.fits; omega) (Nat.zero_le n)

/-- The read index is inside the block. -/
theorem read_le_sz (h : SameBuffer b p) : b.readIdx ≤ b.sz :=
  h.wf.read_le_write.trans h.wf.write_le_sz

/-- `buf_readable`. -/
theorem readable_eq (h : SameBuffer b p) : buf2Readable p = bufReadable b := by
  have hfits := h.fits
  have hw := h.wf.write_le_sz
  rw [buf2Readable, h.readIdx, h.writeIdx, szSub_base (by omega) h.wf.read_le_write,
    h.wf.readable_eq]

/-- `buf_writable`. -/
theorem writable_eq (h : SameBuffer b p) : buf2Writable p = bufWritable b := by
  rw [buf2Writable, h.sz, h.writeIdx, h.add_eq (Nat.le_refl _), szSub_base h.fits h.wf.write_le_sz,
    h.wf.writable_eq]

/-- `buf_prependable`. -/
theorem prependable_eq (h : SameBuffer b p) : buf2Prependable p = bufPrependable b := by
  rw [buf2Prependable, h.readIdx, h.sub_buf h.read_le_sz, bufPrependable]

/-- **What can be seen is the same.** -/
theorem view_eq (h : SameBuffer b p) : bufView b = buf2View p := by
  rw [bufView, buf2View, h.readable_eq, h.writable_eq, h.prependable_eq, h.readIdx,
    h.sub_buf h.read_le_sz, h.mem, bufInternalCapacity, buf2InternalCapacity, h.sz]

/-- A load at a pointer into the block. -/
theorem load_eq (h : SameBuffer b p) {n : Nat} (hn : n ≤ b.sz) (len : Nat) :
    p.load (p.buf + n) len = memLoad b.buf n len := by
  rw [Buffer2.load, h.sub_buf hn, h.mem]

/-- A load at the read pointer. -/
theorem load_read (h : SameBuffer b p) (len : Nat) :
    p.load p.readIdx len = memLoad b.buf b.readIdx len := by
  rw [h.readIdx, h.load_eq h.read_le_sz]

/-- New indices inside the block. -/
theorem move (h : SameBuffer b p) {r w r' w' : Nat} (hrw : r ≤ w) (hw : w ≤ b.sz)
    (hr' : r' = p.buf + r) (hw' : w' = p.buf + w) :
    SameBuffer { b with readIdx := r, writeIdx := w } { p with readIdx := r', writeIdx := w' } :=
  { h with
    wf := { h.wf with read_le_write := hrw, write_le_sz := hw }, readIdx := hr', writeIdx := hw' }

/-- New bytes in the block. -/
theorem splice (h : SameBuffer b p) {m : List UInt8} (hm : m.length = b.buf.length) :
    SameBuffer { b with buf := m } { p with mem := m } :=
  { h with wf := { h.wf with length_buf := hm.trans h.wf.length_buf }, mem := rfl }

/-- A store at a pointer into the block changes nothing but the bytes. -/
theorem store (h : SameBuffer b p) {n : Nat} (hn : n ≤ b.sz) (d : List UInt8) :
    Lockstep (fun b' p' => SameBuffer b' p' ∧ ∃ m, b' = { b with buf := m })
      (memStore b.buf n d >>= fun m => .ok { b with buf := m }) (p.store (p.buf + n) d) := by
  rw [Buffer2.store, h.sub_buf hn, h.mem]
  exact lockstep_bind_same _ fun m hm => ⟨h.splice (memStore_inv hm).2, m, rfl⟩

/-! ### Operations that do not allocate -/


/-- `buf_beginWrite`, and a store through it. -/
theorem beginWriteStore (h : SameBuffer b p) (d : List UInt8) :
    Lockstep (fun b' p' => SameBuffer b' p' ∧ ∃ m, b' = { b with buf := m })
      (bufBeginWriteStore b d) (buf2BeginWriteStore p d) := by
  rw [buf2BeginWriteStore, h.writeIdx]
  exact h.store h.wf.write_le_sz d

/-- `buf_has_written`. -/
theorem hasWritten (h : SameBuffer b p) (len : Nat) :
    Lockstep SameBuffer (bufHasWritten b len) (buf2HasWritten p len) := by
  have hfits := h.fits
  have hw := h.wf.write_le_sz
  refine lockstep_cassert_bind (by rw [h.writable_eq]) fun hlen => ?_
  rw [h.wf.writable_eq] at hlen
  refine h.move (h.wf.read_le_write.trans ?_) ?_ h.readIdx ?_
  · rw [szAdd_eq (by omega)]
    exact Nat.le_add_right _ _
  · rw [szAdd_eq (by omega)]
    omega
  · rw [h.writeIdx, szAdd_eq (by omega), szAdd_eq (by omega), Nat.add_assoc]

/-- `buf_unwrite`. -/
theorem unwrite (h : SameBuffer b p) (len : Nat) :
    Lockstep SameBuffer (bufUnwrite b len) (buf2Unwrite p len) := by
  have hfits := h.fits
  have hw := h.wf.write_le_sz
  rw [bufUnwrite, assertWrite, cassert_bind_of h.wf.unlocked]
  refine lockstep_cassert_bind (by rw [h.readable_eq]) fun hlen => ?_
  rw [h.wf.readable_eq] at hlen
  have hread := h.wf.read_le_write
  have hidx : szSub b.writeIdx len = b.writeIdx - len := szSub_eq (by omega) (by omega)
  refine h.move ?_ ?_ h.readIdx ?_
  · rw [hidx]
    omega
  · rw [hidx]
    omega
  · rw [hidx, h.writeIdx, szSub_eq (by omega) (by omega)]
    omega

/-- `buf_retrieveAll`. -/
theorem retrieveAll (h : SameBuffer b p) : SameBuffer (bufRetrieveAll b) (buf2RetrieveAll p) := by
  have hreset : szAdd p.buf p.pSz = p.buf + b.pSz := by
    rw [h.pSz, h.add_eq h.wf.pSz_le_sz]
  exact h.move (Nat.le_refl _) h.wf.pSz_le_sz hreset hreset

/-- `buf_retrieve`. -/
theorem retrieve (h : SameBuffer b p) (len : Nat) :
    Lockstep SameBuffer (bufRetrieve b len) (buf2Retrieve p len) := by
  have hfits := h.fits
  have hw := h.wf.write_le_sz
  refine lockstep_cassert_bind (by rw [h.readable_eq]) fun _ => ?_
  rw [h.readable_eq]
  by_cases hlt : len < bufReadable b
  · rw [if_pos hlt, if_pos hlt]
    rw [h.wf.readable_eq] at hlt
    refine h.move ?_ hw ?_ h.writeIdx
    · rw [szAdd_eq (by omega)]
      omega
    · rw [h.readIdx, szAdd_eq (by omega), szAdd_eq (by omega), Nat.add_assoc]
  · rw [if_neg hlt, if_neg hlt]
    exact h.retrieveAll

/-- `buf_retrieveAsString`. -/
theorem retrieveAsString (h : SameBuffer b p) (len : Nat) :
    Lockstep (fun r q => r.1 = q.1 ∧ SameBuffer r.2 q.2) (bufRetrieveAsString b len)
      (buf2RetrieveAsString p len) := by
  rw [bufRetrieveAsString, buf2RetrieveAsString, h.load_read]
  exact lockstep_bind_same _ fun d _ => (h.retrieve len).bind fun b' p' h' => ⟨rfl, h'⟩

/-- `buf_retrieveUntil`: pointers into the block are in the order of their distances. -/
theorem retrieveUntil (h : SameBuffer b p) {e : Nat} (he : e ≤ b.sz) :
    Lockstep SameBuffer (bufRetrieveUntil b e) (buf2RetrieveUntil p (szAdd p.buf e)) := by
  have hfits := h.fits
  rw [bufRetrieveUntil, buf2RetrieveUntil, h.add_eq he, h.readIdx, h.writeIdx]
  refine lockstep_cassert_bind (Nat.add_le_add_iff_left).symm fun hread =>
    lockstep_cassert_bind (Nat.add_le_add_iff_left).symm fun _ => ?_
  rw [szSub_base (by omega) hread, szSub_eq hread (by omega)]
  exact h.retrieve _

/-- `buf_prepend`. -/
theorem prepend (h : SameBuffer b p) (d : List UInt8) :
    Lockstep SameBuffer (bufPrepend b d) (buf2Prepend p d) := by
  have hfits := h.fits
  have hread := h.read_le_sz
  refine lockstep_cassert_bind (by rw [h.prependable_eq]) fun hlen => ?_
  rw [bufPrependable] at hlen
  have hidx : szSub b.readIdx d.length = b.readIdx - d.length := szSub_eq hlen (by omega)
  have hptr : szSub p.readIdx d.length = p.buf + (b.readIdx - d.length) := by
    rw [h.readIdx, szSub_eq (by omega) (by omega)]
    omega
  have hmoved : SameBuffer { b with readIdx := b.readIdx - d.length }
      { p with readIdx := szSub p.readIdx d.length } :=
    h.move ((Nat.sub_le _ _).trans h.wf.read_le_write) h.wf.write_le_sz hptr h.writeIdx
  have hstore := hmoved.store (n := b.readIdx - d.length) (by dsimp only; omega) d
  rw [← hptr] at hstore
  rw [hidx]
  exact hstore.imp fun _ _ h' => h'.1

/-- `buf_peekInt*`. -/
theorem peekInt (h : SameBuffer b p) (k : Nat) : Lockstep Eq (bufPeekInt k b) (buf2PeekInt k p) := by
  refine lockstep_cassert_bind (by rw [h.readable_eq]) fun _ => ?_
  rw [h.load_read]
  exact lockstep_bind_same _ fun d _ => (rfl : toSigned (8 * k) (beNat d) = _)

/-- `buf_readInt*`. -/
theorem readInt (h : SameBuffer b p) (k : Nat) :
    Lockstep (fun r q => r.1 = q.1 ∧ SameBuffer r.2 q.2) (bufReadInt k b) (buf2ReadInt k p) :=
  (h.peekInt k).bind fun _ _ hx => (h.retrieve k).bind fun _ _ h' => ⟨hx, h'⟩

/-- `buf_setWriteIndex`. -/
theorem setWriteIndex (h : SameBuffer b p) (writeIdx : Nat) :
    Lockstep SameBuffer (bufSetWriteIndex b writeIdx) (buf2SetWriteIndex p writeIdx) := by
  rw [bufSetWriteIndex, assertWrite, cassert_bind_of h.wf.unlocked]
  refine lockstep_cassert_bind (by rw [h.readIdx, h.sub_buf h.read_le_sz, h.sz]) fun hidx => ?_
  obtain ⟨hread, hlt⟩ := hidx
  exact h.move hread hlt.le h.readIdx (h.add_eq hlt.le)

/-- A pointer found in the readable bytes. -/
theorem found (h : SameBuffer b p) {i : Option Nat} (hi : ∀ j, i = some j → j ≤ bufReadable b) :
    i.map (b.readIdx + ·) = (i.map (szAdd p.readIdx ·)).map (szSub · p.buf) := by
  cases i with
  | none => rfl
  | some j =>
    have hj := hi j rfl
    have hfits := h.fits
    have hw := h.wf.write_le_sz
    have hr := h.wf.read_le_write
    rw [h.wf.readable_eq] at hj
    rw [Option.map_some, Option.map_some, Option.map_some, h.readIdx, szAdd_eq (by omega),
      Nat.add_assoc, h.sub_buf (by omega)]

/-- `buf_findStr`. -/
theorem findStr (h : SameBuffer b p) (str : List UInt8) :
    Lockstep (fun i j => i = j.map (szSub · p.buf)) (bufFindStr b str) (buf2FindStr p str) := by
  rw [bufFindStr, buf2FindStr, h.load_read, h.readable_eq]
  refine lockstep_bind_same _ fun d hd => h.found fun j hj => ?_
  rw [h.wf.load_readable] at hd
  rw [← h.wf.length_bufBytes, Except.ok.inj hd]
  exact le_of_memmem hj

/-- `buf_findChar`. -/
theorem findChar (h : SameBuffer b p) (c : UInt8) :
    Lockstep (fun i j => i = j.map (szSub · p.buf)) (bufFindChar b c) (buf2FindChar p c) := by
  rw [bufFindChar, buf2FindChar, h.load_read, h.readable_eq]
  refine lockstep_bind_same _ fun d hd => h.found fun j hj => ?_
  rw [h.wf.load_readable] at hd
  rw [← h.wf.length_bufBytes, Except.ok.inj hd]
  obtain ⟨hlt, -⟩ := List.findIdx?_eq_some_iff_getElem.mp hj
  exact hlt.le

/-! ### Operations that may allocate -/

/-- `buf_makeSpace`, before the indices are reset. -/
theorem makeRoom (h : SameBuffer b p) {len addr : Nat} (hlt : bufWritable b < len)
    (hgrowth : GrowthFits b len addr) :
    Lockstep (RoomMade (bufReadable b)) (bufMakeRoom b len) (buf2MakeRoom p len addr) := by
  have hread := h.wf.read_le_write
  have hw := h.wf.write_le_sz
  rw [bufMakeRoom, buf2MakeRoom, h.prependable_eq, h.writable_eq, h.pSz]
  by_cases hswap : szSub (szAdd (bufPrependable b) (bufWritable b)) b.pSz < len
  · -- a bigger block
    have hfits : addr + (b.writeIdx + len) < 2 ^ 64 :=
      hgrowth (by rw [bufSwaps, decide_eq_true hlt, decide_eq_true hswap]; rfl)
    have hnsz : szAdd b.writeIdx len = b.writeIdx + len := szAdd_eq (by omega)
    rw [if_pos hswap, if_pos hswap, h.writeIdx, h.sub_buf hw, hnsz, bufSwap, buf2Swap, h.load_read,
      h.readable_eq, h.pSz]
    refine lockstep_cassert_bind Iff.rfl fun _ => lockstep_bind_same _ fun d hd =>
      lockstep_bind_same _ fun m hm => ?_
    rw [h.wf.load_readable] at hd
    obtain ⟨hle, hlen⟩ := memStore_inv hm
    rw [← Except.ok.inj hd, h.wf.length_bufBytes, List.length_replicate] at hle
    rw [List.length_replicate] at hlen
    exact { room := hle, length_buf := hlen, fits := hfits, unlocked := h.wf.unlocked, sz := rfl,
            pSz := rfl, mem := rfl }
  · -- a move inside the block
    rw [if_neg hswap, if_neg hswap, h.add_eq h.wf.pSz_le_sz, h.load_read, h.readable_eq]
    refine lockstep_cassert_bind (by rw [h.readIdx, Nat.add_lt_add_iff_left]) fun hfront =>
      lockstep_bind_same _ fun d _ => ?_
    rw [Buffer2.store, h.sub_buf h.wf.pSz_le_sz, h.mem]
    refine lockstep_bind_same _ fun m hm => ?_
    rw [h.wf.readable_eq]
    exact { room := by dsimp only; omega, length_buf := (memStore_inv hm).2.trans h.wf.length_buf,
            fits := h.fits, unlocked := h.wf.unlocked, sz := h.sz, pSz := h.pSz, mem := rfl }

/-- `buf_makeSpace`. -/
theorem makeSpace (h : SameBuffer b p) {len addr : Nat} (hlt : bufWritable b < len)
    (hgrowth : GrowthFits b len addr) :
    Lockstep SameBuffer (bufMakeSpace b len) (buf2MakeSpace p len addr) := by
  rw [bufMakeSpace, buf2MakeSpace, h.readable_eq]
  refine (h.makeRoom hlt hgrowth).bind fun b₁ p₁ hroom => ?_
  have hfit := hroom.room
  have hspace := hroom.fits
  have hwrite : szAdd b₁.pSz (bufReadable b) = b₁.pSz + bufReadable b := szAdd_eq (by omega)
  have hptr : szAdd p₁.buf p₁.pSz = p₁.buf + b₁.pSz := by
    rw [hroom.pSz, szAdd_eq (by omega)]
  have hsame : SameBuffer
      { b₁ with readIdx := b₁.pSz, writeIdx := szAdd b₁.pSz (bufReadable b) }
      { p₁ with readIdx := szAdd p₁.buf p₁.pSz,
                writeIdx := szAdd (szAdd p₁.buf p₁.pSz) (bufReadable b) } := by
    rw [hwrite, hptr, szAdd_eq (a := p₁.buf + b₁.pSz) (by omega)]
    exact { wf := { read_le_write := Nat.le_add_right _ _, write_le_sz := hfit,
                    pSz_le_sz := (Nat.le_add_right _ _).trans hfit, length_buf := hroom.length_buf,
                    sz_lt := by dsimp only; omega, unlocked := hroom.unlocked },
            fits := hspace, readIdx := rfl, writeIdx := Nat.add_assoc _ _ _, sz := hroom.sz,
            pSz := hroom.pSz, mem := hroom.mem }
  exact lockstep_cassert_bind (by rw [hsame.readable_eq]) fun _ => hsame

/-- `buf_ensureWritable`. -/
theorem ensureWritable (h : SameBuffer b p) {len addr : Nat} (hgrowth : GrowthFits b len addr) :
    Lockstep SameBuffer (bufEnsureWritable b len) (buf2EnsureWritable p len addr) := by
  -- the assertion behind either branch
  have hassert {b' : Buffer} {p' : Buffer2} (h' : SameBuffer b' p') :
      Lockstep SameBuffer (do cassert (len ≤ bufWritable b'); return b')
        (do cassert (len ≤ buf2Writable p'); return p') :=
    lockstep_cassert_bind (by rw [h'.writable_eq]) fun _ => h'
  rw [bufEnsureWritable, assertWrite, cassert_bind_of h.wf.unlocked, buf2EnsureWritable,
    h.writable_eq]
  by_cases hlt : bufWritable b < len
  · rw [if_pos hlt, if_pos hlt]
    exact (h.makeSpace hlt hgrowth).bind fun _ _ h' => hassert h'
  · rw [if_neg hlt, if_neg hlt]
    exact hassert h

/-- `buf_append`. -/
theorem append (h : SameBuffer b p) {d : List UInt8} {addr : Nat}
    (hgrowth : GrowthFits b d.length addr) :
    Lockstep SameBuffer (bufAppend b d) (buf2Append p d addr) := by
  rw [bufAppend, assertWrite, cassert_bind_of h.wf.unlocked]
  exact (h.ensureWritable hgrowth).bind fun _ _ h₁ =>
    (h₁.beginWriteStore d).bind fun _ _ h₂ => h₂.1.hasWritten d.length

/-- `buf_appendInt*`. -/
theorem appendInt (h : SameBuffer b p) {k addr : Nat} (x : Int) (hgrowth : GrowthFits b k addr) :
    Lockstep SameBuffer (bufAppendInt k b x) (buf2AppendInt k p x addr) :=
  h.append (by rwa [length_beBytes])

/-- `buf_readFd`. -/
theorem readFd (h : SameBuffer b p) (errno : Int) {r : ReadvRes} {addr : Nat}
    (hgrowth : ReadFdFits b r addr) :
    Lockstep (fun r q => r.1 = q.1 ∧ r.2.1 = q.2.1 ∧ SameBuffer r.2.2 q.2.2) (bufReadFd b errno r)
      (buf2ReadFd p errno r addr) := by
  have hfits := h.fits
  have hw := h.wf.write_le_sz
  rw [bufReadFd, assertWrite, cassert_bind_of h.wf.unlocked]
  cases r with
  | fail e => exact ⟨rfl, rfl, h⟩
  | got data =>
    rw [buf2ReadFd]
    dsimp only
    rw [buf2ReadvRoom, h.writable_eq, ← bufReadvRoom]
    dsimp only [ReadFdFits] at hgrowth
    generalize data.take (bufReadvRoom b) = data at hgrowth ⊢
    refine (h.beginWriteStore (data.take (bufWritable b))).bind fun b₁ p₁ h₁ => ?_
    obtain ⟨h₁, m, rfl⟩ := h₁
    have hfits₁ := h₁.fits
    dsimp only at hfits₁ ⊢
    by_cases hle : data.length ≤ bufWritable b
    · rw [if_pos hle, if_pos hle]
      rw [h.wf.writable_eq] at hle
      refine ⟨rfl, rfl, h₁.move (h.wf.read_le_write.trans ?_) ?_ h₁.readIdx ?_⟩
      · rw [szAdd_eq (by omega)]
        exact Nat.le_add_right _ _
      · rw [szAdd_eq (by omega)]
        dsimp only
        omega
      · rw [h₁.writeIdx, szAdd_eq (by dsimp only; omega), szAdd_eq (by omega), Nat.add_assoc]
    · rw [if_neg hle, if_neg hle]
      have hfull : SameBuffer { b with buf := m, writeIdx := b.sz }
          { p₁ with writeIdx := szAdd p₁.buf p₁.sz } :=
        h₁.move (h.wf.read_le_write.trans hw) (Nat.le_refl _) h₁.readIdx
          (by rw [h₁.sz, h₁.add_eq (Nat.le_refl _)])
      have hgrowth' : GrowthFits { b with buf := m, writeIdx := b.sz }
          (data.drop (bufWritable b)).length addr := by
        rw [List.length_drop]
        exact hgrowth (Nat.lt_of_not_le hle)
      exact (hfull.append hgrowth').bind fun _ _ h₂ => ⟨rfl, rfl, h₂⟩

end SameBuffer

/-! ### Runs -/

/-- **The contract of an operation**: no size wraps around, blocks lie in the address space, and a
pointer handed to `buf_retrieveUntil` leads into the block. -/
def SharedPre (b : Buffer) (c : SharedOp × Nat) : Prop :=
  match c.1 with
  | .append d => GrowthFits b d.length c.2
  | .ensureWritable len => GrowthFits b len c.2
  | .appendInt k _ => GrowthFits b k c.2
  | .readFd _ r => ReadFdFits b r c.2
  | .retrieveUntil e => e ≤ b.sz
  | _ => True

/-- The contract is decided. -/
instance instDecidableSharedPre (b : Buffer) (c : SharedOp × Nat) : Decidable (SharedPre b c) := by
  obtain ⟨o, addr⟩ := c
  cases o <;> unfold SharedPre <;> infer_instance

/-- An operation that returns nothing. -/
theorem lockstep_unit {x : Exec Buffer} {y : Exec Buffer2} (h : Lockstep SameBuffer x y) :
    Lockstep (fun r q => r.1 = q.1 ∧ SameBuffer r.2 q.2)
      (do return (SharedRet.unit, ← x)) (do return (SharedRet.unit, ← y)) :=
  h.bind fun _ _ h' => ⟨rfl, h'⟩

/-- **Every operation agrees.** -/
theorem SameBuffer.shared {b : Buffer} {p : Buffer2} (h : SameBuffer b p) {o : SharedOp} {addr : Nat}
    (hpre : SharedPre b (o, addr)) :
    Lockstep (fun r q => r.1 = q.1 ∧ SameBuffer r.2 q.2) (bufShared b o) (buf2Shared p addr o) := by
  cases o with
  | append d => exact lockstep_unit (h.append hpre)
  | prepend d => exact lockstep_unit (h.prepend d)
  | beginWrite d => exact lockstep_unit ((h.beginWriteStore d).imp fun _ _ h' => h'.1)
  | hasWritten len => exact lockstep_unit (h.hasWritten len)
  | unwrite len => exact lockstep_unit (h.unwrite len)
  | ensureWritable len => exact lockstep_unit (h.ensureWritable hpre)
  | findStr str => exact (h.findStr str).bind fun _ _ hi => ⟨congrArg _ hi, h⟩
  | findChar c => exact (h.findChar c).bind fun _ _ hi => ⟨congrArg _ hi, h⟩
  | retrieve len => exact lockstep_unit (h.retrieve len)
  | retrieveAll => exact ⟨rfl, h.retrieveAll⟩
  | retrieveAsString len =>
    exact (h.retrieveAsString len).bind fun _ _ h' => ⟨congrArg _ h'.1, h'.2⟩
  | retrieveUntil e => exact lockstep_unit (h.retrieveUntil hpre)
  | appendInt k x => exact lockstep_unit (h.appendInt x hpre)
  | prependInt k x => exact lockstep_unit (h.prepend _)
  | peekInt k => exact (h.peekInt k).bind fun _ _ hx => ⟨congrArg _ hx, h⟩
  | readInt k => exact (h.readInt k).bind fun _ _ h' => ⟨congrArg _ h'.1, h'.2⟩
  | readFd errno r =>
    refine (h.readFd errno hpre).bind fun r q h' => ?_
    obtain ⟨hn, herrno, h'⟩ := h'
    exact ⟨by rw [hn, herrno], h'⟩
  | getReadIndex => exact ⟨congrArg _ h.prependable_eq.symm, h⟩
  | getWriteIndex =>
    refine ⟨?_, h⟩
    dsimp only
    rw [buf2GetWriteIndex, h.writeIdx, h.sub_buf h.wf.write_le_sz, bufGetWriteIndex]
  | setWriteIndex writeIdx => exact lockstep_unit (h.setWriteIndex writeIdx)

/-- **Every operation agrees**, with what can be seen behind it. -/
theorem SameBuffer.sharedStep {b : Buffer} {p : Buffer2} (h : SameBuffer b p) {c : SharedOp × Nat}
    (hpre : SharedPre b c) :
    Lockstep (fun r q => r.1 = q.1 ∧ SameBuffer r.2 q.2) (bufSharedStep b c) (buf2SharedStep p c) :=
  (h.shared hpre).bind fun r q h' => ⟨by rw [h'.1, h'.2.view_eq], h'.2⟩

/-- A new buffer. -/
theorem bufCreateEx_same {size prependSize addr : Nat} {b : Buffer} (hpos : 0 < size)
    (hfits : addr + (size + prependSize) < 2 ^ 64)
    (hcreate : bufCreateEx size prependSize = .ok b) :
    SameBuffer b (buf2CreateEx size prependSize addr) := by
  have hov : size + prependSize < 2 ^ 64 := by omega
  obtain ⟨b', hok, hinv, -, -, hsz, -⟩ := bufCreateEx_spec hpos hov
  obtain rfl : b' = b := Except.ok.inj (hok.symm.trans hcreate)
  rw [bufCreateEx, cassert_bind_of hpos] at hcreate
  have hb := Except.ok.inj hcreate
  have hsize : (if size = 0 then 1024 else size) = size := if_neg (Nat.ne_of_gt hpos)
  have hptr : szAdd addr prependSize = addr + prependSize := szAdd_eq (by omega)
  refine { wf := hinv.toBufWf, fits := ?_, readIdx := ?_, writeIdx := ?_, sz := ?_, pSz := ?_,
           mem := ?_ }
  · rw [hsz]
    exact hfits
  · rw [← hb]
    exact hptr
  · rw [← hb]
    exact hptr
  · rw [buf2CreateEx, hsize, ← hb]
  · rw [← hb]
    rfl
  · rw [buf2CreateEx, hsize, ← hb]

/-- **The two implementations agree**: a run of operations shows the same results and the same
buffer behind each of them, up to the same failure if there is one, as long as no size wraps
around. -/
theorem buffers_agree {size prependSize addr : Nat} {b : Buffer} {ops : List (SharedOp × Nat)}
    (hpos : 0 < size) (hfits : addr + (size + prependSize) < 2 ^ 64)
    (hcreate : bufCreateEx size prependSize = .ok b)
    (hadm : Admissible bufSharedStep SharedPre b ops) :
    bufView b = buf2View (buf2CreateEx size prependSize addr) ∧
      traceOps bufSharedStep b ops
        = traceOps buf2SharedStep (buf2CreateEx size prependSize addr) ops := by
  have hsame := bufCreateEx_same hpos hfits hcreate
  exact ⟨hsame.view_eq, traceOps_eq (fun _ _ _ h hpre => h.sharedStep hpre) hsame hadm⟩

/-- A run that prepends below the reserved front, grows, moves and fails. -/
def agreeingOps : List (SharedOp × Nat) :=
  [(.append [1, 2, 3], 4096), (.prepend [9], 0), (.retrieve 3, 0), (.append [4, 5], 8192),
    (.readFd 0 (.got [6, 7]), 12288), (.unwrite 9, 0)]

/-- `buffers_agree` on that run. -/
theorem buffers_agree_grow :
    ∃ b, bufCreateEx 2 1 = .ok b ∧ bufView b = buf2View (buf2CreateEx 2 1 64) ∧
      traceOps bufSharedStep b agreeingOps
        = traceOps buf2SharedStep (buf2CreateEx 2 1 64) agreeingOps :=
  ⟨_, rfl, buffers_agree (by decide) (by decide) rfl (by decide)⟩

/-- A run in a buffer whose reserved front is `2 ^ 64 - 3`. -/
def wrappingOps : List (SharedOp × Nat) :=
  [(.hasWritten 10, 0), (.retrieve 5, 0), (.unwrite 5, 0), (.ensureWritable 6, 0)]

/-- **They differ where a size wraps around**: of `10 + (2 ^ 64 - 3)` bytes, `malloc` is asked for
7; an assertion of `buffer.c` fails, none of `buffer2.c` does. -/
theorem buffers_disagree :
    ∃ b, bufCreateEx 10 (2 ^ 64 - 3) = .ok b ∧
      .error .assertFailed ∈ traceOps bufSharedStep b wrappingOps ∧
      .error .assertFailed ∉ traceOps buf2SharedStep (buf2CreateEx 10 (2 ^ 64 - 3) 4096)
        wrappingOps :=
  ⟨_, rfl, by decide +kernel, by decide +kernel⟩

end Wee
