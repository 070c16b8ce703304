import Wee.Base.BufferQueue

/-! # Packets in a buffer

A packet is written as a list of pieces, one `buf_append` each, and is read field by field: integers
with `buf_readInt*` and strings with `buf_retrieveAsString` into a block of `malloc`. Each way of
reading has a rule for the bytes it expects in front of the queue, and an inversion that says which
bytes a read that returned has taken. -/

namespace Wee

/-! ### A buffer that is full -/

/-- A buffer that holds the given bytes and nothing else. -/
def exactBuf (bs : List UInt8) : Buffer :=
  { readIdx := 0, writeIdx := bs.length, sz := bs.length, pSz := 0, buf := bs, refcount := 0,
    src := none, cache := none }

/-- Its shape. -/
theorem exactBuf_shape {bs : List UInt8} (h : bs.length < 2 ^ 64) : BufShape (exactBuf bs) where
  read_le_write := Nat.zero_le _
  write_le_sz := le_refl _
  pSz_le_sz := Nat.zero_le _
  length_buf := rfl
  sz_lt := h

/-- It represents these bytes. -/
theorem exactBuf_repr {bs : List UInt8} (h : bs.length < 2 ^ 64) : BufRepr (exactBuf bs) bs := by
  refine ⟨{ exactBuf_shape h with unlocked := rfl, pSz_le_read := le_refl _ }, ?_⟩
  show slice bs 0 (bs.length - 0) = bs
  rw [slice, List.drop_zero, Nat.sub_zero, List.take_length]

/-! ### Writing pieces -/

/-- One `buf_append` for each piece. -/
def bufAppends (b : Buffer) (ds : List (List UInt8)) : Exec Buffer := ds.foldlM bufAppend b

@[simp] theorem bufAppends_nil (b : Buffer) : bufAppends b [] = .ok b := rfl

@[simp] theorem bufAppends_cons (b : Buffer) (d : List UInt8) (ds : List (List UInt8)) :
    bufAppends b (d :: ds) = bufAppend b d >>= fun b => bufAppends b ds := List.foldlM_cons

/-- Pieces one after the other. -/
theorem bufAppends_append (b : Buffer) (ds es : List (List UInt8)) :
    bufAppends b (ds ++ es) = bufAppends b ds >>= fun b => bufAppends b es :=
  List.foldlM_append

/-- Pieces are added one behind the other. -/
theorem BufInv.appends_spec {b : Buffer} (h : BufInv b) (ds : List (List UInt8))
    (hov : b.sz + ds.flatten.length < 2 ^ 64) :
    Returns (bufAppends b ds) fun b' =>
      BufInv b' ∧ bufBytes b' = bufBytes b ++ ds.flatten ∧ b'.sz ≤ b.sz + ds.flatten.length := by
  induction ds generalizing b with
  | nil => exact returns_ok ⟨h, by rw [List.flatten_nil, List.append_nil], Nat.le_add_right _ _⟩
  | cons d ds ih =>
    have hw := h.write_le_sz
    rw [List.flatten_cons, List.length_append] at hov
    rw [bufAppends_cons]
    refine (h.append_spec (d := d) (by omega)).bind fun b₁ hb₁ => ?_
    obtain ⟨hinv, hbytes, hsz, -⟩ := hb₁
    refine (ih hinv (by omega)).imp fun b' hb' => ?_
    obtain ⟨hinv', hbytes', hsz'⟩ := hb'
    refine ⟨hinv', ?_, ?_⟩
    · rw [hbytes', hbytes, List.flatten_cons, List.append_assoc]
    · rw [List.flatten_cons, List.length_append]
      omega

/-- Room that is there already is not made. -/
theorem BufWf.ensureWritable_fits {b : Buffer} {len : Nat} (h : BufWf b)
    (hfit : len ≤ bufWritable b) : bufEnsureWritable b len = .ok b := by
  rw [bufEnsureWritable, assertWrite, cassert_bind_of h.unlocked, if_neg (by omega), exec_pure,
    exec_ok_bind]
  exact cassert_bind_of hfit _

/-- Appending bytes for which there is room neither moves the queue nor grows the block. -/
theorem BufWf.append_fits {b : Buffer} {d : List UInt8} (h : BufWf b)
    (hfit : d.length ≤ bufWritable b) :
    Returns (bufAppend b d) fun b' =>
      BufWf b' ∧ b'.readIdx = b.readIdx ∧ b'.writeIdx = b.writeIdx + d.length
        ∧ bufBytes b' = bufBytes b ++ d ∧ b'.sz = b.sz ∧ b'.pSz = b.pSz := by
  rw [bufAppend, assertWrite, cassert_bind_of h.unlocked, h.ensureWritable_fits hfit, exec_ok_bind]
  exact bufBeginWriteStore_hasWritten_spec h hfit

/-- The block behind such an append. -/
theorem BufWf.append_fits_buf {b b' : Buffer} {d : List UInt8} (h : BufWf b)
    (hfit : d.length ≤ bufWritable b) (hok : bufAppend b d = .ok b') :
    b'.buf = splice b.buf b.writeIdx d := by
  have hw := h.write_le_sz
  have hl := h.length_buf
  have hwr := h.writable_eq
  rw [bufAppend, assertWrite, cassert_bind_of h.unlocked, h.ensureWritable_fits hfit, exec_ok_bind,
    bufBeginWriteStore, memStore_of_le (by omega), exec_ok_bind, exec_pure, exec_ok_bind,
    bufHasWritten] at hok
  obtain ⟨_, -, hend⟩ := exec_bind_eq_ok.mp hok
  cases hend
  rfl

/-- Appending bytes for which there is room does not grow the block. -/
theorem BufInv.append_fits {b : Buffer} {d : List UInt8} (h : BufInv b)
    (hfit : d.length ≤ bufWritable b) :
    Returns (bufAppend b d) fun b' => BufInv b' ∧ bufBytes b' = bufBytes b ++ d ∧ b'.sz = b.sz
      ∧ b'.pSz = b.pSz ∧ bufWritable b' = bufWritable b - d.length := by
  have hp := h.pSz_le_read
  refine (h.toBufWf.append_fits hfit).imp fun b' hb' => ?_
  obtain ⟨hwf, hread, hwrite, hbytes, hsz, hpSz⟩ := hb'
  refine ⟨⟨hwf, by omega⟩, hbytes, hsz, hpSz, ?_⟩
  rw [hwf.writable_eq, h.writable_eq]
  omega

/-- Pieces for which there is room do not grow the block. -/
theorem BufInv.appends_fits {b : Buffer} (h : BufInv b) (ds : List (List UInt8))
    (hfit : ds.flatten.length ≤ bufWritable b) :
    Returns (bufAppends b ds) fun b' =>
      BufInv b' ∧ bufBytes b' = bufBytes b ++ ds.flatten ∧ b'.sz = b.sz ∧ b'.pSz = b.pSz := by
  induction ds generalizing b with
  | nil => exact returns_ok ⟨h, by rw [List.flatten_nil, List.append_nil], rfl, rfl⟩
  | cons d ds ih =>
    rw [List.flatten_cons, List.length_append] at hfit
    rw [bufAppends_cons]
    refine (h.append_fits (d := d) (by omega)).bind fun b₁ hb₁ => ?_
    obtain ⟨hinv, hbytes, hsz, hpSz, hroom⟩ := hb₁
    refine (ih hinv (by omega)).imp fun b' hb' => ?_
    obtain ⟨hinv', hbytes', hsz', hpSz'⟩ := hb'
    refine ⟨hinv', ?_, hsz'.trans hsz, hpSz'.trans hpSz⟩
    rw [hbytes', hbytes, List.flatten_cons, List.append_assoc]

/-! ### Reading integers -/

/-- Reading the bytes in front of the queue as an integer. -/
theorem BufInv.readInt_front {b : Buffer} {d rest : List UInt8} (h : BufInv b)
    (hbytes : bufBytes b = d ++ rest) :
    ∃ b', bufReadInt d.length b = .ok (intOf d, b') ∧ BufRepr b' rest := by
  have hlen : d.length ≤ bufReadable b := by
    rw [← h.length_bufBytes, hbytes, List.length_append]
    omega
  obtain ⟨⟨x, b'⟩, hok, hx, hcons⟩ := h.shape.readInt_spec hlen
  dsimp only at hx hcons
  refine ⟨b', ?_, hcons.inv h, ?_⟩
  · rw [hok, hx, hbytes, List.take_left, intOf]
  · rw [hcons.bytes, hbytes, List.drop_left]

/-- Reading an integer written by `buf_appendInt*`. -/
theorem BufInv.readInt_field {b : Buffer} {k : Nat} {x : Int} {rest : List UInt8} (h : BufInv b)
    (hk : 0 < k) (hx : FitsInt k x) (hbytes : bufBytes b = beInt k x ++ rest) :
    ∃ b', bufReadInt k b = .ok (x, b') ∧ BufRepr b' rest := by
  have hread := h.readInt_front hbytes
  rwa [intOf_beInt hk hx, length_beInt] at hread

/-- **What a read integer was**: the bytes it was written with. -/
theorem BufInv.readInt_inv {b b' : Buffer} {k : Nat} {x : Int} (h : BufInv b) (hk : 0 < k)
    (hok : bufReadInt k b = .ok (x, b')) :
    BufInv b' ∧ bufBytes b = beInt k x ++ bufBytes b' ∧ FitsInt k x := by
  obtain ⟨y, hpeek, hrest⟩ := exec_bind_eq_ok.mp hok
  obtain ⟨_, hlen, -⟩ := exec_bind_eq_ok.mp hpeek
  have hle : k ≤ bufReadable b := by
    by_contra hgt
    rw [cassert_of_not hgt] at hlen
    cases hlen
  obtain ⟨⟨z, b₁⟩, hok₁, hz, hcons⟩ := h.shape.readInt_spec hle
  obtain ⟨rfl, rfl⟩ := Prod.mk.inj (Except.ok.inj (hok₁.symm.trans hok))
  dsimp only at hz hcons
  have hlength : ((bufBytes b).take k).length = k := by
    rw [List.length_take, h.length_bufBytes]
    omega
  have hfront : beInt k z = (bufBytes b).take k := by
    have := beInt_intOf ((bufBytes b).take k)
    rwa [intOf, hlength, ← hz] at this
  refine ⟨hcons.inv h, ?_, hz ▸ toSigned_fits hk _⟩
  rw [hfront, hcons.bytes, List.take_append_drop]

/-- An integer that the readable bytes do not reach. -/
theorem bufReadInt_short {b : Buffer} {k : Nat} (h : bufReadable b < k) :
    bufReadInt k b = .error .assertFailed := by
  rw [bufReadInt, bufPeekInt, cassert_bind_of_not (by omega), exec_error_bind]

/-! ### Reading strings -/

/-- `malloc(n)`: the size of the block, or `none` for the `NULL` of a request above
`PTRDIFF_MAX`. -/
def cMalloc (n : Nat) : Option Nat := if n < 2 ^ 63 then some n else none

/-- `buf_retrieveAsString` into the block `str`: the bytes stored there and the buffer. -/
def bufRetrieveInto (b : Buffer) (len : Nat) (str : Option Nat) : Exec (List UInt8 × Buffer) :=
  match str with
  | none => .error .assertFailed
  | some n => if n < len + 1 then .error .outOfBounds else bufRetrieveAsString b len

/-- Reading a string into a block that holds it with its NUL. -/
theorem BufInv.retrieveInto_field {b : Buffer} {s rest : List UInt8} (h : BufInv b)
    (hbytes : bufBytes b = s ++ rest) :
    ∃ b', bufRetrieveInto b s.length (some (s.length + 1)) = .ok (s ++ [0], b')
      ∧ BufRepr b' rest := by
  have hlen : s.length ≤ bufReadable b := by
    rw [← h.length_bufBytes, hbytes, List.length_append]
    omega
  obtain ⟨⟨d, b'⟩, hok, hd, hinv, hrest⟩ := h.retrieveAsString_spec hlen
  dsimp only at hd hinv hrest
  refine ⟨b', ?_, hinv, ?_⟩
  · rw [bufRetrieveInto, if_neg (by omega), hok, hd, hbytes, List.take_left]
  · rw [hrest, hbytes, List.drop_left]

/-- **What a read string was**: the bytes in front of the queue, and the block held them. -/
theorem BufInv.retrieveInto_inv {b b' : Buffer} {len : Nat} {str : Option Nat} {d : List UInt8}
    (h : BufInv b) (hok : bufRetrieveInto b len str = .ok (d, b')) :
    BufInv b' ∧ (∃ n, str = some n ∧ len < n)
      ∧ ∃ s, s.length = len ∧ d = s ++ [0] ∧ bufBytes b = s ++ bufBytes b' := by
  cases str with
  | none => cases hok
  | some n =>
    rw [bufRetrieveInto] at hok
    by_cases hn : n < len + 1
    · rw [if_pos hn] at hok
      cases hok
    · rw [if_neg hn] at hok
      have hle : len ≤ bufReadable b := by
        by_contra hgt
        obtain ⟨_, -, hrest⟩ := exec_bind_eq_ok.mp hok
        rw [bufRetrieve_of_gt (by omega), exec_error_bind] at hrest
        cases hrest
      obtain ⟨⟨d₁, b₁⟩, hok₁, hd, hinv, hrest⟩ := h.retrieveAsString_spec hle
      obtain ⟨rfl, rfl⟩ := Prod.mk.inj (Except.ok.inj (hok₁.symm.trans hok))
      refine ⟨hinv, ⟨n, rfl, by omega⟩, (bufBytes b).take len, ?_, hd, ?_⟩
      · rw [List.length_take, h.length_bufBytes]
        omega
      · rw [hrest, List.take_append_drop]

end Wee
