import Wee.Base.BufferPrepend

/-! # Typed integers in a buffer

An item is a signed integer with the width and the byte order of the calls it goes through. Items
appended to an empty buffer and items prepended to it come out again, the prepended ones last in
first out, whenever the appends themselves work. -/

namespace Wee

/-- The widths of the typed calls. -/
inductive IntWidth
  /-- `int8_t`. -/
  | w8
  /-- `int16_t`. -/
  | w16
  /-- `int32_t`. -/
  | w32
  /-- `int64_t`. -/
  | w64
  deriving DecidableEq, Repr

/-- The size in bytes. -/
def IntWidth.size : IntWidth → Nat
  | .w8 => 1
  | .w16 => 2
  | .w32 => 4
  | .w64 => 8

/-- No width is zero. -/
theorem IntWidth.size_pos (w : IntWidth) : 0 < w.size := by
  cases w <;> exact Nat.succ_pos _

/-- The byte orders. -/
inductive ByteOrder
  /-- Network byte order. -/
  | big
  /-- The `LE` calls. -/
  | little
  deriving DecidableEq, Repr

/-- An integer of a width, in a byte order. -/
structure IntItem where
  /-- The width. -/
  width : IntWidth
  /-- The byte order. -/
  order : ByteOrder
  /-- The value. -/
  val : Int
  /-- The value has the width. -/
  fits : FitsInt width.size val

/-- The `buf_appendInt*` call of an item; one byte has no order. -/
def bufAppendItem (b : Buffer) (i : IntItem) : Exec Buffer :=
  match i.width, i.order with
  | .w8, _ => bufAppendInt8 b i.val
  | .w16, .big => bufAppendInt16 b i.val
  | .w16, .little => bufAppendInt16LE b i.val
  | .w32, .big => bufAppendInt32 b i.val
  | .w32, .little => bufAppendInt32LE b i.val
  | .w64, .big => bufAppendInt64 b i.val
  | .w64, .little => bufAppendInt64LE b i.val

/-- The `buf_prependInt*` call of an item. -/
def bufPrependItem (b : Buffer) (i : IntItem) : Exec Buffer :=
  match i.width, i.order with
  | .w8, _ => bufPrependInt8 b i.val
  | .w16, .big => bufPrependInt16 b i.val
  | .w16, .little => bufPrependInt16LE b i.val
  | .w32, .big => bufPrependInt32 b i.val
  | .w32, .little => bufPrependInt32LE b i.val
  | .w64, .big => bufPrependInt64 b i.val
  | .w64, .little => bufPrependInt64LE b i.val

/-- The `buf_readInt*` call of an item; its value plays no part. -/
def bufReadItem (b : Buffer) (i : IntItem) : Exec (Int × Buffer) :=
  match i.width, i.order with
  | .w8, _ => bufReadInt8 b
  | .w16, .big => bufReadInt16 b
  | .w16, .little => bufReadInt16LE b
  | .w32, .big => bufReadInt32 b
  | .w32, .little => bufReadInt32LE b
  | .w64, .big => bufReadInt64 b
  | .w64, .little => bufReadInt64LE b

/-! ### The bytes of an item -/

/-- The bytes an item is written as. -/
def IntItem.bytes (i : IntItem) : List UInt8 :=
  match i.order with
  | .big => beInt i.width.size i.val
  | .little => (beInt i.width.size i.val).reverse

/-- An item has the size of its width. -/
@[simp] theorem IntItem.length_bytes (i : IntItem) : i.bytes.length = i.width.size := by
  rw [IntItem.bytes]
  cases i.order with
  | big => exact length_beInt _ _
  | little => rw [List.length_reverse, length_beInt]

/-- The bytes of a list of items. -/
def itemsBytes (is : List IntItem) : List UInt8 := (is.map IntItem.bytes).flatten

/-- The total size of a list of items. -/
def itemsSize (is : List IntItem) : Nat := (is.map fun i => i.width.size).sum

@[simp] theorem itemsBytes_nil : itemsBytes [] = [] := rfl

@[simp] theorem itemsBytes_cons (i : IntItem) (is : List IntItem) :
    itemsBytes (i :: is) = i.bytes ++ itemsBytes is := by
  rw [itemsBytes, List.map_cons, List.flatten_cons, itemsBytes]

/-- The bytes of items one after the other. -/
theorem itemsBytes_append (is js : List IntItem) :
    itemsBytes (is ++ js) = itemsBytes is ++ itemsBytes js := by
  rw [itemsBytes, List.map_append, List.flatten_append, itemsBytes, itemsBytes]

/-- An item is appended as its bytes. -/
theorem bufAppendItem_eq (b : Buffer) (i : IntItem) : bufAppendItem b i = bufAppend b i.bytes := by
  obtain ⟨width, order, val, fits⟩ := i
  cases width <;> cases order <;> rfl

/-- An item is prepended as its bytes. -/
theorem bufPrependItem_eq (b : Buffer) (i : IntItem) :
    bufPrependItem b i = bufPrepend b i.bytes := by
  obtain ⟨width, order, val, fits⟩ := i
  cases width <;> cases order <;> rfl

/-! ### Reading items -/

/-- Reading an integer in network byte order. -/
theorem BufShape.readInt_bytes {b : Buffer} {k : Nat} {x : Int} {rest : List UInt8}
    (h : BufShape b) (hk : 0 < k) (hx : FitsInt k x) (hbytes : bufBytes b = beInt k x ++ rest) :
    Returns (bufReadInt k b) fun r => r.1 = x ∧ BufShape r.2 ∧ bufBytes r.2 = rest := by
  have hlen : k ≤ bufReadable b := by
    rw [← h.length_bufBytes, hbytes, List.length_append, length_beInt]
    omega
  refine (h.readInt_spec hlen).imp fun r hr => ?_
  obtain ⟨hval, hcons⟩ := hr
  have hint := intOf_beInt hk hx
  rw [intOf, length_beInt] at hint
  refine ⟨?_, hcons.shape, ?_⟩
  · rw [hval, hbytes, List.take_left' (length_beInt k x), hint]
  · rw [hcons.bytes, hbytes, List.drop_left' (length_beInt k x)]

/-- Reading an integer in little-endian byte order. -/
theorem BufShape.readIntLE_bytes {b : Buffer} {k : Nat} {x : Int} {rest : List UInt8}
    (h : BufShape b) (hk : 0 < k) (hx : FitsInt k x)
    (hbytes : bufBytes b = (beInt k x).reverse ++ rest) :
    Returns (bufReadIntLE (8 * k) k b) fun r => r.1 = x ∧ BufShape r.2 ∧ bufBytes r.2 = rest := by
  have hrev : (beInt k x).reverse.length = k := by rw [List.length_reverse, length_beInt]
  have hlen : k ≤ bufReadable b := by
    rw [← h.length_bufBytes, hbytes, List.length_append, hrev]
    omega
  have hint := intOf_beInt hk hx
  rw [intOf, length_beInt] at hint
  rw [bufReadIntLE, bufPeekIntLE, cassert_bind_of hlen, h.load_front hlen, exec_ok_bind, exec_pure,
    exec_ok_bind]
  refine (h.retrieve_spec hlen).bind fun b' hcons => returns_ok ⟨?_, hcons.shape, ?_⟩
  · rw [leNat, hbytes, List.take_left' hrev, List.reverse_reverse, hint]
  · rw [hcons.bytes, hbytes, List.drop_left' hrev]

/-- **Reading an item back**: the value, with the item's bytes taken from the front. -/
theorem BufShape.readItem_spec {b : Buffer} {i : IntItem} {rest : List UInt8} (h : BufShape b)
    (hbytes : bufBytes b = i.bytes ++ rest) :
    Returns (bufReadItem b i) fun r => r.1 = i.val ∧ BufShape r.2 ∧ bufBytes r.2 = rest := by
  obtain ⟨width, order, val, fits⟩ := i
  have hk := width.size_pos
  cases width with
  | w8 =>
    -- one byte is its own reverse
    cases order with
    | big => exact h.readInt_bytes hk fits hbytes
    | little => exact h.readInt_bytes hk fits hbytes
  | w16 =>
    cases order with
    | big => exact h.readInt_bytes hk fits hbytes
    | little => exact h.readIntLE_bytes hk fits hbytes
  | w32 =>
    cases order with
    | big => exact h.readInt_bytes hk fits hbytes
    | little => exact h.readIntLE_bytes hk fits hbytes
  | w64 =>
    cases order with
    | big => exact h.readInt_bytes hk fits hbytes
    | little => exact h.readIntLE_bytes hk fits hbytes

/-- **Reading items back**, one after the other. -/
theorem BufShape.readItems_spec {b : Buffer} {is : List IntItem} {rest : List UInt8}
    (h : BufShape b) (hbytes : bufBytes b = itemsBytes is ++ rest) :
    Returns (runOps bufReadItem b is) fun r =>
      r.1 = is.map IntItem.val ∧ BufShape r.2 ∧ bufBytes r.2 = rest := by
  induction is generalizing b with
  | nil => exact returns_ok ⟨rfl, h, hbytes⟩
  | cons i is ih =>
    rw [itemsBytes_cons, List.append_assoc] at hbytes
    refine (h.readItem_spec hbytes).bind fun r hr => ?_
    obtain ⟨hval, hshape, hrest⟩ := hr
    refine (ih hshape hrest).bind fun r' hr' => ?_
    obtain ⟨hvals, hshape', hrest'⟩ := hr'
    refine returns_ok ⟨?_, hshape', hrest'⟩
    rw [List.map_cons, hval, hvals]

/-! ### Appending and prepending items -/

/-- One `buf_appendInt*` call for each item. -/
def bufAppendItems (b : Buffer) (is : List IntItem) : Exec Buffer := is.foldlM bufAppendItem b

/-- One `buf_prependInt*` call for each item. -/
def bufPrependItems (b : Buffer) (is : List IntItem) : Exec Buffer := is.foldlM bufPrependItem b

@[simp] theorem bufAppendItems_cons (b : Buffer) (i : IntItem) (is : List IntItem) :
    bufAppendItems b (i :: is) = bufAppend b i.bytes >>= fun b => bufAppendItems b is := by
  rw [bufAppendItems, List.foldlM_cons, bufAppendItem_eq]
  rfl

@[simp] theorem bufPrependItems_cons (b : Buffer) (i : IntItem) (is : List IntItem) :
    bufPrependItems b (i :: is) = bufPrepend b i.bytes >>= fun b => bufPrependItems b is := by
  rw [bufPrependItems, List.foldlM_cons, bufPrependItem_eq]
  rfl

/-- Items are added one behind the other, when they fit or the reserved front is free. -/
theorem BufWf.appendItems_spec {b : Buffer} {is : List IntItem} (h : BufWf b)
    (hov : b.sz + itemsSize is < 2 ^ 64)
    (hroom : itemsSize is ≤ bufWritable b ∨ b.pSz ≤ b.readIdx) :
    Returns (bufAppendItems b is) fun b' =>
      BufWf b' ∧ bufBytes b' = bufBytes b ++ itemsBytes is := by
  induction is generalizing b with
  | nil => exact returns_ok ⟨h, by rw [itemsBytes_nil, List.append_nil]⟩
  | cons i is ih =>
    have hw := h.write_le_sz
    have hlen := i.length_bytes
    have hsum : itemsSize (i :: is) = i.width.size + itemsSize is := List.sum_cons
    rw [bufAppendItems_cons, itemsBytes_cons, ← List.append_assoc]
    by_cases hfit : i.bytes.length ≤ bufWritable b
    · -- the indices stay, and the rest fits if it did before
      refine (h.append_fits hfit).bind fun b₁ hb₁ => ?_
      obtain ⟨hwf, hread, hwrite, hbytes, hsz, hpSz⟩ := hb₁
      have hwr := h.writable_eq
      have hwr₁ := hwf.writable_eq
      rw [← hbytes]
      refine ih hwf (by omega) ?_
      rcases hroom with hall | hfront
      · exact Or.inl (by omega)
      · exact Or.inr (by omega)
    · -- the block grows or the queue moves: the reserved front is free and stays so
      have hfront : b.pSz ≤ b.readIdx := by
        rcases hroom with hall | hfront
        · omega
        · exact hfront
      refine (BufInv.append_spec ⟨h, hfront⟩ (d := i.bytes) (by omega)).bind fun b₁ hb₁ => ?_
      obtain ⟨hinv, hbytes, hsz, hpSz⟩ := hb₁
      rw [← hbytes]
      exact ih hinv.toBufWf (by omega) (Or.inr hinv.pSz_le_read)

/-- Items that do not fit while bytes stand in the reserved front end in a failed assertion. -/
theorem BufWf.appendItems_stuck {b : Buffer} {is : List IntItem} (h : BufWf b)
    (hov : b.sz + itemsSize is < 2 ^ 64) (hlt : bufWritable b < itemsSize is)
    (hfront : b.readIdx < b.pSz) : bufAppendItems b is = .error .assertFailed := by
  induction is generalizing b with
  | nil => exact absurd hlt (Nat.not_lt_zero _)
  | cons i is ih =>
    have hw := h.write_le_sz
    have hlen := i.length_bytes
    have hsum : itemsSize (i :: is) = i.width.size + itemsSize is := List.sum_cons
    rw [bufAppendItems_cons]
    by_cases hfit : i.bytes.length ≤ bufWritable b
    · -- the item fits, and a later one does not
      obtain ⟨b₁, hok, hwf, hread, hwrite, hbytes, hsz, hpSz⟩ := h.append_fits hfit
      have hwr := h.writable_eq
      have hwr₁ := hwf.writable_eq
      rw [hok, exec_ok_bind]
      exact ih hwf (by omega) (by omega) (by omega)
    · rw [h.append_stuck (by omega) (by omega) hfront, exec_error_bind]

/-- Items are put in front of each other. -/
theorem BufWf.prependItems_spec {b : Buffer} {is : List IntItem} (h : BufWf b)
    (hroom : itemsSize is ≤ bufPrependable b) :
    Returns (bufPrependItems b is) fun b' =>
      BufWf b' ∧ bufBytes b' = itemsBytes is.reverse ++ bufBytes b := by
  induction is generalizing b with
  | nil => exact returns_ok ⟨h, rfl⟩
  | cons i is ih =>
    have hlen := i.length_bytes
    have hsum : itemsSize (i :: is) = i.width.size + itemsSize is := List.sum_cons
    rw [bufPrependable] at hroom
    rw [bufPrependItems_cons]
    refine (bufPrepend_spec h (d := i.bytes) (by omega)).bind fun b₁ hb₁ => ?_
    -- the read index comes down by the item's width, and what is left in front with it
    obtain ⟨hwf, hbytes, hread, -⟩ := hb₁
    refine (ih hwf (by rw [bufPrependable]; omega)).imp fun b' hb' => ?_
    obtain ⟨hwf', hbytes'⟩ := hb'
    refine ⟨hwf', ?_⟩
    rw [hbytes', hbytes, List.reverse_cons, itemsBytes_append, itemsBytes_cons, itemsBytes_nil,
      List.append_nil, List.append_assoc]

/-! ### Through the buffer and back -/

/-- The items `as` appended to `b`, and any items prepended behind that for which there is room in
front, are read back: the prepended ones in reverse order, then the appended ones, and nothing is
left. -/
def IntsSurvive (b : Buffer) (as : List IntItem) : Prop :=
  Returns (bufAppendItems b as) fun b₁ =>
    ∀ ps, itemsSize ps ≤ bufPrependable b₁ →
      Returns (bufPrependItems b₁ ps) fun b₂ =>
        Returns (runOps bufReadItem b₂ (ps.reverse ++ as)) fun r =>
          r.1 = (ps.reverse ++ as).map IntItem.val ∧ bufReadable r.2 = 0

/-- **Typed integers survive an empty buffer** exactly when they fit behind its write index or its
indices stand outside the reserved front. -/
theorem ints_survive_iff {b : Buffer} {as : List IntItem} (h : BufWf b) (hempty : bufReadable b = 0)
    (hov : b.sz + itemsSize as < 2 ^ 64) :
    IntsSurvive b as ↔ itemsSize as ≤ bufWritable b ∨ b.pSz ≤ b.readIdx := by
  constructor
  · rintro ⟨b₁, hok, -⟩
    by_contra hno
    rw [h.appendItems_stuck hov (by omega) (by omega)] at hok
    cases hok
  · intro hroom
    have hnil : bufBytes b = [] := List.eq_nil_of_length_eq_zero (h.length_bufBytes.trans hempty)
    refine (h.appendItems_spec hov hroom).imp fun b₁ hb₁ ps hps => ?_
    obtain ⟨hwf₁, hbytes₁⟩ := hb₁
    refine (hwf₁.prependItems_spec hps).imp fun b₂ hb₂ => ?_
    obtain ⟨hwf₂, hbytes₂⟩ := hb₂
    have hall : bufBytes b₂ = itemsBytes (ps.reverse ++ as) ++ [] := by
      rw [hbytes₂, hbytes₁, hnil, List.nil_append, itemsBytes_append, List.append_nil]
    refine (hwf₂.shape.readItems_spec hall).imp fun r hr => ?_
    obtain ⟨hvals, hshape, hrest⟩ := hr
    refine ⟨hvals, ?_⟩
    rw [← hshape.length_bufBytes, hrest]
    rfl

/-- Minus one in 64 bits, little-endian. -/
def minusOne64 : IntItem :=
  { width := .w64, order := .little, val := -1, fits := ⟨by decide, by decide⟩ }

/-- An integer that makes a fresh buffer grow. -/
theorem ints_survive_iff_grow :
    ∃ b, bufCreateEx 4 4 = .ok b ∧
      (IntsSurvive b [minusOne64]
        ↔ itemsSize [minusOne64] ≤ bufWritable b ∨ b.pSz ≤ b.readIdx) := by
  obtain ⟨b, hok, hinv, hbytes, hpSz, hsz, hwrite⟩ :=
    bufCreateEx_spec (show 0 < 4 by decide) (show 4 + 4 < 2 ^ 64 by decide)
  refine ⟨b, hok, ints_survive_iff hinv.toBufWf ?_ ?_⟩
  · rw [← hinv.length_bufBytes, hbytes]
    rfl
  · rw [hsz]
    decide

/-- **An integer is lost**: the buffer is empty, its read index was moved into the reserved front by
a prepend, and the append has to grow the block. -/
theorem ints_survive_fails :
    ∃ b₀ rs b, bufCreateEx 4 4 = .ok b₀
      ∧ Admissible frontStep FrontPre b₀ [.prepend [1, 2], .unwrite 2]
      ∧ runOps frontStep b₀ [.prepend [1, 2], .unwrite 2] = .ok (rs, b) ∧ bufReadable b = 0
      ∧ bufAppendItems b [minusOne64] = .error .assertFailed ∧ ¬ IntsSurvive b [minusOne64] := by
  refine ⟨_, _, _, rfl, by decide, rfl, by decide, rfl, ?_⟩
  rintro ⟨b', hok, -⟩
  cases hok

end Wee
