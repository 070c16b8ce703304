import Wee.Base.Buffer
import Wee.Lib.Forest
import Wee.Lib.Refine

/-! # Read-only views (`base/buffer.c`)

A view shares the block of its source, so views need a heap: objects of type `struct buffer`, and
the blocks their `buf` pointers lead into. An object's pointer is a block and an offset. A call on
an object runs the function of `Buffer` on the bytes behind the pointer and puts the result back;
the calls that may go through `buf_swap` then leave the old block freed and a new one in its place.

The addresses that `calloc` returns are arguments of the calls. -/

namespace Wee

/-! ### Calls on one buffer -/

/-- The calls of the interface on one buffer, other than `buf_readonlyView` and `buf_release`. -/
inductive BufCall
  /-- The functions that return a size, an index, a flag or a pointer: `buf_readable`,
  `buf_writable`, `buf_internalCapacity`, `buf_prependable`, `buf_peek`, `buf_beginWrite`,
  `buf_writeLocked`, `buf_isReadonlyView`, `buf_getReadIndex`, `buf_getWriteIndex`. -/
  | query
  /-- `buf_has_written`. -/
  | hasWritten (len : Nat)
  /-- `buf_unwrite`. -/
  | unwrite (len : Nat)
  /-- `buf_findStr`, `buf_findCRLF`. -/
  | findStr (str : List UInt8)
  /-- `buf_findChar`, `buf_findEOL`. -/
  | findChar (c : UInt8)
  /-- `buf_retrieveAsString`. -/
  | retrieveAsString (len : Nat)
  /-- `buf_retrieveAll`. -/
  | retrieveAll
  /-- `buf_retrieve`, `buf_retrieveInt*`. -/
  | retrieve (len : Nat)
  /-- `buf_retrieveUntil`. -/
  | retrieveUntil (e : Nat)
  /-- `buf_ensureWritable`. -/
  | ensureWritable (len : Nat)
  /-- `buf_append`. -/
  | append (d : List UInt8)
  /-- `buf_prepend`. -/
  | prepend (d : List UInt8)
  /-- `buf_shrink`. -/
  | shrink (reserve : Nat)
  /-- `buf_appendInt*`. -/
  | appendInt (k : Nat) (x : Int)
  /-- `buf_appendInt*LE`. -/
  | appendIntLE (k : Nat) (x : Int)
  /-- `buf_prependInt*`. -/
  | prependInt (k : Nat) (x : Int)
  /-- `buf_prependInt*LE`. -/
  | prependIntLE (k : Nat) (x : Int)
  /-- `buf_peekInt*`. -/
  | peekInt (k : Nat)
  /-- `buf_peekInt*LE`, `buf_peekInt32LE24`. -/
  | peekIntLE (w k : Nat)
  /-- `buf_readInt*`. -/
  | readInt (k : Nat)
  /-- `buf_readInt*LE`, `buf_readInt32LE24`. -/
  | readIntLE (w k : Nat)
  /-- `buf_readCStr`. -/
  | readCStr (sz : Int)
  /-- `buf_readStr`. -/
  | readStr (sz : Int)
  /-- `buf_dupCStr`. -/
  | dupCStr
  /-- `buf_dupStr`. -/
  | dupStr (sz : Int)
  /-- `buf_readFd`. -/
  | readFd (errno : Int) (r : ReadvRes)
  /-- `buf_setReadIndex`. -/
  | setReadIndex (readIdx : Nat)
  /-- `buf_setWriteIndex`. -/
  | setWriteIndex (writeIdx : Nat)
  deriving DecidableEq, Repr

/-- The buffer after a call. -/
def BufCall.run : BufCall → Buffer → Exec Buffer
  | .query, b => return b
  | .hasWritten len, b => bufHasWritten b len
  | .unwrite len, b => bufUnwrite b len
  | .findStr str, b => do
    let _ ← bufFindStr b str
    return b
  | .findChar c, b => do
    let _ ← bufFindChar b c
    return b
  | .retrieveAsString len, b => return (← bufRetrieveAsString b len).2
  | .retrieveAll, b => return bufRetrieveAll b
  | .retrieve len, b => bufRetrieve b len
  | .retrieveUntil e, b => bufRetrieveUntil b e
  | .ensureWritable len, b => bufEnsureWritable b len
  | .append d, b => bufAppend b d
  | .prepend d, b => bufPrepend b d
  | .shrink reserve, b => bufShrink b reserve
  | .appendInt k x, b => bufAppendInt k b x
  | .appendIntLE k x, b => bufAppendIntLE k b x
  | .prependInt k x, b => bufPrependInt k b x
  | .prependIntLE k x, b => bufPrependIntLE k b x
  | .peekInt k, b => do
    let _ ← bufPeekInt k b
    return b
  | .peekIntLE w k, b => do
    let _ ← bufPeekIntLE w k b
    return b
  | .readInt k, b => return (← bufReadInt k b).2
  | .readIntLE w k, b => return (← bufReadIntLE w k b).2
  | .readCStr sz, b => return (← bufReadCStr b sz).2
  | .readStr sz, b => return (← bufReadStr b sz).2
  | .dupCStr, b => return (← bufDupCStr b).2
  | .dupStr sz, b => return (← bufDupStr b sz).2
  | .readFd errno r, b => return (← bufReadFd b errno r).2.2
  | .setReadIndex readIdx, b => return bufSetReadIndex b readIdx
  | .setWriteIndex writeIdx, b => bufSetWriteIndex b writeIdx

/-- `buf_ensureWritable` goes through `buf_swap`. -/
def bufSwaps (b : Buffer) (len : Nat) : Bool :=
  decide (bufWritable b < len)
    && decide (szSub (szAdd (bufPrependable b) (bufWritable b)) b.pSz < len)

/-- A call goes through `buf_swap`: the old block is freed and the buffer has a new one. -/
def BufCall.swaps : BufCall → Buffer → Bool
  | .ensureWritable len, b => bufSwaps b len
  | .append d, b => bufSwaps b d.length
  | .shrink _, _ => true
  | .appendInt k _, b => bufSwaps b k
  | .appendIntLE k _, b => bufSwaps b k
  | .readFd _ (.got data), b =>
    let n := (data.take (bufReadvRoom b)).length
    -- what does not fit the block is appended to a full buffer
    decide (bufWritable b < n) && bufSwaps { b with writeIdx := b.sz } (n - bufWritable b)
  | _, _ => false

/-- The bytes that a call stores in front of the readable ones. -/
def BufCall.prepended : BufCall → List UInt8
  | .prepend d => d
  | .prependInt k x => beBytes k (toUnsigned (8 * k) x)
  | .prependIntLE k x => leBytes k (toUnsigned (8 * k) x)
  | _ => []

/-! ### The heap -/

/-- An object of type `struct buffer`. The pointer `buf` is the byte `off` of the block `block`. -/
structure BufObj where
  /-- Start of the readable bytes. -/
  readIdx : Nat
  /-- End of the readable bytes. -/
  writeIdx : Nat
  /-- Capacity. -/
  sz : Nat
  /-- Size of the reserved front. -/
  pSz : Nat
  /-- The block `buf` points into. -/
  block : Nat
  /-- The offset of `buf` in the block. -/
  off : Nat
  /-- Number of live read-only views. -/
  refcount : Nat
  /-- The buffer this one is a view of. -/
  src : Option Nat
  /-- The cached view. -/
  cache : Option Nat
  deriving DecidableEq, Repr

/-- The buffer of an object whose block holds `m`. -/
def BufObj.toBuffer (o : BufObj) (m : List UInt8) : Buffer :=
  { readIdx := o.readIdx, writeIdx := o.writeIdx, sz := o.sz, pSz := o.pSz, buf := m.drop o.off,
    refcount := o.refcount, src := o.src, cache := o.cache }

/-- The object of a buffer whose bytes begin at `off` of `block`. -/
def BufObj.ofBuffer (b : Buffer) (block off : Nat) : BufObj :=
  { readIdx := b.readIdx, writeIdx := b.writeIdx, sz := b.sz, pSz := b.pSz, block := block, off := off,
    refcount := b.refcount, src := b.src, cache := b.cache }

/-- The allocated objects and blocks, by address. -/
structure BufHeap where
  /-- The objects. -/
  objs : Nat → Option BufObj
  /-- The blocks. -/
  blocks : Nat → Option (List UInt8)

namespace BufHeap

/-- Access to the object at `p`. -/
def deref (h : BufHeap) (p : Nat) : Exec BufObj :=
  match h.objs p with
  | some o => .ok o
  | none => .error .outOfBounds

/-- Access to the block at `k`. -/
def bytes (h : BufHeap) (k : Nat) : Exec (List UInt8) :=
  match h.blocks k with
  | some m => .ok m
  | none => .error .outOfBounds

/-- The object at `p` is replaced, or freed. -/
def setObj (h : BufHeap) (p : Nat) (o : Option BufObj) : BufHeap :=
  { h with objs := Function.update h.objs p o }

/-- The block at `k` is replaced, or freed. -/
def setBlock (h : BufHeap) (k : Nat) (m : Option (List UInt8)) : BufHeap :=
  { h with blocks := Function.update h.blocks k m }

@[simp] theorem setObj_objs_self (h : BufHeap) (p : Nat) (o : Option BufObj) :
    (h.setObj p o).objs p = o := by
  unfold setObj
  exact Function.update_self p o h.objs

theorem setObj_objs_of_ne (h : BufHeap) {p q : Nat} (hne : q ≠ p) (o : Option BufObj) :
    (h.setObj p o).objs q = h.objs q := by
  unfold setObj
  exact Function.update_of_ne hne o h.objs

@[simp] theorem setObj_blocks (h : BufHeap) (p : Nat) (o : Option BufObj) :
    (h.setObj p o).blocks = h.blocks := rfl

@[simp] theorem setBlock_blocks_self (h : BufHeap) (k : Nat) (m : Option (List UInt8)) :
    (h.setBlock k m).blocks k = m := by
  unfold setBlock
  exact Function.update_self k m h.blocks

theorem setBlock_blocks_of_ne (h : BufHeap) {k j : Nat} (hne : j ≠ k) (m : Option (List UInt8)) :
    (h.setBlock k m).blocks j = h.blocks j := by
  unfold setBlock
  exact Function.update_of_ne hne m h.blocks

/-- An access returns what is allocated. -/
theorem deref_eq_ok {h : BufHeap} {p : Nat} {o : BufObj} : h.deref p = .ok o ↔ h.objs p = some o := by
  unfold deref
  cases h.objs p with
  | none => exact iff_of_false (fun h => nomatch h) (fun h => nomatch h)
  | some o' => rw [Except.ok.injEq, Option.some.injEq]

/-- An access returns what is allocated. -/
theorem bytes_eq_ok {h : BufHeap} {k : Nat} {m : List UInt8} :
    h.bytes k = .ok m ↔ h.blocks k = some m := by
  unfold bytes
  cases h.blocks k with
  | none => exact iff_of_false (fun h => nomatch h) (fun h => nomatch h)
  | some m' => rw [Except.ok.injEq, Option.some.injEq]

/-- The buffer at `p` with the bytes behind its pointer. -/
def load (h : BufHeap) (p : Nat) : Exec Buffer := do
  let o ← h.deref p
  let m ← h.bytes o.block
  return o.toBuffer m

/-- The bytes at the positions `off`, ..., `off + len - 1` of the block `k`. -/
def bytesAt (h : BufHeap) (k off len : Nat) : Option (List UInt8) :=
  (h.blocks k).map fun m => slice m off len

/-- A call on the buffer at `p`; `k` is the address of the block `buf_swap` allocates. -/
def call (h : BufHeap) (p : Nat) (c : BufCall) (k : Nat) : Exec BufHeap := do
  let o ← h.deref p
  let m ← h.bytes o.block
  let b ← c.run (o.toBuffer m)
  if c.swaps (o.toBuffer m) then
    return ((h.setBlock o.block none).setBlock k (some b.buf)).setObj p (some (.ofBuffer b k 0))
  else
    return (h.setBlock o.block (some (m.take o.off ++ b.buf))).setObj p
      (some (.ofBuffer b o.block o.off))

end BufHeap

/-- `buf_create_ex`: `alloc` are the addresses of the object and the block, `none` when a `calloc`
fails. -/
def heapCreateEx (h : BufHeap) (size prependSize : Nat) (alloc : Option (Nat × Nat)) :
    Exec (Option Nat × BufHeap) := do
  let b ← bufCreateEx size prependSize
  match alloc with
  | none => return (none, h)
  | some (p, k) => return (some p, (h.setBlock k (some b.buf)).setObj p (some (.ofBuffer b k 0)))

/-- The fields of a view of `n` bytes of the buffer `o` at `p`. -/
def viewOf (p : Nat) (o : BufObj) (n : Nat) : BufObj :=
  { readIdx := 0, writeIdx := n, sz := n, pSz := 0, block := o.block, off := o.off + o.readIdx,
    refcount := 0, src := some p, cache := none }

/-- `buf_readonlyView`: the view, or `none` for `NULL`. `alloc` is what `calloc` returns when no
view is cached. -/
def heapReadonlyView (h : BufHeap) (p : Nat) (sz : Int) (alloc : Option Nat) :
    Exec (Option Nat × BufHeap) := do
  cassert (0 < sz)
  let o ← h.deref p
  let readable := szSub o.writeIdx o.readIdx
  let n := if readable < toUnsigned 64 sz then readable else toUnsigned 64 sz
  match o.cache with
  | some v =>
    -- the cached object is cleared and used again
    let _ ← h.deref v
    return (some v, (h.setObj v (some (viewOf p o n))).setObj p
      (some { o with refcount := szAdd o.refcount 1, cache := none }))
  | none =>
    match alloc with
    | none => return (none, h)
    | some v => return (some v, (h.setObj v (some (viewOf p o n))).setObj p
        (some { o with refcount := szAdd o.refcount 1 }))

/-- `buf_release`. -/
def heapRelease (h : BufHeap) (p : Nat) : Exec BufHeap := do
  let o ← h.deref p
  cassert (o.refcount = 0)
  match o.src with
  | some q =>
    let oq ← h.deref q
    match oq.cache with
    | none =>
      return h.setObj q (some { oq with refcount := szSub oq.refcount 1, cache := some p })
    | some _ =>
      return (h.setObj q (some { oq with refcount := szSub oq.refcount 1 })).setObj p none
  | none =>
    let _ ← h.bytes o.block
    let h := h.setBlock o.block none
    let h := match o.cache with
      | some c => h.setObj c none
      | none => h
    return h.setObj p none

/-! ### Runs -/

/-- A call of the interface. -/
inductive HeapOp
  /-- `buf_create_ex`, `buf_create`. -/
  | create (size prependSize : Nat) (alloc : Option (Nat × Nat))
  /-- A call on the buffer `p`. -/
  | call (p : Nat) (c : BufCall) (k : Nat)
  /-- `buf_readonlyView`. -/
  | readonlyView (p : Nat) (sz : Int) (alloc : Option Nat)
  /-- `buf_release`. -/
  | release (p : Nat)
  deriving DecidableEq, Repr

/-- The heap and the buffers that have been handed out and not been released since. -/
structure BufWorld where
  /-- The heap. -/
  heap : BufHeap
  /-- The live buffers. -/
  live : Finset Nat

/-- Nothing is allocated. -/
def emptyWorld : BufWorld := ⟨⟨fun _ => none, fun _ => none⟩, ∅⟩

/-- A buffer that is handed out is live. -/
def BufWorld.handOut (s : BufWorld) (r : Option Nat × BufHeap) : Option Nat × BufWorld :=
  match r.1 with
  | none => (none, ⟨r.2, s.live⟩)
  | some v => (some v, ⟨r.2, insert v s.live⟩)

/-- One call, with the buffer that it hands out. -/
def heapStep (s : BufWorld) : HeapOp → Exec (Option Nat × BufWorld)
  | .create size prependSize alloc => return s.handOut (← heapCreateEx s.heap size prependSize alloc)
  | .call p c k => return (none, ⟨← s.heap.call p c k, s.live⟩)
  | .readonlyView p sz alloc => return s.handOut (← heapReadonlyView s.heap p sz alloc)
  | .release p => return (none, ⟨← heapRelease s.heap p, s.live.erase p⟩)

/-- `calloc` may return the address `p` for an object. -/
def BufWorld.FreshObj (s : BufWorld) (p : Nat) : Prop :=
  0 < p ∧ p < 2 ^ 64 ∧ (s.heap.objs p).isNone = true

/-- `calloc` may return the address `k` for a block. -/
def BufWorld.FreshBlock (s : BufWorld) (k : Nat) : Prop := (s.heap.blocks k).isNone = true

instance (s : BufWorld) (p : Nat) : Decidable (s.FreshObj p) :=
  inferInstanceAs (Decidable (0 < p ∧ p < 2 ^ 64 ∧ (s.heap.objs p).isNone = true))

instance (s : BufWorld) (k : Nat) : Decidable (s.FreshBlock k) :=
  inferInstanceAs (Decidable ((s.heap.blocks k).isNone = true))

/-- **The contract of the interface**: calls are on live buffers, and `calloc` returns addresses
that are not in use. -/
def HeapOp.Allowed (s : BufWorld) : HeapOp → Prop
  | .create _ _ none => True
  | .create _ _ (some (p, k)) => s.FreshObj p ∧ s.FreshBlock k
  | .call p _ k => p ∈ s.live ∧ s.FreshBlock k
  | .readonlyView p _ none => p ∈ s.live
  | .readonlyView p _ (some v) => p ∈ s.live ∧ s.FreshObj v
  | .release p => p ∈ s.live

instance instDecidableAllowed (s : BufWorld) : ∀ o : HeapOp, Decidable (o.Allowed s)
  | .create _ _ none => inferInstanceAs (Decidable True)
  | .create _ _ (some (p, k)) => inferInstanceAs (Decidable (s.FreshObj p ∧ s.FreshBlock k))
  | .call p _ k => inferInstanceAs (Decidable (p ∈ s.live ∧ s.FreshBlock k))
  | .readonlyView p _ none => inferInstanceAs (Decidable (p ∈ s.live))
  | .readonlyView p _ (some v) => inferInstanceAs (Decidable (p ∈ s.live ∧ s.FreshObj v))
  | .release p => inferInstanceAs (Decidable (p ∈ s.live))

/-- The live buffers with their sources as parents. -/
def BufWorld.forest (s : BufWorld) : Forest Nat where
  nodes := s.live
  parent v := if v ∈ s.live then (s.heap.objs v).bind BufObj.src else none

end Wee
