import Wee.Base.Buffer
import Wee.Lib.Refine

/-! # The pointer-based buffer (`base/buffer2.c`)

`buffer2.c` is another implementation of the interface of `buffer.c`, without views and the
little-endian integers. Where `Buffer` has indices, `Buffer2` has pointers: 64-bit addresses, on
which arithmetic wraps around, into a block at the address `buf`. `buf_swap` moves the bytes to a
block at another address, which is an argument of the functions that may call it. -/

namespace Wee

/-- `struct buffer` of `buffer2.c`, with the bytes of its block. -/
structure Buffer2 where
  /-- `read_idx`. -/
  readIdx : Nat
  /-- `write_idx`. -/
  writeIdx : Nat
  /-- `sz`. -/
  sz : Nat
  /-- `buf`. -/
  buf : Nat
  /-- `p_sz`. -/
  pSz : Nat
  /-- The block. -/
  mem : List UInt8
  deriving DecidableEq, Repr

/-- `buf_create_ex`, where `malloc` returns the block at `addr`. -/
def buf2CreateEx (size prependSize addr : Nat) : Buffer2 :=
  let size := if size = 0 then 1024 else size
  let sz := szAdd size prependSize
  { readIdx := szAdd addr prependSize, writeIdx := szAdd addr prependSize, sz := sz, buf := addr,
    pSz := prependSize, mem := List.replicate sz 0 }

/-! ### Sizes and indices -/

/-- `buf_readable`. -/
def buf2Readable (b : Buffer2) : Nat := szSub b.writeIdx b.readIdx

/-- `buf_writable`. -/
def buf2Writable (b : Buffer2) : Nat := szSub (szAdd b.buf b.sz) b.writeIdx

/-- `buf_prependable`. -/
def buf2Prependable (b : Buffer2) : Nat := szSub b.readIdx b.buf

/-- `buf_internalCapacity`. -/
def buf2InternalCapacity (b : Buffer2) : Nat := b.sz

/-- `buf_getReadIndex`. -/
def buf2GetReadIndex (b : Buffer2) : Nat := szSub b.readIdx b.buf

/-- `buf_getWriteIndex`. -/
def buf2GetWriteIndex (b : Buffer2) : Nat := szSub b.writeIdx b.buf

/-- `buf_setWriteIndex`. -/
def buf2SetWriteIndex (b : Buffer2) (writeIdx : Nat) : Exec Buffer2 := do
  cassert (szSub b.readIdx b.buf ≤ writeIdx ∧ writeIdx < b.sz)
  return { b with writeIdx := szAdd b.buf writeIdx }

/-! ### Memory -/

/-- `memcpy` of `len` bytes from the pointer `p`. -/
def Buffer2.load (b : Buffer2) (p len : Nat) : Exec (List UInt8) := memLoad b.mem (szSub p b.buf) len

/-- `memcpy` of `d` to the pointer `p`. -/
def Buffer2.store (b : Buffer2) (p : Nat) (d : List UInt8) : Exec Buffer2 := do
  let m ← memStore b.mem (szSub p b.buf) d
  return { b with mem := m }

/-- A store of `d` through the pointer `buf_beginWrite` returns. -/
def buf2BeginWriteStore (b : Buffer2) (d : List UInt8) : Exec Buffer2 := b.store b.writeIdx d

/-- `buf_has_written`. -/
def buf2HasWritten (b : Buffer2) (len : Nat) : Exec Buffer2 := do
  cassert (len ≤ buf2Writable b)
  return { b with writeIdx := szAdd b.writeIdx len }

/-- `buf_unwrite`. -/
def buf2Unwrite (b : Buffer2) (len : Nat) : Exec Buffer2 := do
  cassert (len ≤ buf2Readable b)
  return { b with writeIdx := szSub b.writeIdx len }

/-! ### Searching and retrieving -/

/-- `buf_findStr`: the pointer found, or `none` for `NULL`. -/
def buf2FindStr (b : Buffer2) (str : List UInt8) : Exec (Option Nat) := do
  let d ← b.load b.readIdx (buf2Readable b)
  return (memmem str d).map (szAdd b.readIdx ·)

/-- `buf_findCRLF`. -/
def buf2FindCRLF (b : Buffer2) : Exec (Option Nat) := buf2FindStr b [13, 10]

/-- `buf_findChar`. -/
def buf2FindChar (b : Buffer2) (c : UInt8) : Exec (Option Nat) := do
  let d ← b.load b.readIdx (buf2Readable b)
  return (d.findIdx? (· == c)).map (szAdd b.readIdx ·)

/-- `buf_findEOL`. -/
def buf2FindEOL (b : Buffer2) : Exec (Option Nat) := buf2FindChar b 10

/-- `buf_retrieveAll`. -/
def buf2RetrieveAll (b : Buffer2) : Buffer2 :=
  { b with readIdx := szAdd b.buf b.pSz, writeIdx := szAdd b.buf b.pSz }

/-- `buf_retrieve`. -/
def buf2Retrieve (b : Buffer2) (len : Nat) : Exec Buffer2 := do
  cassert (len ≤ buf2Readable b)
  if len < buf2Readable b then return { b with readIdx := szAdd b.readIdx len }
  else return buf2RetrieveAll b

/-- `buf_retrieveAsString`: the bytes stored in `str`, with the terminating NUL, and the buffer. -/
def buf2RetrieveAsString (b : Buffer2) (len : Nat) : Exec (List UInt8 × Buffer2) := do
  let d ← b.load b.readIdx len
  let b ← buf2Retrieve b len
  return (d ++ [0], b)

/-- `buf_retrieveUntil`, up to the pointer `e`. -/
def buf2RetrieveUntil (b : Buffer2) (e : Nat) : Exec Buffer2 := do
  cassert (b.readIdx ≤ e)
  cassert (e ≤ b.writeIdx)
  buf2Retrieve b (szSub e b.readIdx)

/-- `buf_retrieveInt64`. -/
def buf2RetrieveInt64 (b : Buffer2) : Exec Buffer2 := buf2Retrieve b 8

/-- `buf_retrieveInt32`. -/
def buf2RetrieveInt32 (b : Buffer2) : Exec Buffer2 := buf2Retrieve b 4

/-- `buf_retrieveInt16`. -/
def buf2RetrieveInt16 (b : Buffer2) : Exec Buffer2 := buf2Retrieve b 2

/-- `buf_retrieveInt8`. -/
def buf2RetrieveInt8 (b : Buffer2) : Exec Buffer2 := buf2Retrieve b 1

/-! ### Growing -/

/-- `buf_swap`: move the readable bytes to a fresh zeroed block of `nsz` bytes at `addr`. The
pointers still lead into the old block. -/
def buf2Swap (b : Buffer2) (nsz addr : Nat) : Exec Buffer2 := do
  cassert (buf2Readable b ≤ nsz)
  let d ← b.load b.readIdx (buf2Readable b)
  let m ← memStore (List.replicate nsz 0) b.pSz d
  return { b with buf := addr, mem := m, sz := nsz }

/-- The body of `buf_makeSpace` before the pointers are reset. -/
def buf2MakeRoom (b : Buffer2) (len addr : Nat) : Exec Buffer2 :=
  if szSub (szAdd (buf2Prependable b) (buf2Writable b)) b.pSz < len then
    buf2Swap b (szAdd (szSub b.writeIdx b.buf) len) addr
  else do
    cassert (szAdd b.buf b.pSz < b.readIdx)
    let d ← b.load b.readIdx (buf2Readable b)
    b.store (szAdd b.buf b.pSz) d

/-- `buf_makeSpace`. -/
def buf2MakeSpace (b : Buffer2) (len addr : Nat) : Exec Buffer2 := do
  let readable := buf2Readable b
  let b ← buf2MakeRoom b len addr
  let readIdx := szAdd b.buf b.pSz
  let b := { b with readIdx := readIdx, writeIdx := szAdd readIdx readable }
  cassert (readable = buf2Readable b)
  return b

/-- `buf_ensureWritable`. -/
def buf2EnsureWritable (b : Buffer2) (len addr : Nat) : Exec Buffer2 := do
  let b ← if buf2Writable b < len then buf2MakeSpace b len addr else pure b
  cassert (len ≤ buf2Writable b)
  return b

/-- `buf_append`. -/
def buf2Append (b : Buffer2) (d : List UInt8) (addr : Nat) : Exec Buffer2 := do
  let b ← buf2EnsureWritable b d.length addr
  let b ← buf2BeginWriteStore b d
  buf2HasWritten b d.length

/-- `buf_prepend`. -/
def buf2Prepend (b : Buffer2) (d : List UInt8) : Exec Buffer2 := do
  cassert (d.length ≤ buf2Prependable b)
  let b := { b with readIdx := szSub b.readIdx d.length }
  b.store b.readIdx d

/-! ### Integers -/

/-- The body of `buf_appendInt*` for a `k`-byte integer. -/
def buf2AppendInt (k : Nat) (b : Buffer2) (x : Int) (addr : Nat) : Exec Buffer2 :=
  buf2Append b (beBytes k (toUnsigned (8 * k) x)) addr

/-- `buf_appendInt64`. -/
def buf2AppendInt64 (b : Buffer2) (x : Int) (addr : Nat) : Exec Buffer2 := buf2AppendInt 8 b x addr

/-- `buf_appendInt32`. -/
def buf2AppendInt32 (b : Buffer2) (x : Int) (addr : Nat) : Exec Buffer2 := buf2AppendInt 4 b x addr

/-- `buf_appendInt16`. -/
def buf2AppendInt16 (b : Buffer2) (x : Int) (addr : Nat) : Exec Buffer2 := buf2AppendInt 2 b x addr

/-- `buf_appendInt8`. -/
def buf2AppendInt8 (b : Buffer2) (x : Int) (addr : Nat) : Exec Buffer2 := buf2AppendInt 1 b x addr

/-- The body of `buf_prependInt*` for a `k`-byte integer. -/
def buf2PrependInt (k : Nat) (b : Buffer2) (x : Int) : Exec Buffer2 :=
  buf2Prepend b (beBytes k (toUnsigned (8 * k) x))

/-- `buf_prependInt64`. -/
def buf2PrependInt64 (b : Buffer2) (x : Int) : Exec Buffer2 := buf2PrependInt 8 b x

/-- `buf_prependInt32`. -/
def buf2PrependInt32 (b : Buffer2) (x : Int) : Exec Buffer2 := buf2PrependInt 4 b x

/-- `buf_prependInt16`. -/
def buf2PrependInt16 (b : Buffer2) (x : Int) : Exec Buffer2 := buf2PrependInt 2 b x

/-- `buf_prependInt8`. -/
def buf2PrependInt8 (b : Buffer2) (x : Int) : Exec Buffer2 := buf2PrependInt 1 b x

/-- The body of `buf_peekInt*` for a `k`-byte integer. -/
def buf2PeekInt (k : Nat) (b : Buffer2) : Exec Int := do
  cassert (k ≤ buf2Readable b)
  let d ← b.load b.readIdx k
  return toSigned (8 * k) (beNat d)

/-- `buf_peekInt64`. -/
def buf2PeekInt64 (b : Buffer2) : Exec Int := buf2PeekInt 8 b

/-- `buf_peekInt32`. -/
def buf2PeekInt32 (b : Buffer2) : Exec Int := buf2PeekInt 4 b

/-- `buf_peekInt16`. -/
def buf2PeekInt16 (b : Buffer2) : Exec Int := buf2PeekInt 2 b

/-- `buf_peekInt8`. -/
def buf2PeekInt8 (b : Buffer2) : Exec Int := buf2PeekInt 1 b

/-- The body of `buf_readInt*` for a `k`-byte integer. -/
def buf2ReadInt (k : Nat) (b : Buffer2) : Exec (Int × Buffer2) := do
  let x ← buf2PeekInt k b
  let b ← buf2Retrieve b k
  return (x, b)

/-- `buf_readInt64`. -/
def buf2ReadInt64 (b : Buffer2) : Exec (Int × Buffer2) := buf2ReadInt 8 b

/-- `buf_readInt32`. -/
def buf2ReadInt32 (b : Buffer2) : Exec (Int × Buffer2) := buf2ReadInt 4 b

/-- `buf_readInt16`. -/
def buf2ReadInt16 (b : Buffer2) : Exec (Int × Buffer2) := buf2ReadInt 2 b

/-- `buf_readInt8`. -/
def buf2ReadInt8 (b : Buffer2) : Exec (Int × Buffer2) := buf2ReadInt 1 b

/-! ### Reading from a descriptor -/

/-- The total size of the iovecs `buf_readFd` passes to `readv`. -/
def buf2ReadvRoom (b : Buffer2) : Nat :=
  if buf2Writable b < extrabufSize then buf2Writable b + extrabufSize else buf2Writable b

/-- `buf_readFd` on the outcome `r` of its `readv`: the returned count, the value left in `*errno_`
and the buffer. -/
def buf2ReadFd (b : Buffer2) (errno : Int) (r : ReadvRes) (addr : Nat) :
    Exec (Int × Int × Buffer2) := do
  let writable := buf2Writable b
  match r with
  | .fail _ => return (-1, -1, b)   -- `*errno_ = n` here as well
  | .got data =>
    let data := data.take (buf2ReadvRoom b)
    let b ← buf2BeginWriteStore b (data.take writable)
    if data.length ≤ writable then
      return (data.length, errno, { b with writeIdx := szAdd b.writeIdx data.length })
    else
      let b ← buf2Append { b with writeIdx := szAdd b.buf b.sz } (data.drop writable) addr
      return (data.length, errno, b)

/-! ### Runs of the shared interface -/

/-- The operations that both files define, other than `buf_shrink` and `buf_setReadIndex`. -/
inductive SharedOp
  /-- `buf_append`. -/
  | append (d : List UInt8)
  /-- `buf_prepend`. -/
  | prepend (d : List UInt8)
  /-- A store through `buf_beginWrite`. -/
  | beginWrite (d : List UInt8)
  /-- `buf_has_written`. -/
  | hasWritten (len : Nat)
  /-- `buf_unwrite`. -/
  | unwrite (len : Nat)
  /-- `buf_ensureWritable`. -/
  | ensureWritable (len : Nat)
  /-- `buf_findStr`, `buf_findCRLF`. -/
  | findStr (str : List UInt8)
  /-- `buf_findChar`, `buf_findEOL`. -/
  | findChar (c : UInt8)
  /-- `buf_retrieve`, `buf_retrieveInt*`. -/
  | retrieve (len : Nat)
  /-- `buf_retrieveAll`. -/
  | retrieveAll
  /-- `buf_retrieveAsString`. -/
  | retrieveAsString (len : Nat)
  /-- `buf_retrieveUntil` the pointer `e` bytes into the block. -/
  | retrieveUntil (e : Nat)
  /-- `buf_appendInt*`. -/
  | appendInt (k : Nat) (x : Int)
  /-- `buf_prependInt*`. -/
  | prependInt (k : Nat) (x : Int)
  /-- `buf_peekInt*`. -/
  | peekInt (k : Nat)
  /-- `buf_readInt*`. -/
  | readInt (k : Nat)
  /-- `buf_readFd`. -/
  | readFd (errno : Int) (r : ReadvRes)
  /-- `buf_getReadIndex`. -/
  | getReadIndex
  /-- `buf_getWriteIndex`. -/
  | getWriteIndex
  /-- `buf_setWriteIndex`. -/
  | setWriteIndex (writeIdx : Nat)
  deriving DecidableEq, Repr

/-- What an operation returns. A pointer is shown by its distance from `buf`. -/
inductive SharedRet
  /-- Nothing. -/
  | unit
  /-- An index. -/
  | index (n : Nat)
  /-- A pointer. -/
  | pointer (p : Option Nat)
  /-- An integer. -/
  | int (x : Int)
  /-- The bytes stored in `str`. -/
  | str (s : List UInt8)
  /-- The count and `*errno_` of `buf_readFd`. -/
  | count (n errno : Int)
  deriving DecidableEq, Repr

/-- What can be seen of a buffer. -/
structure BufView where
  /-- The readable bytes. -/
  bytes : List UInt8
  /-- `buf_readable`. -/
  readable : Nat
  /-- `buf_writable`. -/
  writable : Nat
  /-- `buf_prependable`. -/
  prependable : Nat
  /-- `buf_internalCapacity`. -/
  capacity : Nat
  deriving DecidableEq, Repr

/-- What can be seen of a `Buffer`. -/
def bufView (b : Buffer) : BufView :=
  { bytes := slice b.buf b.readIdx (bufReadable b), readable := bufReadable b,
    writable := bufWritable b, prependable := bufPrependable b, capacity := bufInternalCapacity b }

/-- What can be seen of a `Buffer2`. -/
def buf2View (b : Buffer2) : BufView :=
  { bytes := slice b.mem (szSub b.readIdx b.buf) (buf2Readable b), readable := buf2Readable b,
    writable := buf2Writable b, prependable := buf2Prependable b,
    capacity := buf2InternalCapacity b }

/-- An operation of `buffer.c`. -/
def bufShared (b : Buffer) : SharedOp → Exec (SharedRet × Buffer)
  | .append d => return (.unit, ← bufAppend b d)
  | .prepend d => return (.unit, ← bufPrepend b d)
  | .beginWrite d => return (.unit, ← bufBeginWriteStore b d)
  | .hasWritten len => return (.unit, ← bufHasWritten b len)
  | .unwrite len => return (.unit, ← bufUnwrite b len)
  | .ensureWritable len => return (.unit, ← bufEnsureWritable b len)
  | .findStr str => return (.pointer (← bufFindStr b str), b)
  | .findChar c => return (.pointer (← bufFindChar b c), b)
  | .retrieve len => return (.unit, ← bufRetrieve b len)
  | .retrieveAll => return (.unit, bufRetrieveAll b)
  | .retrieveAsString len => do
    let (s, b) ← bufRetrieveAsString b len
    return (.str s, b)
  | .retrieveUntil e => return (.unit, ← bufRetrieveUntil b e)
  | .appendInt k x => return (.unit, ← bufAppendInt k b x)
  | .prependInt k x => return (.unit, ← bufPrependInt k b x)
  | .peekInt k => return (.int (← bufPeekInt k b), b)
  | .readInt k => do
    let (x, b) ← bufReadInt k b
    return (.int x, b)
  | .readFd errno r => do
    let (n, errno, b) ← bufReadFd b errno r
    return (.count n errno, b)
  | .getReadIndex => return (.index (bufGetReadIndex b), b)
  | .getWriteIndex => return (.index (bufGetWriteIndex b), b)
  | .setWriteIndex writeIdx => return (.unit, ← bufSetWriteIndex b writeIdx)

/-- An operation of `buffer2.c`; `addr` is where `malloc` puts a block. -/
def buf2Shared (b : Buffer2) (addr : Nat) : SharedOp → Exec (SharedRet × Buffer2)
  | .append d => return (.unit, ← buf2Append b d addr)
  | .prepend d => return (.unit, ← buf2Prepend b d)
  | .beginWrite d => return (.unit, ← buf2BeginWriteStore b d)
  | .hasWritten len => return (.unit, ← buf2HasWritten b len)
  | .unwrite len => return (.unit, ← buf2Unwrite b len)
  | .ensureWritable len => return (.unit, ← buf2EnsureWritable b len addr)
  | .findStr str => return (.pointer ((← buf2FindStr b str).map (szSub · b.buf)), b)
  | .findChar c => return (.pointer ((← buf2FindChar b c).map (szSub · b.buf)), b)
  | .retrieve len => return (.unit, ← buf2Retrieve b len)
  | .retrieveAll => return (.unit, buf2RetrieveAll b)
  | .retrieveAsString len => do
    let (s, b) ← buf2RetrieveAsString b len
    return (.str s, b)
  | .retrieveUntil e => return (.unit, ← buf2RetrieveUntil b (szAdd b.buf e))
  | .appendInt k x => return (.unit, ← buf2AppendInt k b x addr)
  | .prependInt k x => return (.unit, ← buf2PrependInt k b x)
  | .peekInt k => return (.int (← buf2PeekInt k b), b)
  | .readInt k => do
    let (x, b) ← buf2ReadInt k b
    return (.int x, b)
  | .readFd errno r => do
    let (n, errno, b) ← buf2ReadFd b errno r addr
    return (.count n errno, b)
  | .getReadIndex => return (.index (buf2GetReadIndex b), b)
  | .getWriteIndex => return (.index (buf2GetWriteIndex b), b)
  | .setWriteIndex writeIdx => return (.unit, ← buf2SetWriteIndex b writeIdx)

/-- An operation of `buffer.c`, and what can be seen of the buffer behind it. The address does not
matter. -/
def bufSharedStep (b : Buffer) (c : SharedOp × Nat) : Exec ((SharedRet × BufView) × Buffer) := do
  let (r, b) ← bufShared b c.1
  return ((r, bufView b), b)

/-- An operation of `buffer2.c`, and what can be seen of the buffer behind it. -/
def buf2SharedStep (b : Buffer2) (c : SharedOp × Nat) : Exec ((SharedRet × BufView) × Buffer2) := do
  let (r, b) ← buf2Shared b c.2 c.1
  return ((r, buf2View b), b)

end Wee
