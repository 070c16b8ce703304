import Wee.Lib.Memory
import Wee.Lib.Word

/-! # The index-based buffer (`base/buffer.c`)

A `Buffer` is the C `struct buffer`: a block of `sz` bytes, the reserved front `pSz`, and the
indices `readIdx`/`writeIdx` that delimit the readable bytes. Index arithmetic is `size_t`
arithmetic (`szAdd`, `szSub`), every `memcpy` is a checked load or store of the block, and every
`assert` of the source is a `cassert`. Allocations are taken to succeed. -/

namespace Wee

/-- `struct buffer`. `buf` is the block from the `buf` pointer on; `src` and `cache` name the buffer
a read-only view was made from and the cached view. -/
structure Buffer where
  /-- Start of the readable bytes. -/
  readIdx : Nat
  /-- End of the readable bytes. -/
  writeIdx : Nat
  /-- Capacity of the block. -/
  sz : Nat
  /-- Size of the reserved front. -/
  pSz : Nat
  /-- The block. -/
  buf : List UInt8
  /-- Number of live read-only views. -/
  refcount : Nat
  /-- The buffer this one is a view of. -/
  src : Option Nat
  /-- The cached view. -/
  cache : Option Nat
  deriving DecidableEq, Repr

/-- `BufCheapPrepend`. -/
def bufCheapPrepend : Nat := 8

/-- `buf_create_ex`. -/
def bufCreateEx (size prependSize : Nat) : Exec Buffer := do
  cassert (0 < size)
  let sz := szAdd size prependSize
  return { readIdx := prependSize, writeIdx := prependSize, sz := sz, pSz := prependSize,
           buf := List.replicate sz 0, refcount := 0, src := none, cache := none }

/-- `buf_create`. -/
def bufCreate (size : Nat) : Exec Buffer := bufCreateEx size bufCheapPrepend

/-! ### Sizes -/

/-- `buf_readable`. -/
def bufReadable (b : Buffer) : Nat := szSub b.writeIdx b.readIdx

/-- `buf_writable`. -/
def bufWritable (b : Buffer) : Nat := szSub b.sz b.writeIdx

/-- `buf_internalCapacity`. -/
def bufInternalCapacity (b : Buffer) : Nat := b.sz

/-- `buf_prependable`. -/
def bufPrependable (b : Buffer) : Nat := b.readIdx

/-- `buf_isReadonlyView`. -/
def bufIsReadonlyView (b : Buffer) : Bool := b.src.isSome

/-- `buf_writeLocked`. -/
def bufWriteLocked (b : Buffer) : Bool := bufIsReadonlyView b || decide (0 < b.refcount)

/-- `ASSERT_WRITE`. -/
def assertWrite (b : Buffer) : Exec Unit := cassert (bufWriteLocked b = false)

/-! ### Writing and reading at the indices -/

/-- A store of `d` through the pointer `buf_beginWrite` returns. -/
def bufBeginWriteStore (b : Buffer) (d : List UInt8) : Exec Buffer := do
  let m ← memStore b.buf b.writeIdx d
  return { b with buf := m }

/-- `buf_has_written`. -/
def bufHasWritten (b : Buffer) (len : Nat) : Exec Buffer := do
  cassert (len ≤ bufWritable b)
  return { b with writeIdx := szAdd b.writeIdx len }

/-- `buf_unwrite`. -/
def bufUnwrite (b : Buffer) (len : Nat) : Exec Buffer := do
  assertWrite b
  cassert (len ≤ bufReadable b)
  return { b with writeIdx := szSub b.writeIdx len }

/-- `buf_retrieveAll`. -/
def bufRetrieveAll (b : Buffer) : Buffer := { b with readIdx := b.pSz, writeIdx := b.pSz }

/-- `buf_retrieve`. -/
def bufRetrieve (b : Buffer) (len : Nat) : Exec Buffer := do
  cassert (len ≤ bufReadable b)
  -- everything consumed puts both indices back to the reserved front
  if len < bufReadable b then return { b with readIdx := szAdd b.readIdx len }
  else return bufRetrieveAll b

/-- `buf_retrieveAsString`: the bytes stored in `str`, with the terminating NUL, and the buffer. -/
def bufRetrieveAsString (b : Buffer) (len : Nat) : Exec (List UInt8 × Buffer) := do
  let d ← memLoad b.buf b.readIdx len
  let b ← bufRetrieve b len
  return (d ++ [0], b)

/-- `buf_retrieveUntil`; pointers into the buffer are offsets from `buf->buf`. -/
def bufRetrieveUntil (b : Buffer) (e : Nat) : Exec Buffer := do
  cassert (b.readIdx ≤ e)
  cassert (e ≤ b.writeIdx)
  bufRetrieve b (szSub e b.readIdx)

/-- `buf_retrieveInt64`. -/
def bufRetrieveInt64 (b : Buffer) : Exec Buffer := bufRetrieve b 8

/-- `buf_retrieveInt32`. -/
def bufRetrieveInt32 (b : Buffer) : Exec Buffer := bufRetrieve b 4

/-- `buf_retrieveInt16`. -/
def bufRetrieveInt16 (b : Buffer) : Exec Buffer := bufRetrieve b 2

/-- `buf_retrieveInt8`. -/
def bufRetrieveInt8 (b : Buffer) : Exec Buffer := bufRetrieve b 1

/-! ### Growing -/

/-- `buf_swap`: move the readable bytes to a fresh zeroed block of `nsz` bytes. -/
def bufSwap (b : Buffer) (nsz : Nat) : Exec Buffer := do
  cassert (bufReadable b ≤ nsz)
  let d ← memLoad b.buf b.readIdx (bufReadable b)
  -- `calloc` of the new block
  let m ← memStore (List.replicate nsz 0) b.pSz d
  return { b with buf := m, sz := nsz }

/-- The body of `buf_makeSpace` before the indices are reset: a bigger block when the free bytes of
this one do not suffice, else a `memmove` to the reserved front. -/
def bufMakeRoom (b : Buffer) (len : Nat) : Exec Buffer :=
  if szSub (szAdd (bufPrependable b) (bufWritable b)) b.pSz < len then
    bufSwap b (szAdd b.writeIdx len)
  else do
    cassert (b.pSz < b.readIdx)
    let d ← memLoad b.buf b.readIdx (bufReadable b)
    let m ← memStore b.buf b.pSz d
    return { b with buf := m }

/-- `buf_makeSpace`. -/
def bufMakeSpace (b : Buffer) (len : Nat) : Exec Buffer := do
  let readable := bufReadable b
  let b ← bufMakeRoom b len
  let b := { b with readIdx := b.pSz, writeIdx := szAdd b.pSz readable }
  cassert (readable = bufReadable b)
  return b

/-- `buf_ensureWritable`. -/
def bufEnsureWritable (b : Buffer) (len : Nat) : Exec Buffer := do
  assertWrite b
  let b ← if bufWritable b < len then bufMakeSpace b len else pure b
  cassert (len ≤ bufWritable b)
  return b

/-- `buf_append`. -/
def bufAppend (b : Buffer) (d : List UInt8) : Exec Buffer := do
  assertWrite b
  let b ← bufEnsureWritable b d.length
  let b ← bufBeginWriteStore b d
  bufHasWritten b d.length

/-- `buf_prepend`. -/
def bufPrepend (b : Buffer) (d : List UInt8) : Exec Buffer := do
  cassert (d.length ≤ bufPrependable b)
  let m ← memStore b.buf (szSub b.readIdx d.length) d
  return { b with readIdx := szSub b.readIdx d.length, buf := m }

/-- `buf_shrink`: the readable bytes move to the reserved front of the new block, the indices
stay. -/
def bufShrink (b : Buffer) (reserve : Nat) : Exec Buffer := do
  assertWrite b
  bufSwap b (szAdd (szAdd b.pSz (bufReadable b)) reserve)

/-! ### Integers in network byte order

The `buf_appendInt*`, `buf_prependInt*`, `buf_peekInt*` and `buf_readInt*` families differ only in
the width, so each is one definition with the number of bytes as a parameter. -/

/-- The body of `buf_appendInt*` for a `k`-byte integer. -/
def bufAppendInt (k : Nat) (b : Buffer) (x : Int) : Exec Buffer :=
  bufAppend b (beBytes k (toUnsigned (8 * k) x))

/-- `buf_appendInt64`. -/
def bufAppendInt64 (b : Buffer) (x : Int) : Exec Buffer := bufAppendInt 8 b x

/-- `buf_appendInt32`. -/
def bufAppendInt32 (b : Buffer) (x : Int) : Exec Buffer := bufAppendInt 4 b x

/-- `buf_appendInt16`. -/
def bufAppendInt16 (b : Buffer) (x : Int) : Exec Buffer := bufAppendInt 2 b x

/-- `buf_appendInt8`. -/
def bufAppendInt8 (b : Buffer) (x : Int) : Exec Buffer := bufAppendInt 1 b x

/-- The body of `buf_prependInt*` for a `k`-byte integer. -/
def bufPrependInt (k : Nat) (b : Buffer) (x : Int) : Exec Buffer :=
  bufPrepend b (beBytes k (toUnsigned (8 * k) x))

/-- `buf_prependInt8`. -/
def bufPrependInt8 (b : Buffer) (x : Int) : Exec Buffer := bufPrependInt 1 b x

/-- `buf_prependInt16`. -/
def bufPrependInt16 (b : Buffer) (x : Int) : Exec Buffer := bufPrependInt 2 b x

/-- `buf_prependInt32`. -/
def bufPrependInt32 (b : Buffer) (x : Int) : Exec Buffer := bufPrependInt 4 b x

/-- `buf_prependInt64`. -/
def bufPrependInt64 (b : Buffer) (x : Int) : Exec Buffer := bufPrependInt 8 b x

/-- The body of `buf_peekInt*` for a `k`-byte integer. -/
def bufPeekInt (k : Nat) (b : Buffer) : Exec Int := do
  cassert (k ≤ bufReadable b)
  let d ← memLoad b.buf b.readIdx k
  return toSigned (8 * k) (beNat d)

/-- `buf_peekInt64`. -/
def bufPeekInt64 (b : Buffer) : Exec Int := bufPeekInt 8 b

/-- `buf_peekInt32`. -/
def bufPeekInt32 (b : Buffer) : Exec Int := bufPeekInt 4 b

/-- `buf_peekInt16`. -/
def bufPeekInt16 (b : Buffer) : Exec Int := bufPeekInt 2 b

/-- `buf_peekInt8`. -/
def bufPeekInt8 (b : Buffer) : Exec Int := bufPeekInt 1 b

/-- The body of `buf_readInt*` for a `k`-byte integer. -/
def bufReadInt (k : Nat) (b : Buffer) : Exec (Int × Buffer) := do
  let x ← bufPeekInt k b
  let b ← bufRetrieve b k
  return (x, b)

/-- `buf_readInt8`. -/
def bufReadInt8 (b : Buffer) : Exec (Int × Buffer) := bufReadInt 1 b

/-- `buf_readInt16`. -/
def bufReadInt16 (b : Buffer) : Exec (Int × Buffer) := bufReadInt 2 b

/-- `buf_readInt32`. -/
def bufReadInt32 (b : Buffer) : Exec (Int × Buffer) := bufReadInt 4 b

/-- `buf_readInt64`. -/
def bufReadInt64 (b : Buffer) : Exec (Int × Buffer) := bufReadInt 8 b

/-! ### Little-endian integers -/

/-- The `k` little-endian bytes of `n`. -/
def leBytes (k n : Nat) : List UInt8 := (beBytes k n).reverse

/-- The unsigned value of little-endian bytes. -/
def leNat (d : List UInt8) : Nat := beNat d.reverse

/-- The body of `buf_appendInt*LE` for a `k`-byte integer. -/
def bufAppendIntLE (k : Nat) (b : Buffer) (x : Int) : Exec Buffer :=
  bufAppend b (leBytes k (toUnsigned (8 * k) x))

/-- `buf_appendInt64LE`. -/
def bufAppendInt64LE (b : Buffer) (x : Int) : Exec Buffer := bufAppendIntLE 8 b x

/-- `buf_appendInt32LE`. -/
def bufAppendInt32LE (b : Buffer) (x : Int) : Exec Buffer := bufAppendIntLE 4 b x

/-- `buf_appendInt16LE`. -/
def bufAppendInt16LE (b : Buffer) (x : Int) : Exec Buffer := bufAppendIntLE 2 b x

/-- The body of `buf_prependInt*LE` for a `k`-byte integer. -/
def bufPrependIntLE (k : Nat) (b : Buffer) (x : Int) : Exec Buffer :=
  bufPrepend b (leBytes k (toUnsigned (8 * k) x))

/-- `buf_prependInt64LE`. -/
def bufPrependInt64LE (b : Buffer) (x : Int) : Exec Buffer := bufPrependIntLE 8 b x

/-- `buf_prependInt32LE`. -/
def bufPrependInt32LE (b : Buffer) (x : Int) : Exec Buffer := bufPrependIntLE 4 b x

/-- `buf_prependInt16LE`. -/
def bufPrependInt16LE (b : Buffer) (x : Int) : Exec Buffer := bufPrependIntLE 2 b x

/-- The body of `buf_peekInt*LE` for a `k`-byte integer read as one of `w` bits. -/
def bufPeekIntLE (w k : Nat) (b : Buffer) : Exec Int := do
  cassert (k ≤ bufReadable b)
  let d ← memLoad b.buf b.readIdx k
  return toSigned w (leNat d)

/-- `buf_peekInt64LE`. -/
def bufPeekInt64LE (b : Buffer) : Exec Int := bufPeekIntLE 64 8 b

/-- `buf_peekInt32LE`. -/
def bufPeekInt32LE (b : Buffer) : Exec Int := bufPeekIntLE 32 4 b

/-- `buf_peekInt32LE24`: three bytes, the high byte of the `int32_t` is zero. -/
def bufPeekInt32LE24 (b : Buffer) : Exec Int := bufPeekIntLE 32 3 b

/-- `buf_peekInt16LE`. -/
def bufPeekInt16LE (b : Buffer) : Exec Int := bufPeekIntLE 16 2 b

/-- The body of `buf_readInt*LE`. -/
def bufReadIntLE (w k : Nat) (b : Buffer) : Exec (Int × Buffer) := do
  let x ← bufPeekIntLE w k b
  let b ← bufRetrieve b k
  return (x, b)

/-- `buf_readInt64LE`. -/
def bufReadInt64LE (b : Buffer) : Exec (Int × Buffer) := bufReadIntLE 64 8 b

/-- `buf_readInt32LE`. -/
def bufReadInt32LE (b : Buffer) : Exec (Int × Buffer) := bufReadIntLE 32 4 b

/-- `buf_readInt32LE24`. -/
def bufReadInt32LE24 (b : Buffer) : Exec (Int × Buffer) := bufReadIntLE 32 3 b

/-- `buf_readInt16LE`. -/
def bufReadInt16LE (b : Buffer) : Exec (Int × Buffer) := bufReadIntLE 16 2 b

/-! ### Searching and strings -/

/-- `memmem`: the first index at which `needle` occurs. -/
def memmem (needle : List UInt8) : List UInt8 → Option Nat
  | [] => if needle = [] then some 0 else none
  | c :: hay =>
    if needle.isPrefixOf (c :: hay) then some 0 else (memmem needle hay).map (· + 1)

/-- `buf_findStr`. -/
def bufFindStr (b : Buffer) (str : List UInt8) : Exec (Option Nat) := do
  let d ← memLoad b.buf b.readIdx (bufReadable b)
  return (memmem str d).map (b.readIdx + ·)

/-- `buf_findCRLF`. -/
def bufFindCRLF (b : Buffer) : Exec (Option Nat) := bufFindStr b [13, 10]

/-- `buf_findChar`: `memchr` over the readable bytes. -/
def bufFindChar (b : Buffer) (c : UInt8) : Exec (Option Nat) := do
  let d ← memLoad b.buf b.readIdx (bufReadable b)
  return (d.findIdx? (· == c)).map (b.readIdx + ·)

/-- `buf_findEOL`. -/
def bufFindEOL (b : Buffer) : Exec (Option Nat) := bufFindChar b 10

/-- The `int` that `buf_readCStr` and `buf_dupCStr` compute from `eos`: the bytes up to the NUL and
the NUL, or the readable bytes and one more. -/
def bufCStrSize (b : Buffer) (eos : Option Nat) : Int :=
  match eos with
  | none => toSigned 32 (szAdd (bufReadable b) 1)
  | some e => toSigned 32 (szAdd (szSub e b.readIdx) 1)

/-- The end of `buf_readCStr` and `buf_dupCStr`: a missing NUL is not retrieved. -/
def bufRetrieveCStr (b : Buffer) (eos : Option Nat) (sz : Int) : Exec Buffer :=
  match eos with
  | none => bufRetrieve b (toUnsigned 64 (sz - 1))
  | some _ => bufRetrieve b (toUnsigned 64 sz)

/-- `buf_readCStr`: the bytes stored in `str`, or `none` for the `NULL` of a `str` that is too
short, and the buffer. All `sz` bytes of `str` are filled. -/
def bufReadCStr (b : Buffer) (sz : Int) : Exec (Option (List UInt8) × Buffer) := do
  let eos ← bufFindChar b 0
  let sz1 := bufCStrSize b eos
  if sz < sz1 then return (none, b)
  else
    let d ← memLoad b.buf b.readIdx (toUnsigned 64 sz)
    let b ← bufRetrieveCStr b eos sz1
    return (some d, b)

/-- `buf_dupCStr`: the new string and the buffer. -/
def bufDupCStr (b : Buffer) : Exec (List UInt8 × Buffer) := do
  let eos ← bufFindChar b 0
  let sz := bufCStrSize b eos
  let d ← memLoad b.buf b.readIdx (toUnsigned 64 sz)
  let b ← bufRetrieveCStr b eos sz
  return (d, b)

/-- `buf_readStr`: the bytes stored in `str`, with the terminating NUL, and the buffer. The
comparison of `sz` with the readable bytes is one of `size_t`. -/
def bufReadStr (b : Buffer) (sz : Int) : Exec (List UInt8 × Buffer) := do
  let sz := if bufReadable b < toUnsigned 64 sz then toSigned 32 (bufReadable b) else sz
  bufRetrieveAsString b (toUnsigned 64 sz)

/-- `buf_dupStr`: as `buf_readStr`, into a new string. -/
def bufDupStr (b : Buffer) (sz : Int) : Exec (List UInt8 × Buffer) := bufReadStr b sz

/-! ### Reading from a descriptor -/

/-- The outcome of one `readv`: `-1` with an `errno`, or the bytes placed in the iovecs in order. -/
inductive ReadvRes
  /-- `readv` returned `-1` and set `errno`. -/
  | fail (errno : Int)
  /-- `readv` returned the number of these bytes (none at end of file). -/
  | got (data : List UInt8)
  deriving DecidableEq, Repr

/-- `sizeof(extrabuf)` in `buf_readFd`. -/
def extrabufSize : Nat := 65535

/-- The total size of the iovecs `buf_readFd` passes to `readv`. -/
def bufReadvRoom (b : Buffer) : Nat :=
  if bufWritable b < extrabufSize then bufWritable b + extrabufSize else bufWritable b

/-- `buf_readFd` on the outcome `r` of its `readv`: the returned count, the value left in `*errno_`
(`errno` is its value before the call) and the buffer. `readv` hands over at most as many bytes as
the iovecs hold; what does not fit the block goes through `extrabuf`. -/
def bufReadFd (b : Buffer) (errno : Int) (r : ReadvRes) : Exec (Int × Int × Buffer) := do
  assertWrite b
  let writable := bufWritable b
  match r with
  | .fail _ => return (-1, -1, b)   -- `*errno_ = n`, not `errno`
  | .got data =>
    let data := data.take (bufReadvRoom b)
    let b ← bufBeginWriteStore b (data.take writable)
    if data.length ≤ writable then
      return (data.length, errno, { b with writeIdx := szAdd b.writeIdx data.length })
    else
      let b ← bufAppend { b with writeIdx := b.sz } (data.drop writable)
      return (data.length, errno, b)

/-! ### The indices -/

/-- `buf_getReadIndex`. -/
def bufGetReadIndex (b : Buffer) : Nat := b.readIdx

/-- `buf_setReadIndex`. -/
def bufSetReadIndex (b : Buffer) (readIdx : Nat) : Buffer := { b with readIdx := readIdx }

/-- `buf_getWriteIndex`. -/
def bufGetWriteIndex (b : Buffer) : Nat := b.writeIdx

/-- `buf_setWriteIndex`. -/
def bufSetWriteIndex (b : Buffer) (writeIdx : Nat) : Exec Buffer := do
  assertWrite b
  cassert (b.readIdx ≤ writeIdx ∧ writeIdx < b.sz)
  return { b with writeIdx := writeIdx }

end Wee
