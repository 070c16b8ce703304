import Wee.Lib.Exec
import Wee.Lib.Word
import Wee.Lib.Utf8

/-! # The Hessian codec (`dubbo_client/dubbo_hessian.c`)

The encoders are functions to the bytes they store. The decoders read through a raw pointer, so the
memory behind it is a function `Nat → UInt8` that is defined past the `sz` bytes the caller owns,
and the string decoder records the offsets it loads and stores. Whether those stay inside the
buffers is then a statement about the recorded offsets, and the control flow does not depend on
it. -/

namespace Wee

/-- The byte a C integer expression leaves in a `uint8_t`. -/
def toU8 (x : Int) : UInt8 := UInt8.ofNat (x % 256).toNat

/-! ### Null and integers -/

/-- `hs_encode_null`. -/
def hsEncodeNull : List UInt8 := [0x4E]

/-- `hs_encode_int`. The sum `val + 0xc8` wraps around as the 32-bit addition does. -/
def hsEncodeInt (val : Int32) : List UInt8 :=
  let v := val.toInt
  if -0x10 ≤ v ∧ v ≤ 0x2f then [toU8 (v + 0x90)]
  -- the source adds the offset of the lead byte in the range test too
  else if -0x800 ≤ toSigned 32 (toUnsigned 32 (v + 0xc8)) ∧ v ≤ 0x7ff then
    [toU8 ((v >>> (8 : Nat)) + 0xc8), toU8 v]
  else if -0x40000 ≤ v ∧ v ≤ 0x3ffff then
    toU8 ((v >>> (16 : Nat)) + 0xd4) :: beBytes 2 (toUnsigned 16 v)
  else 0x49 :: beBytes 4 (toUnsigned 32 v)

/-- `hs_decode_int`: `none` is the return value `false`, which leaves `*out` alone. -/
def hsDecodeInt (buf : Nat → UInt8) (sz : Nat) : Option Int :=
  let code := (buf 0).toNat
  if 1 ≤ sz ∧ 0x80 ≤ code ∧ code ≤ 0xbf then some (code - 0x90)
  else if 2 ≤ sz ∧ 0xc0 ≤ code ∧ code ≤ 0xcf then some ((code - 0xc8) * 2 ^ 8 + (buf 1).toNat)
  else if 3 ≤ sz ∧ 0xd0 ≤ code ∧ code ≤ 0xd7 then
    some ((code - 0xd4) * 2 ^ 16 + (buf 1).toNat * 2 ^ 8 + (buf 2).toNat)
  else if 5 ≤ sz ∧ code = 0x49 then some (toSigned 32 (beNat [buf 1, buf 2, buf 3, buf 4]))
  else none

/-! ### Copying UTF-8 characters -/

/-- The lead-byte tests of `utf8cpy`: how far one character advances. -/
def charStep (c : UInt8) : Option Nat :=
  if c ≤ 0x80 then some 1
  else if c &&& 0xE0 = 0xC0 then some 2
  else if c &&& 0xF0 = 0xE0 then some 3
  else if c &&& 0xF8 = 0xF0 then some 4
  else none

/-- The loop of `utf8cpy`: the offset after `sz` more characters (`none` is the early `return -1`)
and the offsets of `src` it loads. -/
def utf8cpyLoop (src : Nat → UInt8) : Nat → Nat → Option Nat × List Nat
  | 0, i => (some i, [])
  | sz + 1, i =>
    match charStep (src i) with
    | none => (none, [i])
    | some k =>
      let r := utf8cpyLoop src sz (i + k)
      (r.1, i :: r.2)

/-- What a call of `utf8cpy` does. -/
structure Utf8cpy where
  /-- The return value; `none` is `-1`. -/
  ret : Option Nat
  /-- The bytes stored at `dst`. -/
  copied : List UInt8
  /-- The offsets of `src` loaded. -/
  reads : List Nat

/-- `utf8cpy`. -/
def utf8cpy (src : Nat → UInt8) (sz : Nat) : Utf8cpy :=
  match utf8cpyLoop src sz 0 with
  | (none, rs) => { ret := none, copied := [], reads := rs }
  | (some i, rs) => { ret := some i, copied := (List.range i).map src, reads := rs ++ List.range i }

/-! ### Strings -/

/-- `hs_encode_string`: `none` is `-1`, else the bytes stored. The length is kept in an `int`; a
`memcpy` of a length that became negative leaves the string. -/
def hsEncodeString (str : CStr) : Exec (Option (List UInt8)) :=
  let length := toSigned 32 (strlen str)
  if 0x8000 < length then .ok none
  else if length < 0 then .error .outOfBounds
  else
    let header :=
      if length ≤ 31 then [toU8 length]
      else if length ≤ 1023 then [toU8 (48 + length >>> (8 : Nat)), toU8 length]
      else [0x53, toU8 (length >>> (8 : Nat)), toU8 length]
    .ok (some (header ++ str.bytes.take length.toNat))

/-- The state the recursion of `internal_decode_string` works on, with the offsets it has loaded
from `buf` and stored to `out_str` so far. -/
structure DecodeState where
  /-- The bytes stored in `out_str`. -/
  outStr : List UInt8
  /-- `*out_length`. -/
  outLength : Nat
  /-- `*is_last_chunk`. -/
  isLastChunk : Bool
  /-- Offsets of `buf` loaded. -/
  reads : List Nat
  /-- Offsets of `out_str` stored to. -/
  writes : List Nat

/-- The end of every case of `internal_decode_string`: the length check, `utf8cpy` of `delta`
characters from `buf + off` and the update of `*out_length`. `false` is the early `return false`. -/
def copyChunk (buf : Nat → UInt8) (bufLength off delta : Nat) (st : DecodeState) :
    Bool × DecodeState :=
  -- characters are compared with bytes here
  if bufLength < off + delta then (false, st)
  else
    let r := utf8cpy (fun i => buf (off + i)) delta
    let st := { st with
      outStr := st.outStr.take st.outLength ++ r.copied
      reads := st.reads ++ r.reads.map (off + ·)
      writes := st.writes ++ (List.range r.copied.length).map (st.outLength + ·) }
    match r.ret with
    | none => (false, st)
    | some sz => (true, { st with outLength := st.outLength + sz })

mutual

/-- `internal_decode_string`. The first component is the return value, or `none` when the fuel for
the nested calls has ended. -/
def internalDecodeString (buf : Nat → UInt8) (bufLength : Nat) :
    Nat → DecodeState → Option Bool × DecodeState
  | 0, st => (none, st)
  | fuel + 1, st =>
    -- the first byte is loaded whatever `buf_length` is
    let code := (buf 0).toNat
    let st := { st with reads := st.reads ++ [0] }
    if code ≤ 0x1f then
      let r := copyChunk buf bufLength 1 code { st with isLastChunk := true }
      (some r.1, r.2)
    else if 0x30 ≤ code ∧ code ≤ 0x33 then
      let st := { st with isLastChunk := true }
      if bufLength < 2 then (some false, st)
      else
        let r := copyChunk buf bufLength 2 ((code - 0x30) * 256 + (buf 1).toNat)
          { st with reads := st.reads ++ [1] }
        (some r.1, r.2)
    else if code = 0x53 then
      let st := { st with isLastChunk := true }
      if bufLength < 3 then (some false, st)
      else
        let r := copyChunk buf bufLength 3 (beNat [buf 1, buf 2])
          { st with reads := st.reads ++ [1, 2] }
        (some r.1, r.2)
    else if code = 0x52 then
      let st := { st with isLastChunk := false }
      if bufLength < 3 then (some false, st)
      else
        let r := copyChunk buf bufLength 3 (beNat [buf 1, buf 2])
          { st with reads := st.reads ++ [1, 2] }
        if r.1 then chunkLoop buf bufLength fuel r.2 else (some false, r.2)
    else (some false, st)

/-- The `while (!*is_last_chunk)` loop of the non-final chunk case. It calls
`internal_decode_string` with the same `buf`; behind the loop the case breaks to `return false`. -/
def chunkLoop (buf : Nat → UInt8) (bufLength : Nat) :
    Nat → DecodeState → Option Bool × DecodeState
  | 0, st => (none, st)
  | fuel + 1, st =>
    if st.isLastChunk then (some false, st)
    else
      -- the recursive call is given `buf` itself, not what follows the chunk
      match internalDecodeString buf bufLength fuel st with
      | (some true, st) => chunkLoop buf bufLength fuel st
      | r => r

end

/-- The outcome of `hs_decode_string`. -/
inductive HsRet
  /-- The nested calls have not returned within the fuel. -/
  | running
  /-- `return false`. -/
  | retFalse
  /-- `return true` with the bytes in `*out` and the length in `*out_sz`. -/
  | retTrue (out : List UInt8) (outSz : Nat)
  deriving DecidableEq, Repr

/-- A run of `hs_decode_string`: the outcome and the offsets loaded and stored. -/
structure HsRun where
  /-- The outcome. -/
  ret : HsRet
  /-- Offsets of `buf` loaded. -/
  reads : List Nat
  /-- Offsets of `out_str` stored to. -/
  writes : List Nat

/-- The state `hs_decode_string` starts the recursion with. -/
def decodeStart : DecodeState :=
  { outStr := [], outLength := 0, isLastChunk := false, reads := [], writes := [] }

/-- `hs_decode_string`; `malloc` is whether the allocation of `sz` bytes for `out_str` succeeds. The
final `realloc` keeps the first `out_length` bytes, or leaves `out_str` as it is when it fails. -/
def hsDecodeString (malloc : Bool) (buf : Nat → UInt8) (sz fuel : Nat) : HsRun :=
  if malloc then
    let r := internalDecodeString buf sz fuel decodeStart
    { ret := match r.1 with
        | none => .running
        | some false => .retFalse
        | some true => .retTrue (r.2.outStr.take r.2.outLength) r.2.outLength
      reads := r.2.reads
      writes := r.2.writes }
  else { ret := .retFalse, reads := [], writes := [] }

end Wee
