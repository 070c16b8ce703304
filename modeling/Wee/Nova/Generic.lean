import Wee.Base.BufferFields
import Wee.Nova.Codec

/-! # The generic Thrift call (`nova_client/generic.c`)

`thrift_generic_pack` lays out the call of the generic service by hand, and `thrift_generic_unpack`
reads the reply. The lengths are `int` in the packer and `uint32_t` in the reader; a string
parameter is the block its pointer names. -/

namespace Wee

/-- `GENERIC_METHOD`: the bytes of `invoke`. -/
def genericMethod : List UInt8 := [0x69, 0x6E, 0x76, 0x6F, 0x6B, 0x65]

/-- `GENERIC_METHOD_LEN`. -/
def genericMethodLen : Int := 6

/-- `GENERIC_COMMON_LEN`. -/
def genericCommonLen : Nat := 44

/-- `VER_MASK`. -/
def verMask : UInt32 := 0xffff0000

/-- `VER1`. -/
def ver1 : UInt32 := 0x80010000

/-- `T_CALL`. -/
def tCall : UInt32 := 1

/-- `T_EX`. -/
def tEx : UInt32 := 3

/-- `TYPE_STRUCT`. -/
def typeStruct : Int := 12

/-- `TYPE_STRING`. -/
def typeString : Int := 11

/-- `FIELD_STOP`. -/
def fieldStop : Int := 0

/-- One of the three string fields `thrift_generic_pack` writes. -/
def packStringField (buf : Buffer) (fieldId : Int) (str : List UInt8) (len : Int) :
    Exec Buffer := do
  let buf ← bufAppendInt8 buf typeString
  let buf ← bufAppendInt16 buf fieldId
  let buf ← bufAppendInt32 buf len
  bufAppendStr buf str len

/-- `thrift_generic_pack`. The size of the buffer is a sum of `int`s, converted to `size_t`. -/
def thriftGenericPack (seq : Int) (serv : List UInt8) (servLen : Int) (method : List UInt8)
    (methodLen : Int) (jsonArgs : List UInt8) (argsLen : Int) : Exec Buffer := do
  let size := toSigned 32 (toUnsigned 32 (genericCommonLen + servLen + methodLen + argsLen))
  let buf ← bufCreate (toUnsigned 64 size)
  let buf ← bufAppendInt32 buf (ver1 ||| tCall).toNat
  let buf ← bufAppendInt32 buf genericMethodLen
  let buf ← bufAppendStr buf genericMethod genericMethodLen
  let buf ← bufAppendInt32 buf seq
  -- the argument, a struct
  let buf ← bufAppendInt8 buf typeStruct
  let buf ← bufAppendInt16 buf 1
  let buf ← packStringField buf 1 serv servLen
  let buf ← packStringField buf 2 method methodLen
  let buf ← packStringField buf 3 jsonArgs argsLen
  let buf ← bufAppendInt8 buf fieldStop
  bufAppendInt8 buf fieldStop

/-- `strncmp(a, b, n) == 0` for blocks with a NUL. -/
def strncmpEq (a b : List UInt8) (n : Nat) : Bool :=
  (a.takeWhile (· ≠ 0)).take n == (b.takeWhile (· ≠ 0)).take n

/-- The version word as `thrift_generic_unpack` computes it before the mask. -/
def versionWord (ver : UInt32) : UInt32 :=
  if 0x7fffffff < ver then 0 - ((ver - 1) ^^^ 0xffffffff) else ver

/-- `buf_readInt32` of a length, as a `uint32_t`, and `buf_retrieveAsString` of that many bytes into
a block of `malloc(len + 1)`; the sum is one of `uint32_t`. -/
def bufReadStrU32 (b : Buffer) : Exec (List UInt8 × Buffer) := do
  let (x, b) ← bufReadInt32 b
  let len := toUnsigned 32 x
  bufRetrieveInto b len (cMalloc ((len + 1) % 2 ^ 32))

/-- The part of `thrift_generic_unpack` behind the header of the message: the first field of the
result. -/
def unpackResult (b : Buffer) : Exec (Bool × Option (List UInt8) × Buffer) := do
  let (fieldType, b) ← bufReadInt8 b
  let (fieldId, b) ← bufReadInt16 b
  cassert (toUnsigned 16 fieldId = 0)
  if toUnsigned 8 fieldType ≠ toUnsigned 8 typeString then return (false, none, b)
  else
    let (resp, b) ← bufReadStrU32 b
    let (stop, b) ← bufReadInt8 b
    cassert (toUnsigned 8 stop = toUnsigned 8 fieldStop)
    return (true, some resp, b)

/-- `thrift_generic_unpack`: what it returns, what it stores in `*out`, and the buffer. -/
def thriftGenericUnpack (b : Buffer) : Exec (Bool × Option (List UInt8) × Buffer) := do
  let (word, b) ← bufReadInt32 b
  let ver := versionWord (UInt32.ofNat (toUnsigned 32 word)) &&& verMask
  if ver ≠ ver1 then return (false, none, b)
  -- the type is taken from the masked word
  else if ver &&& 0x000000ff = tEx then return (false, none, b)
  else
    let (method, b) ← bufReadStrU32 b
    if strncmpEq method genericMethod genericCommonLen = false then return (false, none, b)
    else
      let (_seq, b) ← bufReadInt32 b
      unpackResult b

/-- **The sign manipulation of the version word changes nothing.** -/
theorem versionWord_eq (ver : UInt32) : versionWord ver = ver := by
  have hflip (x : UInt32) : x ^^^ 0xffffffff = -x - 1 := by
    rw [show (0xffffffff : UInt32) = -1 from rfl, UInt32.xor_neg_one, UInt32.not_eq_neg_sub]
  rw [versionWord]
  split
  · rw [hflip]
    grind
  · rfl

end Wee
