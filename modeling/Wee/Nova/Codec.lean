import Wee.Base.BufferFields

/-! # The Nova packet codec (`nova_client/codec.c`)

A Nova packet is a header of fixed fields and three length-prefixed strings, followed by a body. The
header structure is modelled with the objects its pointers name: a string field is the block of
bytes it points to. -/

namespace Wee

/-- `NOVA_MAGIC`. -/
def novaMagic : Nat := 0xdabc

/-- `NOVA_HEADER_COMMON_LEN`: the size of the fixed fields. -/
def novaHeaderCommonLen : Nat := 37

/-- `struct nova_hdr`. -/
structure NovaHdr where
  /-- `int32_t`. -/
  msgSize : Int
  /-- `uint16_t`. -/
  magic : Nat
  /-- `int16_t`. -/
  headSize : Int
  /-- `int8_t`. -/
  version : Int
  /-- `uint32_t`. -/
  ip : Nat
  /-- `uint32_t`. -/
  port : Nat
  /-- `int32_t`. -/
  serviceLen : Int
  /-- The block `service_name` points to; `NULL` has no bytes. -/
  serviceName : List UInt8
  /-- `int32_t`. -/
  methodLen : Int
  /-- The block `method_name` points to. -/
  methodName : List UInt8
  /-- `int64_t`. -/
  seqNo : Int
  /-- `int32_t`. -/
  attachLen : Int
  /-- The block `attach` points to. -/
  attach : List UInt8
  deriving DecidableEq, Repr

/-- `nova_hdr_create`: all zero. -/
def novaHdrCreate : NovaHdr :=
  { msgSize := 0, magic := 0, headSize := 0, version := 0, ip := 0, port := 0, serviceLen := 0,
    serviceName := [], methodLen := 0, methodName := [], seqNo := 0, attachLen := 0, attach := [] }

/-- `nova_detect` on the memory from `buf` on. -/
def novaDetect (buf : List UInt8) (size : Nat) : Exec Bool :=
  if size < novaHeaderCommonLen then return false
  else do
    let magic ← memLoad buf 4 2
    return decide (beNat magic = novaMagic)

/-- `buf_append(buf, str, len)` with an `int32_t` length: it becomes a `size_t`. -/
def bufAppendStr (b : Buffer) (str : List UInt8) (len : Int) : Exec Buffer := do
  let d ← memLoad str 0 (toUnsigned 64 len)
  bufAppend b d

/-- `nova_pack`. The sum of `head_size` and `body_size` is one of `size_t`. -/
def novaPack (b : Buffer) (h : NovaHdr) (body : List UInt8) : Exec Buffer := do
  let b ← bufAppendInt32 b (szAdd (toUnsigned 64 h.headSize) body.length)
  let b ← bufAppendInt16 b h.magic
  let b ← bufAppendInt16 b h.headSize
  let b ← bufAppendInt8 b h.version
  let b ← bufAppendInt32 b h.ip
  let b ← bufAppendInt32 b h.port
  let b ← bufAppendInt32 b h.serviceLen
  let b ← bufAppendStr b h.serviceName h.serviceLen
  let b ← bufAppendInt32 b h.methodLen
  let b ← bufAppendStr b h.methodName h.methodLen
  let b ← bufAppendInt64 b h.seqNo
  let b ← bufAppendInt32 b h.attachLen
  let b ← bufAppendStr b h.attach h.attachLen
  bufAppend b body

/-- `malloc(len + 1)` for an `int32_t` length: the sum is one of `int`, converted to `size_t`. -/
def mallocStr (len : Int) : Option Nat :=
  cMalloc (toUnsigned 64 (toSigned 32 (toUnsigned 32 (len + 1))))

/-- `buf_readInt32` of a length and `buf_retrieveAsString` of that many bytes into a new block. -/
def bufReadLenStr (b : Buffer) : Exec (Int × List UInt8 × Buffer) := do
  let (len, b) ← bufReadInt32 b
  let (str, b) ← bufRetrieveInto b (toUnsigned 64 len) (mallocStr len)
  return (len, str, b)

/-- The part of `nova_unpack` behind its checks. -/
def novaUnpackFields (b : Buffer) (h : NovaHdr) : Exec (Bool × NovaHdr × Buffer) := do
  let (version, b) ← bufReadInt8 b
  let (ip, b) ← bufReadInt32 b
  let (port, b) ← bufReadInt32 b
  let (serviceLen, serviceName, b) ← bufReadLenStr b
  let (methodLen, methodName, b) ← bufReadLenStr b
  let (seqNo, b) ← bufReadInt64 b
  let (attachLen, attach, b) ← bufReadLenStr b
  return (true,
    { h with version := version, ip := toUnsigned 32 ip, port := toUnsigned 32 port,
             serviceLen := serviceLen, serviceName := serviceName,
             methodLen := methodLen, methodName := methodName,
             seqNo := seqNo, attachLen := attachLen, attach := attach }, b)

/-- `nova_unpack`: whether it accepts, the header as it leaves it, and the buffer. The magic is
checked and not stored. -/
def novaUnpack (b : Buffer) (h : NovaHdr) : Exec (Bool × NovaHdr × Buffer) :=
  if bufReadable b ≤ novaHeaderCommonLen then return (false, h, b)
  else do
    let (msgSize, b) ← bufReadInt32 b
    let h := { h with msgSize := msgSize }
    if h.msgSize ≤ (novaHeaderCommonLen : Int) then return (false, h, b)
    else
      let (magic, b) ← bufReadInt16 b
      if toUnsigned 16 magic ≠ novaMagic then return (false, h, b)
      else
        let (headSize, b) ← bufReadInt16 b
        let h := { h with headSize := headSize }
        if h.msgSize < h.headSize then return (false, h, b)
        else novaUnpackFields b h

/-! ### What is on the wire -/

/-- The content of a packet header: the fields in the order of the packet, with their widths, and
the three strings. -/
structure NovaFields where
  /-- The announced size of the packet. -/
  msgSize : Int
  /-- The magic, as a signed value. -/
  magic : Int
  /-- The announced size of the header. -/
  headSize : Int
  /-- The version. -/
  version : Int
  /-- The address, as a signed value. -/
  ip : Int
  /-- The port, as a signed value. -/
  port : Int
  /-- The service. -/
  service : List UInt8
  /-- The method. -/
  method : List UInt8
  /-- The sequence number. -/
  seqNo : Int
  /-- The attachment. -/
  attach : List UInt8
  /-- `msgSize` is an `int32_t`. -/
  msgSize_fits : FitsInt 4 msgSize
  /-- `magic` is an `int16_t`. -/
  magic_fits : FitsInt 2 magic
  /-- `headSize` is an `int16_t`. -/
  headSize_fits : FitsInt 2 headSize
  /-- `version` is an `int8_t`. -/
  version_fits : FitsInt 1 version
  /-- `ip` is an `int32_t`. -/
  ip_fits : FitsInt 4 ip
  /-- `port` is an `int32_t`. -/
  port_fits : FitsInt 4 port
  /-- `seqNo` is an `int64_t`. -/
  seqNo_fits : FitsInt 8 seqNo
  /-- A block of `int` size holds the service and its NUL. -/
  service_lt : service.length < 2 ^ 31 - 1
  /-- A block of `int` size holds the method and its NUL. -/
  method_lt : method.length < 2 ^ 31 - 1
  /-- A block of `int` size holds the attachment and its NUL. -/
  attach_lt : attach.length < 2 ^ 31 - 1

/-- The bytes behind the four fields that `nova_unpack` checks. -/
def NovaFields.tail (f : NovaFields) : List UInt8 :=
  beInt 1 f.version ++ beInt 4 f.ip ++ beInt 4 f.port ++ lenStr f.service ++ lenStr f.method
    ++ beInt 8 f.seqNo ++ lenStr f.attach

/-- The bytes of a header. -/
def NovaFields.bytes (f : NovaFields) : List UInt8 :=
  beInt 4 f.msgSize ++ beInt 2 f.magic ++ beInt 2 f.headSize ++ f.tail

/-- **The hand-counted constant** is the size of the fixed fields. -/
theorem NovaFields.length_bytes (f : NovaFields) :
    f.bytes.length
      = novaHeaderCommonLen + f.service.length + f.method.length + f.attach.length := by
  simp only [NovaFields.bytes, NovaFields.tail, List.length_append, length_beInt, length_lenStr,
    novaHeaderCommonLen]
  omega

/-- The header `nova_unpack` leaves after the fields `f`, from the header `h`. -/
def NovaFields.hdr (f : NovaFields) (h : NovaHdr) : NovaHdr :=
  { msgSize := f.msgSize, magic := h.magic, headSize := f.headSize, version := f.version,
    ip := toUnsigned 32 f.ip, port := toUnsigned 32 f.port,
    serviceLen := f.service.length, serviceName := f.service ++ [0],
    methodLen := f.method.length, methodName := f.method ++ [0],
    seqNo := f.seqNo, attachLen := f.attach.length, attach := f.attach ++ [0] }

end Wee
