import Wee.Base.Buffer
import Wee.Dubbo.Hessian

/-! # The Dubbo codec (`dubbo_client/dubbo_codec.c`)

Requests are encoded into a buffer of fixed capacity with 16 bytes of headroom: the nine Hessian
items of the body are stored at the write index, and the header is then prepended field by field.
Responses are decoded from the front of a receive buffer, by way of a copy of the body.

`rebuild_json_args` re-prints the JSON arguments through `cJSON`; it is a parameter here. -/

namespace Wee

/-! ### Constants -/

/-- `DUBBO_BUF_LEN`. -/
def dubboBufLen : Nat := 8192

/-- `DUBBO_MAX_PKT_SZ`. -/
def dubboMaxPktSz : Int := 1024 * 1024 * 4

/-- `DUBBO_HDR_LEN`. -/
def dubboHdrLen : Nat := 16

/-- `DUBBO_MAGIC`. -/
def dubboMagic : Nat := 0xdabb

/-- `DUBBO_VER`. -/
def dubboVer : CStr := ⟨asciiBytes "3.1.0-RELEASE", by decide⟩

/-- `DUBBO_GENERIC_METHOD_NAME`. -/
def dubboGenericMethodName : CStr := ⟨asciiBytes "$invokeWithJsonArgs", by decide⟩

/-- `DUBBO_GENERIC_METHOD_VER`. -/
def dubboGenericMethodVer : CStr := ⟨asciiBytes "0.0.0", by decide⟩

/-- `DUBBO_GENERIC_METHOD_PARA_TYPES`. -/
def dubboGenericMethodParaTypes : CStr :=
  ⟨asciiBytes "Ljava/lang/String;[Ljava/lang/String;Ljava/lang/String;", by decide⟩

/-- `DUBBO_HESSIAN2_SERI_ID`. -/
def dubboHessian2SeriId : Int8 := 2

/-- `DUBBO_FLAG_REQ`, as the `int8_t` it is cast to. -/
def dubboFlagReq : Int8 := -0x80

/-- `DUBBO_FLAG_TWOWAY`. -/
def dubboFlagTwoway : Int8 := 0x40

/-- `DUBBO_FLAG_EVT`. -/
def dubboFlagEvt : Int8 := 0x20

/-- `DUBBO_SERI_MASK`. -/
def dubboSeriMask : Int8 := 0x1f

/-- `DUBBO_RES_T_OK`. -/
def dubboResTOk : Int := 20

/-- `get_res_status_desc`. -/
def getResStatusDesc (status : Int) : String :=
  if status = 20 then "OK"
  else if status = 30 then "CLIENT TIMEOUT"
  else if status = 31 then "SERVER TIMEOUT"
  else if status = 40 then "BAD REQUEST"
  else if status = 50 then "BAD RESPONSE"
  else if status = 60 then "SERVICE NOT FOUND"
  else if status = 70 then "SERVICE ERROR"
  else if status = 80 then "SERVER ERROR"
  else if status = 90 then "CLIENT ERROR"
  else "UNKNOWN"

/-! ### Requests -/

/-- `struct dubbo_req`, with the two entries of `argv` that are used. -/
structure DubboReq where
  /-- `reqid`. -/
  reqid : Int64
  /-- `is_twoway`. -/
  isTwoway : Bool
  /-- `is_evt`. -/
  isEvt : Bool
  /-- `service`. -/
  service : CStr
  /-- `argv[DUBBO_GENERIC_METHOD_ARGV_METHOD_IDX]`. -/
  argvMethod : CStr
  /-- `argv[DUBBO_GENERIC_METHOD_ARGV_ARGS_IDX]`. -/
  argvArgs : CStr
  /-- `data` with its `data_sz` bytes, for an event. -/
  data : List UInt8
  /-- `data_sz` is the size of an object. -/
  data_lt : data.length < 2 ^ 63

/-- `struct dubbo_hdr`. -/
structure DubboHdr where
  /-- `flag`. -/
  flag : Int8
  /-- `status`. -/
  status : Int
  /-- `body_sz`. -/
  bodySz : Int
  /-- `reqid`. -/
  reqid : Int

/-- `next_reqid`: the next value of its static counter. -/
def nextReqid (id : Int64) : Int64 := if id + 1 = 0x7fffffffffffffff then 1 else id + 1

/-- A request that is no event has no `data`. -/
theorem noData_lt : ([] : List UInt8).length < 2 ^ 63 := by decide

/-- `dubbo_req_create`, given the number `next_reqid` returns. -/
def dubboReqCreate (rebuildJsonArgs : CStr → Option CStr) (reqid : Int64)
    (service method jsonArgs : CStr) : Option DubboReq :=
  match rebuildJsonArgs jsonArgs with
  | none => none
  | some args =>
    some { reqid := reqid, isTwoway := true, isEvt := false, service := service,
           argvMethod := method, argvArgs := args, data := [], data_lt := noData_lt }

/-! ### Encoding -/

/-- What a request body is made of. -/
inductive HsItem
  /-- A string. -/
  | str (s : CStr)
  /-- A null. -/
  | null
  deriving DecidableEq

/-- `write_hs_str` of a string, or the store of `hs_encode_null`, at the write index. `none` is the
`return false` of the macro. -/
def writeHsItem (buf : Buffer) : HsItem → Exec (Option Buffer)
  | .str s => do
    match ← hsEncodeString s with
    | none => return none
    | some d =>
      -- the capacity is only checked behind the store, by the `assert` in `buf_has_written`
      let buf ← bufBeginWriteStore buf d
      let buf ← bufHasWritten buf d.length
      return some buf
  | .null => do
    let buf ← bufBeginWriteStore buf hsEncodeNull
    let buf ← bufHasWritten buf hsEncodeNull.length
    return some buf

/-- Consecutive writes, up to the first that is refused. -/
def writeHsItems : List HsItem → Buffer → Exec (Option Buffer)
  | [], buf => return some buf
  | item :: items, buf => do
    match ← writeHsItem buf item with
    | none => return none
    | some buf => writeHsItems items buf

/-- The items `encode_req_data` writes, in order. -/
def reqItems (req : DubboReq) : List HsItem :=
  [.str dubboVer, .str req.service, .str dubboGenericMethodVer, .str dubboGenericMethodName,
   .str dubboGenericMethodParaTypes, .str req.argvMethod, .null, .str req.argvArgs, .null]

/-- `encode_req_data`; `none` is `false`. -/
def encodeReqData (buf : Buffer) (req : DubboReq) : Exec (Option Buffer) :=
  writeHsItems (reqItems req) buf

/-- `encode_req_hdr`; `none` is `false`. -/
def encodeReqHdr (buf : Buffer) (hdr : DubboHdr) : Exec (Option Buffer) :=
  if bufPrependable buf < dubboHdrLen then return none
  else do
    let buf ← bufPrependInt32 buf hdr.bodySz
    let buf ← bufPrependInt64 buf hdr.reqid
    let buf ← bufPrependInt8 buf hdr.status
    let buf ← bufPrependInt8 buf hdr.flag.toInt
    let buf ← bufPrependInt16 buf dubboMagic
    return some buf

/-- The `flag` of a request. -/
def reqFlag (req : DubboReq) : Int8 :=
  let flag := dubboFlagReq ||| dubboHessian2SeriId
  let flag := if req.isTwoway then flag ||| dubboFlagTwoway else flag
  if req.isEvt then flag ||| dubboFlagEvt else flag

/-- `encode_req`; `none` is `false`. -/
def encodeReq (buf : Buffer) (req : DubboReq) : Exec (Option Buffer) := do
  match ← (if req.isEvt then some <$> bufAppend buf req.data else encodeReqData buf req) with
  | none => return none
  | some buf =>
    encodeReqHdr buf { flag := reqFlag req, status := 0, bodySz := toSigned 32 (bufReadable buf),
                       reqid := req.reqid.toInt }

/-- `dubbo_encode`; `none` is `NULL`. -/
def dubboEncode (req : DubboReq) : Exec (Option Buffer) := do
  let buf ← bufCreateEx dubboBufLen dubboHdrLen
  encodeReq buf req

/-! ### Recognising packets -/

/-- `is_dubbo_pkt`. -/
def isDubboPkt (buf : Buffer) : Exec Bool :=
  if dubboHdrLen ≤ bufReadable buf then do
    let magic ← bufPeekInt16 buf
    return toUnsigned 16 magic == dubboMagic
  else return false

/-- `is_completed_dubbo_pkt`: `none` is `false`, and `some r` is `true` with the value `r` that
`*remaining` gets when the pointer is not `NULL`. -/
def isCompletedDubboPkt (buf : Buffer) : Exec (Option Int) := do
  if ← isDubboPkt buf then
    -- the body size is the last field of the header
    let d ← memLoad buf.buf (buf.readIdx + dubboHdrLen - 4) 4
    let bodySz := toSigned 32 (beNat d)
    -- the answer is `true` for every header with a possible size
    if bodySz ≤ 0 ∨ dubboMaxPktSz < bodySz then return none
    else return some (toSigned 32 (szSub (toUnsigned 64 (bodySz + dubboHdrLen)) (bufReadable buf)))
  else return none

/-! ### Decoding -/

/-- `struct dubbo_res`; `data` is `NULL` or the `data_sz` bytes behind it. -/
structure DubboRes where
  /-- `reqid`. -/
  reqid : Int
  /-- `is_evt`. -/
  isEvt : Bool
  /-- `ok`. -/
  ok : Bool
  /-- `type`. -/
  type : Int
  /-- `desc`. -/
  desc : String
  /-- `data` and `data_sz`. -/
  data : Option (List UInt8)
  deriving DecidableEq, Repr

/-- `decode_res_hdr`: the header or `none` for `false`, and the buffer behind what has been read. -/
def decodeResHdr (buf : Buffer) : Exec (Option DubboHdr × Buffer) := do
  if ← isDubboPkt buf then
    let (_, buf) ← bufReadInt16 buf
    let (flag, buf) ← bufReadInt8 buf
    let (status, buf) ← bufReadInt8 buf
    let (reqid, buf) ← bufReadInt64 buf
    let (bodySz, buf) ← bufReadInt32 buf
    let hdr : DubboHdr :=
      { flag := Int8.ofInt flag, status := status, bodySz := bodySz, reqid := reqid }
    if dubboMaxPktSz < hdr.bodySz then return (none, buf)
    else if hdr.flag &&& dubboSeriMask ≠ dubboHessian2SeriId then return (none, buf)
    else if hdr.flag &&& dubboFlagReq = 0 then return (some hdr, buf)
    else return (none, buf)
  else return (none, buf)

/-- `read_hs_str`: the string and the buffer behind it, or `none` for the `return false` of the
macro. The string decoder may load up to the end of the block and store in the bytes it has
allocated, one for each readable byte. -/
def readHsStr (fuel : Nat) (buf : Buffer) : Exec (Option (List UInt8 × Buffer)) :=
  let run := hsDecodeString true (zeroExt (buf.buf.drop buf.readIdx)) (bufReadable buf) fuel
  if (∃ r ∈ run.reads, buf.sz ≤ buf.readIdx + r) ∨ ∃ w ∈ run.writes, bufReadable buf ≤ w then
    .error .outOfBounds
  else
    match run.ret with
    | .running => .error .outOfFuel
    | .retFalse => return none
    | .retTrue out outSz => do
      let buf ← bufRetrieve buf outSz
      return some (out, buf)

/-- `decode_res_data`: the response with its type and data, or `none` for `false`. -/
def decodeResData (fuel : Nat) (buf : Buffer) (res : DubboRes) : Exec (Option DubboRes) := do
  let (x, buf) ← bufReadInt8 buf
  let flag := toUnsigned 8 x
  if flag < 0x80 ∨ 0xbf < flag then return none
  else
    -- the types are `x90` exception, `x91` value and `x92` null
    match toUnsigned 8 (flag - 0x90) with
    | 2 => return some { res with type := 2 }
    | 0 =>
      match ← readHsStr fuel buf with
      | none => return none
      | some (out, _) => return some { res with type := 0, data := some out }
    | 1 =>
      match ← readHsStr fuel buf with
      | none => return none
      | some (out, _) => return some { res with type := 1, data := some out }
    | _ => return none

/-- `decode_res`; `none` is `false`. -/
def decodeRes (fuel : Nat) (buf : Buffer) (hdr : DubboHdr) (res : DubboRes) :
    Exec (Option DubboRes) :=
  let res := { res with
    isEvt := decide (hdr.flag &&& dubboFlagEvt ≠ 0), desc := getResStatusDesc hdr.status }
  if hdr.status = dubboResTOk then
    let res := { res with ok := true }
    if res.isEvt then return some res else decodeResData fuel buf res
  else do
    let res := { res with ok := false }
    match ← readHsStr fuel buf with
    | none => return none
    | some (out, _) => return some { res with data := some out }

/-- `dubbo_decode`: the response or `none` for `NULL`, and the buffer behind what has been read. -/
def dubboDecode (fuel : Nat) (buf : Buffer) : Exec (Option DubboRes × Buffer) := do
  match ← decodeResHdr buf with
  | (none, buf) => return (none, buf)
  | (some hdr, buf) =>
    let bodySz := toUnsigned 64 hdr.bodySz
    -- the body is copied first; `buf_retrieve` then checks that it is there
    let bodyBuf ← bufCreate bodySz
    let d ← memLoad buf.buf buf.readIdx bodySz
    let bodyBuf ← bufAppend bodyBuf d
    let buf ← bufRetrieve buf bodySz
    let res ← decodeRes fuel bodyBuf hdr
      { reqid := hdr.reqid, isEvt := false, ok := false, type := -1, desc := "", data := none }
    return (res, buf)

end Wee
