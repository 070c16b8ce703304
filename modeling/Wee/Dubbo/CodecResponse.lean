import Wee.Dubbo.CodecFrame
import Wee.Dubbo.HessianChunks

/-! # Decoding responses

`ResFrame` is a well-formed response frame: a header with the serialization id of Hessian and the
request bit clear, and a body of 1 byte to 4 MiB that is what the status and the event bit announce,
followed by attachments. Its strings are strings of the Hessian grammar, chunked or not.

`dubbo_decode` reads a complete frame at the front of a buffer to its response and leaves what
follows it, when no string of the frame is chunked; it does not return on a frame with a chunked
string, and it aborts on a frame that is cut off. -/

namespace Wee

/-! ### Response frames -/

/-- The body of a response, with the attachments behind it. -/
inductive ResBody
  /-- A value: `0x91` and a string. -/
  | value (s : HsString) (attach : List UInt8)
  /-- An exception: `0x90` and a string. -/
  | exception (s : HsString) (attach : List UInt8)
  /-- No value: `0x92`. -/
  | null (attach : List UInt8)
  /-- The body of an event. -/
  | event (body : List UInt8)
  /-- An error status with its message, for a call or an event. -/
  | failure (status : { x : Int8 // x ≠ 20 }) (evt : Bool) (s : HsString) (attach : List UInt8)

/-- The status of the frame. -/
def ResBody.status : ResBody → Int8
  | .failure status _ _ _ => status.val
  | _ => 20

/-- The event bit of the frame. -/
def ResBody.evt : ResBody → Bool
  | .event _ => true
  | .failure _ evt _ _ => evt
  | _ => false

/-- The string in the body. -/
def ResBody.str : ResBody → Option HsString
  | .value s _ => some s
  | .exception s _ => some s
  | .null _ => none
  | .event _ => none
  | .failure _ _ s _ => some s

/-- The bytes of the body. -/
def ResBody.bytes : ResBody → List UInt8
  | .value s attach => 0x91 :: (s.bytes ++ attach)
  | .exception s attach => 0x90 :: (s.bytes ++ attach)
  | .null attach => 0x92 :: attach
  | .event body => body
  | .failure _ _ s attach => s.bytes ++ attach

/-- A response frame. -/
structure ResFrame where
  /-- The number of the request answered. -/
  reqid : Int64
  /-- The two-way bit. -/
  twoway : Bool
  /-- The body. -/
  body : ResBody
  /-- The body is not empty. -/
  pos : 0 < body.bytes.length
  /-- The body has at most 4 MiB. -/
  le_max : body.bytes.length ≤ 4194304

/-- The flag of a response. -/
def ResFrame.flag (f : ResFrame) : Int8 :=
  let flag := if f.twoway then dubboHessian2SeriId ||| dubboFlagTwoway else dubboHessian2SeriId
  if f.body.evt then flag ||| dubboFlagEvt else flag

/-- The bytes of a response frame. -/
def ResFrame.bytes (f : ResFrame) : List UInt8 :=
  dubboFrame f.flag f.body.status.toInt f.reqid.toInt f.body.bytes

/-- The response a frame carries. -/
def ResFrame.res (f : ResFrame) : DubboRes :=
  { reqid := f.reqid.toInt
    isEvt := f.body.evt
    ok := decide (f.body.status = 20)
    type := match f.body with
      | .value _ _ => 1
      | .exception _ _ => 0
      | .null _ => 2
      | _ => -1
    desc := getResStatusDesc f.body.status.toInt
    data := f.body.str.map HsString.text }

/-- No string of the frame is chunked. -/
def ResFrame.SingleChunk (f : ResFrame) : Prop := ∀ s, f.body.str = some s → s.chunks = []

/-- The length of a response frame. -/
theorem ResFrame.length_bytes (f : ResFrame) : f.bytes.length = 16 + f.body.bytes.length :=
  length_dubboFrame _ _ _ _

/-! ### The header -/

/-- Reading an integer field in front of the queue. -/
theorem bufReadInt_field {b : Buffer} {k : Nat} {x : Int} {rest : List UInt8} (h : BufShape b)
    (hbytes : bufBytes b = beBytes k (toUnsigned (8 * k) x) ++ rest) (hk : 0 < k)
    (hlo : -2 ^ (8 * k - 1) ≤ x) (hhi : x < 2 ^ (8 * k - 1)) :
    ∃ b', bufReadInt k b = .ok (x, b') ∧ Consumed k b b' ∧ bufBytes b' = rest := by
  have hlen : k ≤ bufReadable b := by
    rw [← h.length_bufBytes, hbytes, List.length_append, length_beBytes]
    omega
  obtain ⟨⟨y, b'⟩, hok, hy, hcons⟩ := h.readInt_spec hlen
  -- the bytes of the field denote `x` modulo the width, and `x` has that width
  rw [hbytes, List.take_left' (length_beBytes _ _), beNat_beBytes_toUnsigned,
    toSigned_toUnsigned (by omega) hlo hhi] at hy
  dsimp only at hy hcons
  refine ⟨b', by rw [hok, hy], hcons, ?_⟩
  rw [hcons.bytes, hbytes, List.drop_left' (length_beBytes _ _)]

/-- The flag of a response: the serialization id of Hessian, and the request bit clear. -/
def IsResponseFlag (flag : Int8) : Prop :=
  flag &&& dubboSeriMask = dubboHessian2SeriId ∧ flag &&& dubboFlagReq = 0

instance instDecidableIsResponseFlag (flag : Int8) : Decidable (IsResponseFlag flag) :=
  inferInstanceAs (Decidable (_ ∧ _))

/-- The flag of a response frame is one of a response, and shows the event bit. -/
theorem ResFrame.flag_bits (f : ResFrame) :
    IsResponseFlag f.flag ∧ (f.flag &&& dubboFlagEvt ≠ 0 ↔ f.body.evt = true) := by
  rw [ResFrame.flag]
  cases f.twoway <;> cases f.body.evt <;> decide

/-- **`decode_res_hdr` reads the header**, 16 bytes of it whether it accepts the flag or not. -/
theorem decodeResHdr_spec {buf : Buffer} {flag status : Int8} {reqid : Int64} {n : Nat}
    {rest : List UInt8} (h : BufShape buf) (hmax : n ≤ 4194304)
    (hbytes : bufBytes buf = dubboHdrBytes flag status.toInt reqid.toInt n ++ rest) :
    ∃ buf', Consumed 16 buf buf' ∧ bufBytes buf' = rest
      ∧ (IsResponseFlag flag →
        decodeResHdr buf = .ok (some ⟨flag, status.toInt, n, reqid.toInt⟩, buf'))
      ∧ (¬ IsResponseFlag flag → decodeResHdr buf = .ok (none, buf')) := by
  have hpkt := isDubboPkt_of_hdr h hbytes
  have hsize : beBytes 4 n = beBytes 4 (toUnsigned (8 * 4) (n : Int)) := by
    rw [toUnsigned_natCast (by omega)]
  have hmagic : beBytes 2 dubboMagic = beBytes 2 (toUnsigned (8 * 2) (-0x2545)) := by decide
  rw [dubboHdrBytes, hsize, hmagic] at hbytes
  simp only [List.append_assoc] at hbytes
  -- the five fields, one after the other
  obtain ⟨b₁, hok₁, hc₁, hbytes₁⟩ :=
    bufReadInt_field h hbytes (by decide) (by decide) (by decide)
  obtain ⟨b₂, hok₂, hc₂, hbytes₂⟩ :=
    bufReadInt_field hc₁.shape hbytes₁ (by decide) flag.le_toInt flag.toInt_lt
  obtain ⟨b₃, hok₃, hc₃, hbytes₃⟩ :=
    bufReadInt_field hc₂.shape hbytes₂ (by decide) status.le_toInt status.toInt_lt
  obtain ⟨b₄, hok₄, hc₄, hbytes₄⟩ :=
    bufReadInt_field hc₃.shape hbytes₃ (by decide) reqid.le_toInt reqid.toInt_lt
  obtain ⟨b₅, hok₅, hc₅, hbytes₅⟩ :=
    bufReadInt_field hc₄.shape hbytes₄ (by decide) (by omega) (by omega)
  have hfits : ¬ dubboMaxPktSz < (n : Int) := by
    rw [dubboMaxPktSz]
    omega
  have heq : decodeResHdr buf = if flag &&& dubboSeriMask ≠ dubboHessian2SeriId then
        .ok (none, b₅)
      else if flag &&& dubboFlagReq = 0 then
        .ok (some ⟨flag, status.toInt, n, reqid.toInt⟩, b₅)
      else .ok (none, b₅) := by
    rw [decodeResHdr, hpkt, exec_ok_bind, if_pos rfl]
    simp only [bufReadInt16, bufReadInt8, bufReadInt64, bufReadInt32, hok₁, hok₂, hok₃, hok₄, hok₅,
      exec_ok_bind, Int8.ofInt_toInt]
    rw [if_neg hfits]
    rfl
  refine ⟨b₅, (((hc₁.trans hc₂).trans hc₃).trans hc₄).trans hc₅, hbytes₅, ?_, ?_⟩
  · rintro ⟨hseri, hreq⟩
    rw [heq, if_neg (not_not_intro hseri), if_pos hreq]
  · intro hflag
    rw [heq]
    split_ifs with hseri hreq
    · rfl
    · exact absurd ⟨not_not.mp hseri, hreq⟩ hflag
    · rfl

/-! ### Strings -/

/-- The block of a buffer holds its readable bytes from the read index on. -/
theorem holds_peek (buf : Buffer) :
    Holds (zeroExt (buf.buf.drop buf.readIdx)) 0 (bufBytes buf) :=
  (holds_zeroExt (buf.buf.drop buf.readIdx)).take _

/-- **`read_hs_str` reads a string in one chunk.** -/
theorem readHsStr_spec {buf : Buffer} {s : HsString} {rest : List UInt8} (h : BufInv buf)
    (hbytes : bufBytes buf = s.bytes ++ rest) (hs : s.chunks = []) {fuel : Nat} (hfuel : 0 < fuel) :
    ∃ buf', readHsStr fuel buf = .ok (some (s.text, buf')) := by
  obtain ⟨fuel, rfl⟩ := Nat.exists_eq_add_of_le' hfuel
  have hsb : s.bytes = s.final.bytes := by rw [HsString.bytes, hs]; rfl
  have hst : s.text = s.final.text := by rw [HsString.text, hs]; rfl
  rw [hsb] at hbytes
  rw [hst]
  have hpeek := holds_peek buf
  have hlen := h.toBufWf.length_bufBytes
  rw [hbytes] at hpeek hlen
  obtain ⟨hret, hreads, hwrites⟩ := hsDecodeString_finalChunk s.final rest hpeek fuel
  rw [hlen] at hret hreads hwrites
  have hfinal : s.final.text.length ≤ s.final.bytes.length := by
    rw [FinalChunk.bytes, List.length_append]
    omega
  have hfits : s.final.bytes.length ≤ bufReadable buf := by
    rw [← hlen, List.length_append]
    omega
  have hidx := h.toBufWf.readable_eq
  have hr := h.read_le_write
  have hw := h.write_le_sz
  -- loads end with the string, and every byte stored is one of its bytes
  have hin : ¬ ((∃ r ∈ (hsDecodeString true (zeroExt (buf.buf.drop buf.readIdx))
        (bufReadable buf) (fuel + 1)).reads, buf.sz ≤ buf.readIdx + r)
      ∨ ∃ w ∈ (hsDecodeString true (zeroExt (buf.buf.drop buf.readIdx)) (bufReadable buf)
        (fuel + 1)).writes, bufReadable buf ≤ w) := by
    rintro (⟨r, hmem, hle⟩ | ⟨w, hmem, hle⟩)
    · have := hreads r hmem
      omega
    · rw [hwrites] at hmem
      have := List.mem_range.mp hmem
      omega
  obtain ⟨buf', hok, -⟩ := h.retrieve_spec (show s.final.text.length ≤ bufReadable buf by omega)
  refine ⟨buf', ?_⟩
  simp only [readHsStr]
  rw [if_neg hin, hret]
  simp only [hok, exec_ok_bind, exec_pure]

/-- The response `dubbo_decode` starts with. -/
def initRes (reqid : Int) : DubboRes :=
  { reqid := reqid, isEvt := false, ok := false, type := -1, desc := "", data := none }

/-- The header of a frame, as `decode_res_hdr` reads it. -/
def ResFrame.hdr (f : ResFrame) : DubboHdr :=
  ⟨f.flag, f.body.status.toInt, f.body.bytes.length, f.reqid.toInt⟩

/-- The first byte of the body of a call. -/
theorem bufReadInt8_cons {b : Buffer} {c : UInt8} {rest : List UInt8} (h : BufInv b)
    (hbytes : bufBytes b = c :: rest) :
    ∃ x b', bufReadInt8 b = .ok (x, b') ∧ toUnsigned 8 x = c.toNat ∧ Consumed 1 b b'
      ∧ bufBytes b' = rest := by
  have hlen : 1 ≤ bufReadable b := by
    rw [← h.toBufWf.length_bufBytes, hbytes, List.length_cons]
    omega
  obtain ⟨⟨x, b'⟩, hok, hx, hcons⟩ := h.shape.readInt_spec hlen
  dsimp only at hx hcons
  refine ⟨x, b', hok, ?_, hcons, ?_⟩
  · have hnat : beNat [c] = c.toNat := by simp [beNat]
    have hlt := c.toNat_lt
    rw [hx, hbytes, List.take_succ_cons, List.take_zero, hnat]
    rw [show 8 * 1 = 8 from rfl, toUnsigned_toSigned, Nat.mod_eq_of_lt (by omega)]
  · rw [hcons.bytes, hbytes, List.drop_succ_cons, List.drop_zero]

/-- The response once `decode_res` has read the header. -/
def startedRes (flag status : Int8) (reqid : Int64) : DubboRes :=
  { initRes reqid.toInt with
    isEvt := decide (flag &&& dubboFlagEvt ≠ 0), desc := getResStatusDesc status.toInt,
    ok := decide (status = 20) }

/-- `decode_res`, by the status and the event bit. -/
theorem decodeRes_hdr (flag status : Int8) (reqid : Int64) (n fuel : Nat) (buf : Buffer) :
    decodeRes fuel buf ⟨flag, status.toInt, n, reqid.toInt⟩ (initRes reqid.toInt)
      = if status = 20 then
          if flag &&& dubboFlagEvt ≠ 0 then .ok (some (startedRes flag status reqid))
          else decodeResData fuel buf (startedRes flag status reqid)
        else do
          match ← readHsStr fuel buf with
          | none => return none
          | some (out, _) => return some { startedRes flag status reqid with data := some out } := by
  rw [decodeRes]
  by_cases hok : status = 20
  · have hstatus : status.toInt = dubboResTOk := congrArg Int8.toInt hok
    rw [if_pos hstatus, if_pos hok, startedRes, decide_eq_true hok]
    by_cases hevt : flag &&& dubboFlagEvt ≠ 0
    · rw [if_pos hevt]
      simp only [decide_eq_true hevt, if_true, exec_pure]
    · rw [if_neg hevt]
      simp only [decide_eq_false hevt, Bool.false_eq_true, if_false]
  · have hstatus : status.toInt ≠ dubboResTOk := fun h =>
      hok (Int8.toInt.inj (h.trans (by decide)))
    rewrite [if_neg hstatus, if_neg hok, startedRes, decide_eq_false hok]
    rfl

/-- The response of a frame once `decode_res` has read the header. -/
def ResFrame.started (f : ResFrame) : DubboRes :=
  { initRes f.reqid.toInt with
    isEvt := f.body.evt, desc := getResStatusDesc f.body.status.toInt,
    ok := decide (f.body.status = 20) }

/-- `decode_res` on the header of a frame. -/
theorem ResFrame.decodeRes_hdr (f : ResFrame) (fuel : Nat) (buf : Buffer) :
    decodeRes fuel buf f.hdr (initRes f.reqid.toInt)
      = if f.body.status = 20 then
          if f.body.evt then .ok (some f.started) else decodeResData fuel buf f.started
        else do
          match ← readHsStr fuel buf with
          | none => return none
          | some (out, _) => return some { f.started with data := some out } := by
  have hevt := f.flag_bits.2
  have hstarted : startedRes f.flag f.body.status f.reqid = f.started := by
    have hbit : decide (f.flag &&& dubboFlagEvt ≠ 0) = f.body.evt := by
      rw [Bool.eq_iff_iff, decide_eq_true_iff]
      exact hevt
    rw [startedRes, ResFrame.started, hbit]
  rw [ResFrame.hdr, Wee.decodeRes_hdr, hstarted]
  simp only [hevt]

/-- `decode_res_data` of an exception (`0`) or a value (`1`): the string behind the first byte. -/
theorem decodeResData_str {buf : Buffer} {kind : Nat} (hkind : kind = 0 ∨ kind = 1)
    {rest : List UInt8} (h : BufInv buf) (hbytes : bufBytes buf = UInt8.ofNat (0x90 + kind) :: rest)
    (res : DubboRes) :
    ∃ buf', Consumed 1 buf buf' ∧ bufBytes buf' = rest ∧ ∀ fuel, decodeResData fuel buf res = (do
      match ← readHsStr fuel buf' with
      | none => return none
      | some (out, _) => return some { res with type := kind, data := some out }) := by
  obtain ⟨x, buf', hread, hx, hcons, hrest⟩ := bufReadInt8_cons h hbytes
  refine ⟨buf', hcons, hrest, fun fuel => ?_⟩
  rw [decodeResData, hread, exec_ok_bind]
  simp only [hx]
  rcases hkind with rfl | rfl
  · rfl
  · rfl

/-- `decode_res_data` of an exception or a value in one chunk. -/
theorem decodeResData_text {buf : Buffer} {kind : Nat} (hkind : kind = 0 ∨ kind = 1) {s : HsString}
    {rest : List UInt8} (h : BufInv buf)
    (hbytes : bufBytes buf = UInt8.ofNat (0x90 + kind) :: (s.bytes ++ rest)) (hs : s.chunks = [])
    {fuel : Nat} (hfuel : 0 < fuel) (res : DubboRes) :
    decodeResData fuel buf res = .ok (some { res with type := kind, data := some s.text }) := by
  obtain ⟨buf', hcons, hrest, hdata⟩ := decodeResData_str hkind h hbytes res
  obtain ⟨buf'', hstr⟩ := readHsStr_spec (hcons.inv h) hrest hs hfuel
  rw [hdata fuel, hstr, exec_ok_bind]
  rfl

/-- `decode_res_data` of a null. -/
theorem decodeResData_null {buf : Buffer} {rest : List UInt8} (h : BufInv buf)
    (hbytes : bufBytes buf = 0x92 :: rest) (fuel : Nat) (res : DubboRes) :
    decodeResData fuel buf res = .ok (some { res with type := 2 }) := by
  obtain ⟨x, buf', hread, hx, -, -⟩ := bufReadInt8_cons h hbytes
  rw [decodeResData, hread, exec_ok_bind]
  simp only [hx]
  rfl

/-- **`decode_res` reads the body** of a frame without a chunked string. -/
theorem decodeRes_spec {f : ResFrame} (hf : f.SingleChunk) {buf : Buffer} (h : BufInv buf)
    (hbytes : bufBytes buf = f.body.bytes) {fuel : Nat} (hfuel : 0 < fuel) :
    decodeRes fuel buf f.hdr (initRes f.reqid.toInt) = .ok (some f.res) := by
  rw [ResFrame.SingleChunk] at hf
  rw [f.decodeRes_hdr, ResFrame.started, ResFrame.res]
  cases hb : f.body with
  | value s attach =>
    rw [hb] at hbytes hf
    have hdata := decodeResData_text (.inr rfl) h hbytes (hf s rfl) hfuel f.started
    rw [ResFrame.started, hb] at hdata
    exact hdata
  | exception s attach =>
    rw [hb] at hbytes hf
    have hdata := decodeResData_text (.inl rfl) h hbytes (hf s rfl) hfuel f.started
    rw [ResFrame.started, hb] at hdata
    exact hdata
  | null attach =>
    rw [hb] at hbytes
    have hdata := decodeResData_null h hbytes fuel f.started
    rw [ResFrame.started, hb] at hdata
    exact hdata
  | event body => rfl
  | failure status evt s attach =>
    rw [hb] at hbytes hf
    obtain ⟨buf', hstr⟩ := readHsStr_spec h hbytes (hf s rfl) hfuel
    have hstatus : (ResBody.failure status evt s attach).status ≠ 20 := status.property
    rw [if_neg hstatus, hstr, exec_ok_bind, exec_pure]
    rfl

/-- `dubbo_decode` behind the header: a copy of `n` bytes is made and decoded. -/
def decodeBody (fuel : Nat) (buf : Buffer) (hdr : DubboHdr) (n : Nat) :
    Exec (Option DubboRes × Buffer) := do
  let bodyBuf ← bufCreate n
  let d ← memLoad buf.buf buf.readIdx n
  let bodyBuf ← bufAppend bodyBuf d
  let buf ← bufRetrieve buf n
  let res ← decodeRes fuel bodyBuf hdr (initRes hdr.reqid)
  return (res, buf)

section Frames

variable {flag status : Int8} {reqid : Int64}

/-- `dubbo_decode` on a buffer that begins with the header of a response. -/
theorem dubboDecode_hdr {n : Nat} {buf : Buffer} {rest : List UInt8} (h : BufShape buf)
    (hmax : n ≤ 4194304) (hflag : IsResponseFlag flag)
    (hbytes : bufBytes buf = dubboHdrBytes flag status.toInt reqid.toInt n ++ rest) :
    ∃ buf', Consumed 16 buf buf' ∧ bufBytes buf' = rest
      ∧ ∀ fuel, dubboDecode fuel buf
        = decodeBody fuel buf' ⟨flag, status.toInt, n, reqid.toInt⟩ n := by
  obtain ⟨buf', hcons, hrest, hhdr, -⟩ := decodeResHdr_spec h hmax hbytes
  have hsize : toUnsigned 64 (n : Int) = n := toUnsigned_natCast (by omega)
  refine ⟨buf', hcons, hrest, fun fuel => ?_⟩
  rw [dubboDecode, hhdr hflag, exec_ok_bind]
  simp only [hsize]
  rfl

/-- `dubbo_decode` stops behind the header of any other packet. -/
theorem dubboDecode_rejected {n : Nat} {buf : Buffer} {rest : List UInt8} (h : BufShape buf)
    (hmax : n ≤ 4194304) (hflag : ¬ IsResponseFlag flag)
    (hbytes : bufBytes buf = dubboHdrBytes flag status.toInt reqid.toInt n ++ rest) :
    ∃ buf', Consumed 16 buf buf' ∧ bufBytes buf' = rest
      ∧ ∀ fuel, dubboDecode fuel buf = .ok (none, buf') := by
  obtain ⟨buf', hcons, hrest, -, hhdr⟩ := decodeResHdr_spec h hmax hbytes
  refine ⟨buf', hcons, hrest, fun fuel => ?_⟩
  rw [dubboDecode, hhdr hflag, exec_ok_bind]
  rfl

/-- The copy of a body fills its block. -/
theorem bodyBuf_spec {d : List UInt8} (hpos : 0 < d.length) (hmax : d.length ≤ 4194304) :
    ∃ b b', bufCreate d.length = .ok b ∧ bufAppend b d = .ok b' ∧ BufInv b' ∧ bufBytes b' = d
      ∧ b'.writeIdx = b'.sz := by
  have hfront : bufCheapPrepend = 8 := rfl
  obtain ⟨b, hcreate, hinv, hempty, -, hsz, hwi⟩ :=
    bufCreateEx_spec hpos (show d.length + bufCheapPrepend < 2 ^ 64 by omega)
  have hroom : d.length ≤ bufWritable b := by
    rw [hinv.toBufWf.writable_eq]
    omega
  obtain ⟨b', hwrite, hwf, hri, hwi', hbytes, hsz', hp'⟩ :=
    bufBeginWriteStore_hasWritten_spec hinv.toBufWf hroom
  have hp := hinv.pSz_le_read
  refine ⟨b, b', hcreate, ?_, ⟨hwf, by omega⟩, by rw [hbytes, hempty, List.nil_append], by omega⟩
  -- the block has been created with room for the body
  have hensure : bufEnsureWritable b d.length = .ok b := by
    rw [bufEnsureWritable, assertWrite, cassert_bind_of hinv.unlocked, if_neg (by omega), exec_pure,
      exec_ok_bind]
    show (cassert (d.length ≤ bufWritable b) >>= _) = _
    rw [cassert_bind_of hroom, exec_pure]
  rw [bufAppend, assertWrite, cassert_bind_of hinv.unlocked, hensure]
  exact hwrite

/-- A complete frame behind its header: the body is taken off the buffer and decoded. -/
theorem decodeBody_complete {body : List UInt8} {buf : Buffer} {t : List UInt8} (hdr : DubboHdr)
    (hpos : 0 < body.length) (hmax : body.length ≤ 4194304) (h : BufShape buf)
    (hbytes : bufBytes buf = body ++ t) :
    ∃ b' buf', BufInv b' ∧ bufBytes b' = body ∧ b'.writeIdx = b'.sz
      ∧ Consumed body.length buf buf' ∧ ∀ fuel, decodeBody fuel buf hdr body.length = (do
        let res ← decodeRes fuel b' hdr (initRes hdr.reqid)
        return (res, buf')) := by
  have hlen : body.length ≤ bufReadable buf := by
    rw [← h.length_bufBytes, hbytes, List.length_append]
    omega
  obtain ⟨b, b', hcreate, happ, hinv', hbytes', hend⟩ := bodyBuf_spec hpos hmax
  obtain ⟨buf', hretr, hcons⟩ := h.retrieve_spec hlen
  have hload := h.load_front hlen
  rw [hbytes, List.take_left] at hload
  refine ⟨b', buf', hinv', hbytes', hend, hcons, fun fuel => ?_⟩
  rw [decodeBody, hcreate, exec_ok_bind, hload, exec_ok_bind, happ, exec_ok_bind, hretr,
    exec_ok_bind]

/-- **`dubbo_decode` on a complete frame** of a response: the frame is taken off the buffer, and the
result is that of `decode_res` on a copy of the body. -/
theorem dubboDecode_complete {body : List UInt8} {buf : Buffer} {t : List UInt8} (h : BufShape buf)
    (hpos : 0 < body.length) (hmax : body.length ≤ 4194304) (hflag : IsResponseFlag flag)
    (hbytes : bufBytes buf = dubboFrame flag status.toInt reqid.toInt body ++ t) :
    ∃ b' buf', BufInv b' ∧ bufBytes b' = body ∧ b'.writeIdx = b'.sz
      ∧ Consumed (16 + body.length) buf buf' ∧ bufBytes buf' = t
      ∧ ∀ fuel, dubboDecode fuel buf = (do
        let res ← decodeRes fuel b' ⟨flag, status.toInt, body.length, reqid.toInt⟩
          (initRes reqid.toInt)
        return (res, buf')) := by
  rw [dubboFrame, List.append_assoc] at hbytes
  obtain ⟨buf₁, hcons₁, hrest₁, hdecode⟩ := dubboDecode_hdr h hmax hflag hbytes
  obtain ⟨b', buf', hinv', hbytes', hend, hcons, hbody⟩ :=
    decodeBody_complete ⟨flag, status.toInt, body.length, reqid.toInt⟩ hpos hmax hcons₁.shape hrest₁
  refine ⟨b', buf', hinv', hbytes', hend, hcons₁.trans hcons, ?_, fun fuel => ?_⟩
  · rw [hcons.bytes, hrest₁, List.drop_left]
  · rw [hdecode, hbody]

end Frames

/-- **`dubbo_decode` reads a complete frame** at the front of the buffer and leaves what follows. -/
theorem dubboDecode_frame {f : ResFrame} (hf : f.SingleChunk) {buf : Buffer} {t : List UInt8}
    (h : BufInv buf) (hbytes : bufBytes buf = f.bytes ++ t) :
    Settles (fun fuel => dubboDecode fuel buf) fun r =>
      r.1 = some f.res ∧ BufInv r.2 ∧ bufBytes r.2 = t ∧ r.2.sz = buf.sz := by
  obtain ⟨b', buf', hinv', hbytes', -, hcons, hrest, hdecode⟩ :=
    dubboDecode_complete h.shape f.pos f.le_max f.flag_bits.1 hbytes
  -- the string decoder makes no nested call here, so one unit of fuel is enough
  refine ⟨1, (some f.res, buf'), fun fuel hfuel => ?_, rfl, hcons.inv h, hrest, hcons.sz⟩
  have hres : decodeRes fuel b' f.hdr (initRes f.reqid.toInt) = .ok (some f.res) :=
    decodeRes_spec hf hinv' hbytes' hfuel
  rw [ResFrame.hdr] at hres
  show dubboDecode fuel buf = .ok (some f.res, buf')
  rw [hdecode, hres, exec_ok_bind, exec_pure]

end Wee
