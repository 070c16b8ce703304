import Wee.Dubbo.CodecFrame
import Wee.Dubbo.HessianString

/-! # Encoding requests

The body of a request is written item by item without a check of the capacity, so `dubbo_encode` is
safe exactly when the items before the first refused one fit the fixed buffer. Where they do, the
readable bytes are the frame of the request: a 16-byte header and a body that a reference reader of
the Hessian grammar parses back, and `is_completed_dubbo_pkt` accepts it with nothing remaining. -/

namespace Wee

/-! ### Items -/

/-- The length `hs_encode_string` computes: `strlen` in an `int`. -/
def intLength (s : CStr) : Int := toSigned 32 (strlen s)

/-- The encoding of an item. -/
def HsItem.bytes : HsItem → List UInt8
  | .str s => asciiString s.bytes
  | .null => [0x4E]

/-- The bytes stored for an item. -/
def HsItem.stored : HsItem → List UInt8
  | .str s => asciiString (s.bytes.take (intLength s).toNat)
  | .null => [0x4E]

/-- The item is too long for `hs_encode_string`. -/
def HsItem.Refused : HsItem → Prop
  | .str s => 0x8000 < intLength s
  | .null => False

/-- The length of the item did not become negative. -/
def HsItem.Valid : HsItem → Prop
  | .str s => 0 ≤ intLength s
  | .null => True

/-- The length of the item is that of the string. -/
def HsItem.Exact : HsItem → Prop
  | .str s => intLength s = strlen s
  | .null => True

/-- Every store of the items lies in the next `room` bytes, up to the first item refused. -/
def ItemsStay : Nat → List HsItem → Prop
  | _, [] => True
  | room, item :: items =>
    item.Refused ∨ item.Valid ∧ item.stored.length ≤ room
      ∧ ItemsStay (room - item.stored.length) items

/-- A non-negative length is not longer than the string. -/
theorem intLength_toNat_le {s : CStr} (h : 0 ≤ intLength s) :
    (intLength s).toNat ≤ s.bytes.length := by
  have hmod : strlen s % 2 ^ 32 ≤ strlen s := Nat.mod_le _ _
  unfold intLength toSigned at h ⊢
  rw [strlen] at hmod h ⊢
  split_ifs at h ⊢ with hlt
  · omega
  · omega

/-- At least the bytes of the string are stored. -/
theorem le_length_stored {s : CStr} (h : 0 ≤ intLength s) :
    (intLength s).toNat ≤ (HsItem.str s).stored.length := by
  have := intLength_toNat_le h
  rw [HsItem.stored, asciiString, List.length_append, List.length_take]
  omega

/-- A length that fits the `int` is exact. -/
theorem intLength_eq {s : CStr} (h : s.bytes.length < 2 ^ 31) : intLength s = strlen s :=
  toSigned_of_lt (by rw [strlen]; exact h)

/-- `hs_encode_string` refuses a string by its length. -/
theorem hsEncodeString_refused {s : CStr} (h : 0x8000 < intLength s) :
    hsEncodeString s = .ok none := by
  rw [intLength] at h
  simp only [hsEncodeString]
  rw [if_pos h]

/-- `hs_encode_string` of a string whose length became negative. -/
theorem hsEncodeString_negative {s : CStr} (h : intLength s < 0) :
    hsEncodeString s = .error .outOfBounds := by
  rw [intLength] at h
  simp only [hsEncodeString]
  rw [if_neg (by omega), if_pos h]

/-- `hs_encode_string` of a string it accepts: the encoding of as many bytes as the `int` says. -/
theorem hsEncodeString_stored {s : CStr} (hlo : 0 ≤ intLength s) (hhi : intLength s ≤ 0x8000) :
    hsEncodeString s = .ok (some (HsItem.str s).stored) := by
  have hle := intLength_toNat_le hlo
  -- the encoder sees only the front part of the string
  let front : CStr := ⟨s.bytes.take (intLength s).toNat, fun h => s.nulFree (List.mem_of_mem_take h)⟩
  have hfront : front.bytes.length = (intLength s).toNat := by
    rw [List.length_take, Nat.min_eq_left hle]
  have hint : toSigned 32 (strlen front) = toSigned 32 (strlen s) := by
    have : intLength front = (intLength s).toNat := by
      rw [intLength_eq (by omega), strlen, hfront]
    rw [intLength] at this
    rw [this, ← intLength]
    omega
  have htake : front.bytes.take (toSigned 32 (strlen s)).toNat
      = s.bytes.take (toSigned 32 (strlen s)).toNat := by
    rw [List.take_take, intLength, Nat.min_self]
  calc hsEncodeString s = hsEncodeString front := by
        simp only [hsEncodeString, hint, htake]
    _ = .ok (some (asciiString front.bytes)) := hsEncodeString_eq (by omega)

/-! ### Writing items -/

/-- The part of a buffer that writing at its end leaves alone. -/
structure SameFront (b b' : Buffer) : Prop where
  /-- The read index. -/
  readIdx : b'.readIdx = b.readIdx
  /-- The capacity. -/
  sz : b'.sz = b.sz
  /-- The reserved front. -/
  pSz : b'.pSz = b.pSz

/-- Storing bytes for which there is room, and then moving the write index over them. -/
theorem store_spec {buf : Buffer} {d : List UInt8} (h : BufWf buf)
    (hd : d.length ≤ bufWritable buf) :
    ∃ buf', (do let buf ← bufBeginWriteStore buf d
                let buf ← bufHasWritten buf d.length
                return some buf : Exec (Option Buffer)) = .ok (some buf')
      ∧ BufWf buf' ∧ SameFront buf buf' ∧ bufBytes buf' = bufBytes buf ++ d
      ∧ bufWritable buf' = bufWritable buf - d.length := by
  obtain ⟨buf', hok, hwf, hri, hwi, hbytes, hsz, hpz⟩ := bufBeginWriteStore_hasWritten_spec h hd
  obtain ⟨buf₁, hstore, hwritten⟩ := exec_bind_eq_ok.mp hok
  refine ⟨buf', ?_, hwf, ⟨hri, hsz, hpz⟩, hbytes, ?_⟩
  · rw [hstore, exec_ok_bind, hwritten]
    rfl
  · rw [hwf.writable_eq, h.writable_eq]
    omega

/-- Storing more bytes than there is room for leaves the block. -/
theorem store_outside {buf : Buffer} {d : List UInt8} (h : BufWf buf)
    (hd : bufWritable buf < d.length) : bufBeginWriteStore buf d = .error .outOfBounds := by
  have hl := h.length_buf
  have hw := h.write_le_sz
  rw [h.writable_eq] at hd
  rw [bufBeginWriteStore, memStore_of_gt (by omega)]
  rfl

/-- An item that is refused. -/
theorem writeHsItem_refused (buf : Buffer) {item : HsItem} (h : item.Refused) :
    writeHsItem buf item = .ok none := by
  cases item with
  | str s =>
    rw [writeHsItem, hsEncodeString_refused h]
    rfl
  | null => exact h.elim

/-- An item for which there is room. -/
theorem writeHsItem_fits {buf : Buffer} (hbuf : BufWf buf) {item : HsItem} (hacc : ¬ item.Refused)
    (hvalid : item.Valid) (hroom : item.stored.length ≤ bufWritable buf) :
    ∃ buf', writeHsItem buf item = .ok (some buf') ∧ BufWf buf' ∧ SameFront buf buf'
      ∧ bufBytes buf' = bufBytes buf ++ item.stored
      ∧ bufWritable buf' = bufWritable buf - item.stored.length := by
  obtain ⟨buf', hstore, hspec⟩ := store_spec hbuf hroom
  refine ⟨buf', ?_, hspec⟩
  cases item with
  | str s =>
    have hhi : intLength s ≤ 0x8000 := not_lt.mp hacc
    rw [writeHsItem, hsEncodeString_stored hvalid hhi, exec_ok_bind]
    exact hstore
  | null => exact hstore

/-- An item that is neither refused nor fits leaves the block. -/
theorem writeHsItem_outside {buf : Buffer} (hbuf : BufWf buf) {item : HsItem}
    (hacc : ¬ item.Refused) (h : ¬ (item.Valid ∧ item.stored.length ≤ bufWritable buf)) :
    writeHsItem buf item = .error .outOfBounds := by
  cases item with
  | str s =>
    have hhi : intLength s ≤ 0x8000 := not_lt.mp hacc
    by_cases hlo : 0 ≤ intLength s
    · have hgt : bufWritable buf < (HsItem.str s).stored.length :=
        not_le.mp fun hle => h ⟨hlo, hle⟩
      rw [writeHsItem, hsEncodeString_stored hlo hhi, exec_ok_bind]
      simp only [store_outside hbuf hgt, exec_error_bind]
    · rw [writeHsItem, hsEncodeString_negative (not_le.mp hlo), exec_error_bind]
  | null =>
    have hgt : bufWritable buf < hsEncodeNull.length := not_le.mp fun hle => h ⟨trivial, hle⟩
    rw [writeHsItem, store_outside hbuf hgt, exec_error_bind]

/-- **The items stay in the buffer**: then the writes end with the first item refused, or have
stored every item. -/
theorem writeHsItems_stay {items : List HsItem} {buf : Buffer} (hbuf : BufWf buf)
    (h : ItemsStay (bufWritable buf) items) :
    ((∃ item ∈ items, item.Refused) ∧ writeHsItems items buf = .ok none) ∨
      (∀ item ∈ items, ¬ item.Refused) ∧ ∃ buf', writeHsItems items buf = .ok (some buf')
        ∧ BufWf buf' ∧ SameFront buf buf'
        ∧ bufBytes buf' = bufBytes buf ++ items.flatMap HsItem.stored := by
  induction items generalizing buf with
  | nil =>
    refine .inr ⟨fun _ hmem => absurd hmem List.not_mem_nil, buf, rfl, hbuf, ⟨rfl, rfl, rfl⟩, ?_⟩
    rw [List.flatMap_nil, List.append_nil]
  | cons item items ih =>
    by_cases href : item.Refused
    · refine .inl ⟨⟨item, List.mem_cons_self, href⟩, ?_⟩
      rw [writeHsItems, writeHsItem_refused buf href]
      rfl
    · obtain ⟨hvalid, hroom, hrest⟩ := h.resolve_left href
      obtain ⟨buf₁, hwrite, hwf, hsame, hbytes, hwritable⟩ :=
        writeHsItem_fits hbuf href hvalid hroom
      rw [← hwritable] at hrest
      rw [writeHsItems, hwrite, exec_ok_bind]
      rcases ih hwf hrest with ⟨⟨item', hmem, href'⟩, hnone⟩ | ⟨hacc, buf', hok, hwf', hsame', hbs⟩
      · exact .inl ⟨⟨item', List.mem_cons_of_mem _ hmem, href'⟩, hnone⟩
      · refine .inr ⟨List.forall_mem_cons.mpr ⟨href, hacc⟩, buf', hok, hwf', ?_, ?_⟩
        · exact ⟨hsame'.readIdx.trans hsame.readIdx, hsame'.sz.trans hsame.sz,
            hsame'.pSz.trans hsame.pSz⟩
        · rw [hbs, hbytes, List.flatMap_cons, List.append_assoc]

/-- **Items that do not stay leave the block.** -/
theorem writeHsItems_outside {items : List HsItem} {buf : Buffer} (hbuf : BufWf buf)
    (h : ¬ ItemsStay (bufWritable buf) items) :
    writeHsItems items buf = .error .outOfBounds := by
  induction items generalizing buf with
  | nil => exact absurd trivial h
  | cons item items ih =>
    rw [ItemsStay, not_or] at h
    obtain ⟨href, hrest⟩ := h
    by_cases hfits : item.Valid ∧ item.stored.length ≤ bufWritable buf
    · obtain ⟨buf₁, hwrite, hwf, -, -, hwritable⟩ :=
        writeHsItem_fits hbuf href hfits.1 hfits.2
      rw [writeHsItems, hwrite, exec_ok_bind]
      refine ih hwf fun hstay => hrest ⟨hfits.1, hfits.2, ?_⟩
      rwa [← hwritable]
    · rw [writeHsItems, writeHsItem_outside hbuf href hfits, exec_error_bind]

/-! ### Requests -/

/-- The body of a request. -/
def reqBody (req : DubboReq) : List UInt8 :=
  if req.isEvt then req.data else (reqItems req).flatMap HsItem.bytes

/-- The frame of a request. -/
def reqFrame (req : DubboReq) : List UInt8 :=
  dubboFrame (reqFlag req) 0 req.reqid.toInt (reqBody req)

/-- **Safe encoding**: no store leaves the buffer and no assertion fails, and a buffer that is
returned holds the whole frame. -/
def EncodesSafely (req : DubboReq) : Prop :=
  ∃ r, dubboEncode req = .ok r ∧ ∀ buf, r = some buf → bufBytes buf = reqFrame req

/-- The items of the body stay in the 8192 bytes of the buffer up to the first one refused, and
unless one is refused no length has been cut by the conversion to `int`. -/
def RequestFits (req : DubboReq) : Prop :=
  req.isEvt = true ∨ ItemsStay dubboBufLen (reqItems req)
    ∧ ((∃ item ∈ reqItems req, item.Refused) ∨ ∀ item ∈ reqItems req, item.Exact)

/-- The buffer `dubbo_encode` works on. -/
theorem dubboBuffer_spec :
    ∃ buf, bufCreateEx dubboBufLen dubboHdrLen = .ok buf ∧ BufInv buf ∧ bufBytes buf = []
      ∧ bufWritable buf = dubboBufLen ∧ buf.readIdx = dubboHdrLen ∧ buf.pSz = dubboHdrLen
      ∧ buf.sz = dubboBufLen + dubboHdrLen := by
  have hpos : 0 < dubboBufLen := by decide
  have hov : dubboBufLen + dubboHdrLen < 2 ^ 64 := by decide
  obtain ⟨buf, hok, hinv, hbytes, hp, hsz, hwi⟩ := bufCreateEx_spec hpos hov
  have hr := hinv.read_le_write
  have hpr := hinv.pSz_le_read
  refine ⟨buf, hok, hinv, hbytes, ?_, by omega, hp, hsz⟩
  rw [hinv.toBufWf.writable_eq]
  omega

/-- An exact item stores its encoding. -/
theorem HsItem.Exact.stored_eq {item : HsItem} (h : item.Exact) : item.stored = item.bytes := by
  cases item with
  | str s =>
    have hlen : (intLength s).toNat = s.bytes.length := by
      rw [show intLength s = strlen s from h, strlen, Int.toNat_natCast]
    rw [HsItem.stored, hlen, List.take_length, HsItem.bytes]
  | null => rfl

/-- A string is no longer than a body it is part of. -/
theorem length_le_of_mem {s : CStr} {items : List HsItem} (hmem : .str s ∈ items) :
    s.bytes.length ≤ (items.flatMap HsItem.bytes).length := by
  obtain ⟨pre, post, rfl⟩ := List.append_of_mem hmem
  rw [List.flatMap_append, List.flatMap_cons, List.length_append, List.length_append,
    HsItem.bytes, asciiString, List.length_append]
  omega

/-- The items of a body whose length fits an `int` are exact. -/
theorem exact_of_mem {item : HsItem} {items : List HsItem} (hmem : item ∈ items)
    (hlen : (items.flatMap HsItem.bytes).length < 2 ^ 31) : item.Exact := by
  cases item with
  | str s => exact intLength_eq (Nat.lt_of_le_of_lt (length_le_of_mem hmem) hlen)
  | null => trivial

/-- `dubbo_encode` of an event. -/
theorem dubboEncode_evt {req : DubboReq} (h : req.isEvt = true) :
    ∃ buf, dubboEncode req = .ok (some buf) ∧ bufBytes buf = reqFrame req := by
  obtain ⟨buf, hok, hinv, hbytes, hwr, hri, hp, hsz⟩ := dubboBuffer_spec
  have hlt := req.data_lt
  have hw := hinv.write_le_sz
  have hcap : buf.sz = 8208 := hsz
  obtain ⟨buf₁, happ, hinv₁, hbytes₁, -, hp₁⟩ :=
    hinv.append_spec (d := req.data) (by omega)
  rw [hbytes, List.nil_append] at hbytes₁
  have hfront : dubboHdrLen ≤ buf₁.readIdx := by
    have := hinv₁.pSz_le_read
    omega
  obtain ⟨buf', hhdr, -, hframe, -⟩ :=
    encodeReqHdr_spec hinv₁.toBufWf hfront (reqFlag req) 0 req.reqid.toInt
  refine ⟨buf', ?_, ?_⟩
  · rw [dubboEncode, hok, exec_ok_bind, encodeReq, h]
    simp only [if_true, happ]
    exact hhdr
  · rw [hframe, hbytes₁, reqFrame, reqBody, if_pos h]

/-- `dubbo_encode` of a request whose items stay in the buffer. -/
theorem dubboEncode_stay {req : DubboReq} (hevt : req.isEvt = false)
    (h : ItemsStay dubboBufLen (reqItems req)) :
    ((∃ item ∈ reqItems req, item.Refused) ∧ dubboEncode req = .ok none) ∨
      (∀ item ∈ reqItems req, ¬ item.Refused) ∧ ∃ buf, dubboEncode req = .ok (some buf)
        ∧ BufWf buf ∧ bufBytes buf = dubboFrame (reqFlag req) 0 req.reqid.toInt
          ((reqItems req).flatMap HsItem.stored)
        ∧ ((reqItems req).flatMap HsItem.stored).length ≤ dubboBufLen
        ∧ buf.sz = dubboBufLen + dubboHdrLen := by
  obtain ⟨buf, hok, hinv, hbytes, hwr, hri, hp, hsz⟩ := dubboBuffer_spec
  rw [← hwr] at h
  rcases writeHsItems_stay hinv.toBufWf h with ⟨href, hnone⟩ | ⟨hacc, buf₁, hwrite, hwf, hsame, hbs⟩
  · refine .inl ⟨href, ?_⟩
    rw [dubboEncode, hok, exec_ok_bind, encodeReq, hevt]
    simp only [Bool.false_eq_true, if_false, encodeReqData, hnone, exec_ok_bind]
    rfl
  · rw [hbytes, List.nil_append] at hbs
    obtain ⟨buf', hhdr, hwf', hframe, hsz'⟩ := encodeReqHdr_spec hwf
      (by rw [hsame.readIdx, hri]) (reqFlag req) 0 req.reqid.toInt
    refine .inr ⟨hacc, buf', ?_, hwf', ?_, ?_, hsz'.trans (hsame.sz.trans hsz)⟩
    · rw [dubboEncode, hok, exec_ok_bind, encodeReq, hevt]
      simp only [Bool.false_eq_true, if_false, encodeReqData, hwrite, exec_ok_bind]
      exact hhdr
    · rw [hframe, hbs]
    · have hlen := hwf.length_bufBytes
      have hsz₁ := hsame.sz
      have hri₁ := hsame.readIdx
      have hw := hwf.write_le_sz
      rw [hbs, hwf.readable_eq] at hlen
      omega

/-- `dubbo_encode` of a request whose items leave the buffer. -/
theorem dubboEncode_outside {req : DubboReq} (hevt : req.isEvt = false)
    (h : ¬ ItemsStay dubboBufLen (reqItems req)) : dubboEncode req = .error .outOfBounds := by
  obtain ⟨buf, hok, hinv, -, hwr, -⟩ := dubboBuffer_spec
  rw [← hwr] at h
  rw [dubboEncode, hok, exec_ok_bind, encodeReq, hevt]
  simp only [Bool.false_eq_true, if_false, encodeReqData, writeHsItems_outside hinv.toBufWf h,
    exec_error_bind]

/-- A frame that `dubbo_encode` returns for a request that is no event has a header and at most the
size of the buffer. -/
theorem dubboEncode_some {req : DubboReq} (hevt : req.isEvt = false) {buf : Buffer}
    (hok : dubboEncode req = .ok (some buf)) :
    BufWf buf ∧ 16 ≤ (bufBytes buf).length ∧ (bufBytes buf).length ≤ 8208 ∧ buf.sz = 8208 := by
  -- items that leave the buffer are a fault, and a refused item is no frame
  by_cases hstay : ItemsStay dubboBufLen (reqItems req)
  · rcases dubboEncode_stay hevt hstay with ⟨-, hnone⟩ | ⟨-, buf', hok', hwf, hframe, hlen, hsz⟩
    · rw [hnone] at hok
      cases hok
    · obtain rfl : buf' = buf := Option.some.inj (Except.ok.inj (hok'.symm.trans hok))
      have hcap : dubboBufLen = 8192 := rfl
      rw [hframe, length_dubboFrame]
      exact ⟨hwf, by omega, by omega, hsz⟩
  · rw [dubboEncode_outside hevt hstay] at hok
    cases hok

/-- **`dubbo_encode` is safe exactly on the requests that fit.** -/
theorem dubbo_encode_safe_iff (req : DubboReq) : EncodesSafely req ↔ RequestFits req := by
  cases hevt : req.isEvt with
  | true =>
    obtain ⟨buf, hok, hframe⟩ := dubboEncode_evt hevt
    refine ⟨fun _ => .inl hevt, fun _ => ⟨_, hok, fun buf' hbuf' => ?_⟩⟩
    rw [Option.some.injEq] at hbuf'
    rwa [← hbuf']
  | false =>
    have hbody : reqBody req = (reqItems req).flatMap HsItem.bytes := by
      rw [reqBody, hevt]
      rfl
    by_cases hstay : ItemsStay dubboBufLen (reqItems req)
    · rcases dubboEncode_stay hevt hstay with ⟨href, hnone⟩ | ⟨hacc, buf, hok, -, hframe, hlen, -⟩
      · exact ⟨fun _ => .inr ⟨hstay, .inl href⟩, fun _ => ⟨none, hnone, fun _ h => by cases h⟩⟩
      · constructor
        · rintro ⟨r, hr, hwhole⟩
          rw [hok, Except.ok.injEq] at hr
          -- the frame that is held has the body that was stored, so no length was cut
          have heq := hwhole buf hr.symm
          rw [hframe, reqFrame, hbody] at heq
          have hlens := congrArg List.length heq
          rw [length_dubboFrame, length_dubboFrame] at hlens
          have hcap : dubboBufLen = 8192 := rfl
          refine .inr ⟨hstay, .inr fun item hmem => exact_of_mem hmem ?_⟩
          omega
        · rintro (h | ⟨-, ⟨item, hmem, href⟩ | hexact⟩)
          · rw [hevt] at h
            cases h
          · exact absurd href (hacc item hmem)
          · refine ⟨_, hok, fun buf' hbuf' => ?_⟩
            rw [Option.some.injEq] at hbuf'
            rw [← hbuf', hframe, reqFrame, hbody]
            congr 1
            exact List.flatMap_congr fun item hmem => (hexact item hmem).stored_eq
    · constructor
      · rintro ⟨r, hr, -⟩
        rw [dubboEncode_outside hevt hstay] at hr
        cases hr
      · rintro (h | ⟨h, -⟩)
        · rw [hevt] at h
          cases h
        · exact absurd h hstay

/-- A request for a service whose name has 8192 characters. -/
def longServiceReq : DubboReq where
  reqid := 1
  isTwoway := true
  isEvt := false
  service := ⟨List.replicate 8192 0x61, fun h => absurd (List.eq_of_mem_replicate h) (by decide)⟩
  argvMethod := ⟨[0x6D], by decide⟩
  argvArgs := ⟨[0x5B, 0x5D], by decide⟩
  data := []
  data_lt := noData_lt

/-- Its second item does not fit the buffer behind the version, and is stored nevertheless. -/
theorem dubbo_encode_overruns :
    dubboEncode longServiceReq = .error .outOfBounds ∧ ¬ EncodesSafely longServiceReq := by
  have hlen : longServiceReq.service.bytes.length = 8192 := List.length_replicate
  have hint : intLength longServiceReq.service = 8192 := by
    rw [intLength_eq (by omega), strlen, hlen]
    rfl
  have hver : (HsItem.str dubboVer).stored.length = 14 := by decide
  have hservice : 8192 ≤ (HsItem.str longServiceReq.service).stored.length := by
    have := le_length_stored (show 0 ≤ intLength longServiceReq.service by omega)
    omega
  have hout : ¬ ItemsStay dubboBufLen (reqItems longServiceReq) := by
    have hcap : dubboBufLen = 8192 := rfl
    rintro (href | ⟨-, -, href | ⟨-, hroom, -⟩⟩)
    · exact absurd (show 0x8000 < intLength dubboVer from href) (by decide)
    · rw [HsItem.Refused] at href
      omega
    · omega
  have herr := dubboEncode_outside rfl hout
  refine ⟨herr, ?_⟩
  rintro ⟨r, hr, -⟩
  rw [herr] at hr
  cases hr

/-! ### The format of a request -/

/-- The fields of a request body. -/
structure RefBody where
  /-- The version. -/
  version : List UInt8
  /-- The service. -/
  service : List UInt8
  /-- The version of the method. -/
  methodVer : List UInt8
  /-- The name of the generic method. -/
  name : List UInt8
  /-- Its parameter types. -/
  types : List UInt8
  /-- The method called. -/
  method : List UInt8
  /-- Its arguments. -/
  args : List UInt8
  deriving DecidableEq

/-- The reference reader for a request body: the fields and the rest. -/
def refReadBody (bs : List UInt8) : Option (RefBody × List UInt8) := do
  let (version, bs) ← refReadString bs
  let (service, bs) ← refReadString bs
  let (methodVer, bs) ← refReadString bs
  let (name, bs) ← refReadString bs
  let (types, bs) ← refReadString bs
  let (method, bs) ← refReadString bs
  let bs ← refReadNull bs
  let (args, bs) ← refReadString bs
  let bs ← refReadNull bs
  return (⟨version, service, methodVer, name, types, method, args⟩, bs)

/-- The bytes of a text that is ASCII. -/
def IsAscii (bs : List UInt8) : Prop := ∀ b ∈ bs, b < 0x80

/-- Being ASCII is checked byte by byte. -/
instance (bs : List UInt8) : Decidable (IsAscii bs) :=
  inferInstanceAs (Decidable (∀ b ∈ bs, b < 0x80))

/-- The reference reader reads an ASCII character. -/
theorem refReadChar_ascii {c : UInt8} (h : c < 0x80) (bs : List UInt8) :
    refReadChar (c :: bs) = some ([c], bs) := by
  have hwf : isUtf8Char [c] = true := (asciiChar c h).wf
  rw [refReadChar, List.take_succ_cons, List.take_zero, if_pos hwf]
  rfl

/-- The reference reader reads ASCII text, one character a byte. -/
theorem refReadChars_ascii {text : List UInt8} (h : IsAscii text) (rest : List UInt8) :
    refReadChars text.length (text ++ rest) = some (text, rest) := by
  induction text with
  | nil => rfl
  | cons c text ih =>
    obtain ⟨hc, htext⟩ := List.forall_mem_cons.mp h
    rw [List.length_cons, List.cons_append, refReadChars, refReadChar_ascii hc]
    simp only [Option.bind_eq_bind, Option.bind_some, ih htext]
    rfl

/-- **The reference reader reads the encoding of an ASCII text back**, whatever follows. -/
theorem refReadString_ascii {text : List UInt8} (h : IsAscii text) (hlen : text.length ≤ 65535)
    (rest : List UInt8) : refReadString (asciiString text ++ rest) = some (text, rest) := by
  have hlimit := StrForm.le_limit_least hlen
  rw [asciiString, List.append_assoc, refReadString]
  obtain ⟨fuel, hfuel⟩ : ∃ fuel, ((StrForm.least text.length).header text.length
      ++ (text ++ rest)).length = fuel + 1 := by
    refine Nat.exists_eq_add_one.mpr ?_
    rw [List.length_append]
    cases StrForm.least text.length <;> simp [StrForm.header]
  rw [hfuel, refReadChunks_header _ hlimit, refReadChars_ascii h]

/-- The reference reader reads a null back. -/
theorem refReadNull_null (rest : List UInt8) : refReadNull ([0x4E] ++ rest) = some rest := rfl

/-- The body of a request that is no event. -/
theorem reqBody_eq {req : DubboReq} (h : req.isEvt = false) :
    reqBody req = (reqItems req).flatMap HsItem.bytes := by
  rw [reqBody, h]
  rfl

/-- The fields of a request, as the reference reader returns them. -/
def reqFields (req : DubboReq) : RefBody where
  version := asciiBytes "3.1.0-RELEASE"
  service := req.service.bytes
  methodVer := asciiBytes "0.0.0"
  name := asciiBytes "$invokeWithJsonArgs"
  types := asciiBytes "Ljava/lang/String;[Ljava/lang/String;Ljava/lang/String;"
  method := req.argvMethod.bytes
  args := req.argvArgs.bytes

/-- **The body is read back**, field by field, with nothing left. -/
theorem refReadBody_reqBody {req : DubboReq} (hevt : req.isEvt = false)
    (hservice : IsAscii req.service.bytes) (hmethod : IsAscii req.argvMethod.bytes)
    (hargs : IsAscii req.argvArgs.bytes) (hlen : (reqBody req).length ≤ 8192) :
    refReadBody (reqBody req) = some (reqFields req, []) := by
  rw [reqBody_eq hevt] at hlen ⊢
  have hread {s : CStr} (hmem : .str s ∈ reqItems req) (hascii : IsAscii s.bytes)
      (rest : List UInt8) : refReadString (asciiString s.bytes ++ rest) = some (s.bytes, rest) := by
    have := length_le_of_mem hmem
    exact refReadString_ascii hascii (by omega) rest
  have hver : IsAscii dubboVer.bytes := by decide +kernel
  have hmver : IsAscii dubboGenericMethodVer.bytes := by decide +kernel
  have hname : IsAscii dubboGenericMethodName.bytes := by decide +kernel
  have htypes : IsAscii dubboGenericMethodParaTypes.bytes := by decide +kernel
  simp only [reqItems, List.flatMap_cons, List.flatMap_nil, HsItem.bytes, refReadBody]
  simp only [hread (by simp [reqItems]) hver, hread (by simp [reqItems]) hservice,
    hread (by simp [reqItems]) hmver, hread (by simp [reqItems]) hname,
    hread (by simp [reqItems]) htypes, hread (by simp [reqItems]) hmethod, refReadNull_null,
    hread (by simp [reqItems]) hargs, Option.bind_eq_bind, Option.bind_some]
  rfl

/-- A request whose body fits stays in the buffer, with nothing refused or cut. -/
theorem itemsStay_of_length {items : List HsItem} {room : Nat}
    (hlen : (items.flatMap HsItem.bytes).length ≤ room) (hroom : room ≤ 0x8000) :
    ItemsStay room items ∧ ∀ item ∈ items, item.Exact ∧ ¬ item.Refused := by
  have hexact (item : HsItem) (hmem : item ∈ items) : item.Exact ∧ ¬ item.Refused := by
    have hx := exact_of_mem hmem (by omega)
    refine ⟨hx, fun href => ?_⟩
    cases item with
    | str s =>
      have hle := length_le_of_mem hmem
      rw [HsItem.Refused, show intLength s = strlen s from hx, strlen] at href
      omega
    | null => exact href
  refine ⟨?_, hexact⟩
  clear hroom
  induction items generalizing room with
  | nil => trivial
  | cons item items ih =>
    obtain ⟨hx, -⟩ := hexact item List.mem_cons_self
    rw [List.flatMap_cons, List.length_append, ← hx.stored_eq] at hlen
    refine .inr ⟨?_, by omega, ih (by omega) fun i hi => hexact i (List.mem_cons_of_mem _ hi)⟩
    cases item with
    | str s =>
      rw [HsItem.Valid, show intLength s = strlen s from hx]
      omega
    | null => trivial

/-- `dubbo_encode` of a request whose body fits. -/
theorem dubboEncode_of_length {req : DubboReq} (hevt : req.isEvt = false)
    (hlen : (reqBody req).length ≤ 8192) :
    ∃ buf, dubboEncode req = .ok (some buf) ∧ BufWf buf
      ∧ bufBytes buf = dubboFrame (reqFlag req) 0 req.reqid.toInt (reqBody req) := by
  have hbody := reqBody_eq hevt
  have hroom : ((reqItems req).flatMap HsItem.bytes).length ≤ dubboBufLen := by
    rw [← hbody]
    exact hlen
  obtain ⟨hstay, hitems⟩ := itemsStay_of_length hroom (by decide)
  have hstored : (reqItems req).flatMap HsItem.stored = reqBody req := by
    rw [hbody]
    exact List.flatMap_congr fun item hmem => (hitems item hmem).1.stored_eq
  -- no item is that long, so none is refused
  rcases dubboEncode_stay hevt hstay with ⟨⟨item, hmem, href⟩, -⟩ | ⟨-, buf, hok, hwf, hframe, -⟩
  · exact absurd href (hitems item hmem).2
  · rw [hstored] at hframe
    exact ⟨buf, hok, hwf, hframe⟩

/-- The encoding of a request has the Dubbo format: the readable bytes are the header, with the size
of the body, and a body that the reference reader reads back as the fields of the request; and the
packet is complete with nothing remaining. -/
def HasRequestFormat (req : DubboReq) : Prop :=
  ∃ buf body, dubboEncode req = .ok (some buf)
    ∧ bufBytes buf = [0xDA, 0xBB, if req.isTwoway then 0xC2 else 0x82, 0x00]
        ++ beBytes 8 (toUnsigned 64 req.reqid.toInt) ++ beBytes 4 body.length ++ body
    ∧ refReadBody body = some (reqFields req, [])
    ∧ isCompletedDubboPkt buf = .ok (some 0)

/-- The bytes of a request frame. -/
theorem reqFrame_eq {req : DubboReq} (hevt : req.isEvt = false) (body : List UInt8) :
    dubboFrame (reqFlag req) 0 req.reqid.toInt body
      = [0xDA, 0xBB, if req.isTwoway then 0xC2 else 0x82, 0x00]
        ++ beBytes 8 (toUnsigned 64 req.reqid.toInt) ++ beBytes 4 body.length ++ body := by
  have hmagic : beBytes 2 dubboMagic = [0xDA, 0xBB] := by decide
  have hflag : beBytes 1 (toUnsigned 8 (reqFlag req).toInt)
      = [if req.isTwoway then 0xC2 else 0x82] := by
    rw [reqFlag, hevt]
    cases req.isTwoway with
    | true => decide
    | false => decide
  have hstatus : beBytes 1 (toUnsigned 8 0) = [0x00] := by decide
  rw [dubboFrame, dubboHdrBytes, hmagic, hflag, hstatus]
  rfl

/-- **The format of a request** with ASCII strings and a body of at most 8192 bytes. -/
theorem dubbo_request_format (req : DubboReq) (hevt : req.isEvt = false)
    (hservice : IsAscii req.service.bytes) (hmethod : IsAscii req.argvMethod.bytes)
    (hargs : IsAscii req.argvArgs.bytes) (hlen : (reqBody req).length ≤ 8192) :
    HasRequestFormat req := by
  have hpos : 0 < (reqBody req).length := by
    have hver : 0 < dubboVer.bytes.length := by decide
    have hle := length_le_of_mem (show .str dubboVer ∈ reqItems req from List.mem_cons_self)
    rw [← reqBody_eq hevt] at hle
    omega
  obtain ⟨buf, hok, hwf, hframe⟩ := dubboEncode_of_length hevt hlen
  have hread : bufReadable buf = 16 + (reqBody req).length := le_readable_of_hdr hwf.shape hframe
  refine ⟨buf, reqBody req, hok, ?_, refReadBody_reqBody hevt hservice hmethod hargs hlen, ?_⟩
  · rw [hframe, reqFrame_eq hevt]
  · rw [isCompletedDubboPkt_of_hdr hwf.shape hframe hpos (by omega), hread,
      szSub_eq (by omega) (by omega), Nat.add_comm, Nat.sub_self]
    rfl

/-- The request number 7 for the method `m` of the service `s`, without arguments. -/
def shortReq : DubboReq where
  reqid := 7
  isTwoway := true
  isEvt := false
  service := ⟨[0x73], by decide⟩
  argvMethod := ⟨[0x6D], by decide⟩
  argvArgs := ⟨[0x5B, 0x5D], by decide⟩
  data := []
  data_lt := noData_lt

/-- A short request has the format. -/
theorem dubbo_request_format_short : HasRequestFormat shortReq :=
  dubbo_request_format shortReq rfl (by decide +kernel) (by decide +kernel) (by decide +kernel)
    (by decide +kernel)

end Wee
