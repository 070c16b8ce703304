import Wee.Base.BufferFields
import Wee.Dubbo.CodecResponse

/-! # Responses in a stream

A receive buffer holds one frame behind the other, so what `dubbo_decode` leaves of the buffer
matters as much as what it returns. A response that carries what its status announces is decoded and
taken off the buffer, whatever stands behind it. On other frames there are two ways to lose the
stream: a flag that `decode_res_hdr` does not accept is rejected behind the header, with the body
still there, and a string that leaves the body or is chunked lets the string decoder fault or run
on. -/

namespace Wee

/-! ### Responses -/

/-- `body` is what the flag and the status of a response announce: the type and the data it stands
for. -/
inductive Announces (flag status : Int8) (s : FinalChunk) (attach : List UInt8) :
    List UInt8 → Int → Option (List UInt8) → Prop
  /-- A value. -/
  | value : status = 20 → flag &&& dubboFlagEvt = 0 →
      Announces flag status s attach (0x91 :: (s.bytes ++ attach)) 1 (some s.text)
  /-- An exception. -/
  | exception : status = 20 → flag &&& dubboFlagEvt = 0 →
      Announces flag status s attach (0x90 :: (s.bytes ++ attach)) 0 (some s.text)
  /-- No value. -/
  | null : status = 20 → flag &&& dubboFlagEvt = 0 →
      Announces flag status s attach (0x92 :: attach) 2 none
  /-- An event, whose body is not decoded. -/
  | event (body : List UInt8) : status = 20 → flag &&& dubboFlagEvt ≠ 0 →
      Announces flag status s attach body (-1) none
  /-- An error status with its message. -/
  | failure : status ≠ 20 → Announces flag status s attach (s.bytes ++ attach) (-1) (some s.text)

/-- `read_hs_str` reads a final chunk. -/
theorem readHsStr_finalChunk {buf : Buffer} {s : FinalChunk} {rest : List UInt8} (h : BufInv buf)
    (hbytes : bufBytes buf = s.bytes ++ rest) {fuel : Nat} (hfuel : 0 < fuel) :
    ∃ buf', readHsStr fuel buf = .ok (some (s.text, buf')) :=
  readHsStr_spec (s := ⟨[], s⟩) h hbytes rfl hfuel

/-- `decode_res` returns the type and the data announced. -/
theorem decodeRes_announced {flag status : Int8} {s : FinalChunk} {attach body : List UInt8}
    {type : Int} {data : Option (List UInt8)} (hbody : Announces flag status s attach body type data)
    (reqid : Int64) (n : Nat) {buf : Buffer} (h : BufInv buf) (hbytes : bufBytes buf = body)
    {fuel : Nat} (hfuel : 0 < fuel) :
    decodeRes fuel buf ⟨flag, status.toInt, n, reqid.toInt⟩ (initRes reqid.toInt)
      = .ok (some { startedRes flag status reqid with type := type, data := data }) := by
  rw [decodeRes_hdr]
  cases hbody with
  | value hok hevt =>
    obtain ⟨buf', hcons, hrest, hdata⟩ :=
      decodeResData_str (.inr rfl) h hbytes (startedRes flag status reqid)
    obtain ⟨buf'', hstr⟩ := readHsStr_finalChunk (hcons.inv h) hrest hfuel
    rw [if_pos hok, if_neg (not_not_intro hevt), hdata, hstr]
    rfl
  | exception hok hevt =>
    obtain ⟨buf', hcons, hrest, hdata⟩ :=
      decodeResData_str (.inl rfl) h hbytes (startedRes flag status reqid)
    obtain ⟨buf'', hstr⟩ := readHsStr_finalChunk (hcons.inv h) hrest hfuel
    rw [if_pos hok, if_neg (not_not_intro hevt), hdata, hstr]
    rfl
  | null hok hevt =>
    rw [if_pos hok, if_neg (not_not_intro hevt), decodeResData_null h hbytes]
    rfl
  | event body hok hevt =>
    rw [if_pos hok, if_pos hevt]
    rfl
  | failure hok =>
    obtain ⟨buf', hstr⟩ := readHsStr_finalChunk h hbytes hfuel
    rw [if_neg hok, hstr]
    rfl

/-- **`dubbo_decode` decodes a response** that carries what its flag and status announce, and leaves
exactly what follows the frame. -/
theorem dubbo_decode_response (reqid : Int64) (flag status : Int8) (s : FinalChunk)
    (attach body t : List UInt8) (type : Int) (data : Option (List UInt8)) (buf : Buffer)
    (hbuf : BufShape buf) (hflag : IsResponseFlag flag) (hpos : 0 < body.length)
    (hmax : body.length ≤ 4 * 1024 * 1024)
    (hbytes : bufBytes buf = dubboFrame flag status.toInt reqid.toInt body ++ t)
    (hbody : Announces flag status s attach body type data) :
    Settles (fun fuel => dubboDecode fuel buf) fun r =>
      ∃ res, r.1 = some res ∧ bufBytes r.2 = t ∧ res.reqid = reqid.toInt
        ∧ (res.ok = true ↔ status = 20) ∧ (res.isEvt = true ↔ flag &&& dubboFlagEvt ≠ 0)
        ∧ res.type = type ∧ res.data = data := by
  obtain ⟨b', buf', hinv', hbytes', -, -, hrest, hdecode⟩ :=
    dubboDecode_complete hbuf hpos hmax hflag hbytes
  refine ⟨1, (some { startedRes flag status reqid with type := type, data := data }, buf'),
    fun fuel hfuel => ?_, _, rfl, hrest, rfl, decide_eq_true_iff, decide_eq_true_iff, rfl, rfl⟩
  show dubboDecode fuel buf = _
  rw [hdecode, decodeRes_announced hbody reqid _ hinv' hbytes' hfuel, exec_ok_bind, exec_pure]

/-- The exception `é` in answer to the fifth request, with one byte of attachment, then two more
bytes. -/
theorem dubbo_decode_response_exception :
    Settles (fun fuel => dubboDecode fuel (exactBuf
        (dubboFrame 0x02 20 5 [0x90, 0x01, 0xC3, 0xA9, 0x48] ++ [0xDA, 0xBB]))) fun r =>
      ∃ res, r.1 = some res ∧ bufBytes r.2 = [0xDA, 0xBB] ∧ res.reqid = 5
        ∧ (res.ok = true ↔ (20 : Int8) = 20)
        ∧ (res.isEvt = true ↔ (0x02 : Int8) &&& dubboFlagEvt ≠ 0)
        ∧ res.type = 0 ∧ res.data = some [0xC3, 0xA9] :=
  dubbo_decode_response 5 0x02 20 ⟨.short, [⟨[0xC3, 0xA9], rfl⟩], by decide⟩ [0x48] _ _ _ _ _
    (exactBuf_shape (by decide)) (by decide) (by decide) (by decide) (by decide)
    (.exception rfl (by decide))

/-! ### Strings in a body -/

/-- The string decoder returns on `b` without leaving it: when a header is there and passes the
length check, a byte that is no lead byte is met, or the header is that of a final chunk and its
characters end inside `b`. -/
def StringReturns (b : List UInt8) : Prop :=
  ∀ hd, chunkHead b = some hd → hd.off + hd.count ≤ b.length →
    scanChars hd.count (b.drop hd.off) = .invalid
      ∨ (hd.final = true ∧ scanChars hd.count (b.drop hd.off) ≠ .outside)

section ReadHsStr

variable {buf : Buffer}

/-- While the string decoder runs on, `read_hs_str` does not return. -/
theorem readHsStr_of_running {fuel : Nat}
    (h : (hsDecodeString true (zeroExt (buf.buf.drop buf.readIdx)) (bufReadable buf) fuel).ret
      = .running) : ∃ e, readHsStr fuel buf = .error e := by
  simp only [readHsStr]
  split
  · exact ⟨_, rfl⟩
  · rw [h]
    exact ⟨_, rfl⟩

/-- A load behind the block. -/
theorem readHsStr_of_read {fuel r : Nat}
    (hr : r ∈ (hsDecodeString true (zeroExt (buf.buf.drop buf.readIdx)) (bufReadable buf)
      fuel).reads) (hle : buf.sz ≤ buf.readIdx + r) : ∃ e, readHsStr fuel buf = .error e := by
  simp only [readHsStr]
  rw [if_pos (.inl ⟨r, hr, hle⟩)]
  exact ⟨_, rfl⟩

/-- **`read_hs_str` does not return** on a string that leaves the block or has a non-final chunk. -/
theorem readHsStr_error (h : BufShape buf) (hend : buf.writeIdx = buf.sz)
    (hb : ¬ StringReturns (bufBytes buf)) (fuel : Nat) : ∃ e, readHsStr fuel buf = .error e := by
  simp only [StringReturns, not_forall, not_or, not_and, not_not] at hb
  obtain ⟨⟨final, off, n⟩, hhead, hlen, hvalid, hfinal⟩ := hb
  dsimp only at hlen hvalid hfinal
  have hmem := holds_peek buf
  have hread := h.length_bufBytes
  have hr := h.read_le_write
  have hsz : buf.sz = buf.readIdx + (bufBytes buf).length := by
    rw [hread, h.readable_eq]
    omega
  cases fuel with
  | zero => exact readHsStr_of_running rfl
  | succ fuel =>
    obtain ⟨hbehind, hbend⟩ := holds_behind_head hmem hhead
    dsimp only at hbehind hbend
    -- whether the loop of `utf8cpy` meets an invalid byte behind the block decides what happens
    cases hloop : (utf8cpyLoop (fun i => zeroExt (buf.buf.drop buf.readIdx) (off + i)) n 0).1 with
    | none =>
      have hout : scanChars n ((bufBytes buf).drop off) = .outside := by
        cases hscan : scanChars n ((bufBytes buf).drop off) with
        | done k =>
          have hmeets := utf8cpyLoop_meets_at n hbehind
          rw [hscan] at hmeets
          cases hloop.symm.trans hmeets.1
        | invalid => exact absurd hscan hvalid
        | outside => rfl
      obtain ⟨r, hmemr, hle⟩ := (copyChunk_outside hlen hbehind hout
        (decodeStart.enter ⟨final, off, n⟩)).1
      have hfst : (copyChunk (zeroExt (buf.buf.drop buf.readIdx)) (bufBytes buf).length off n
          (decodeStart.enter ⟨final, off, n⟩)).1 = false := by
        rw [copyChunk_fst hlen, hloop, Option.isSome_none]
      refine readHsStr_of_read (r := r) ?_ (by omega)
      simp only [hsDecodeString, if_true]
      rw [← hread, internalDecodeString_head hmem hhead]
      simp only [decodeChunk, hfst]
      cases final with
      | true => exact hmemr
      | false => exact hmemr
    | some j =>
      cases final with
      | false =>
        refine readHsStr_of_running ?_
        rw [← hread]
        exact running_of_loop hmem hhead hlen hloop (fuel + 1)
      | true =>
        obtain ⟨r, hmemr, hle⟩ := (copyChunk_outside hlen hbehind (hfinal rfl)
          (decodeStart.enter ⟨true, off, n⟩)).1
        refine readHsStr_of_read (r := r) ?_ (by omega)
        simp only [hsDecodeString, if_true]
        rw [← hread, internalDecodeString_head hmem hhead]
        exact hmemr

/-- Bytes that begin with no header are refused. Only the first byte is loaded, which is in the
block even if nothing is readable. -/
theorem readHsStr_no_head (h : BufShape buf) (hroom : buf.readIdx < buf.sz)
    (hhead : chunkHead (bufBytes buf) = none) (fuel : Nat) : readHsStr (fuel + 1) buf = .ok none := by
  obtain ⟨st', hret, hreads, hwrites⟩ :=
    internalDecodeString_no_head (holds_peek buf) hhead fuel decodeStart
  rw [h.length_bufBytes] at hret
  simp only [readHsStr, hsDecodeString, if_true, hret, hreads, hwrites]
  rw [if_neg]
  · rfl
  · rintro (⟨r, hr, hle⟩ | ⟨w, hw, -⟩)
    · rw [decodeStart, List.nil_append, List.mem_singleton] at hr
      omega
    · cases hw

/-- The copy of a chunk decides the result, whatever the fuel. -/
theorem readHsStr_const (h : BufShape buf) {hd : ChunkHead}
    (hhead : chunkHead (bufBytes buf) = some hd) (hb : StringReturns (bufBytes buf)) (fuel : Nat) :
    readHsStr (fuel + 1) buf = readHsStr 1 buf := by
  have hmem := holds_peek buf
  have hrun : hsDecodeString true (zeroExt (buf.buf.drop buf.readIdx)) (bufReadable buf) (fuel + 1)
      = hsDecodeString true (zeroExt (buf.buf.drop buf.readIdx)) (bufReadable buf) 1 := by
    simp only [hsDecodeString, if_true]
    rw [← h.length_bufBytes, internalDecodeString_head hmem hhead,
      internalDecodeString_head hmem hhead]
    simp only [decodeChunk]
    cases hfinal : hd.final with
    | true => rfl
    | false =>
      -- the copy of a non-final chunk fails, so the loop behind it is not entered
      have hfail : (copyChunk (zeroExt (buf.buf.drop buf.readIdx)) (bufBytes buf).length hd.off
          hd.count (decodeStart.enter hd)).1 = false := by
        by_cases hlen : hd.off + hd.count ≤ (bufBytes buf).length
        · have hinv := (hb hd hhead hlen).resolve_right fun hok => by
            rw [hfinal] at hok
            exact Bool.false_ne_true hok.1
          obtain ⟨rs, hcopy, -⟩ := copyChunk_invalid hlen (holds_behind_head hmem hhead).1 hinv
            (decodeStart.enter hd)
          rw [hcopy]
        · rw [copyChunk_short (by omega)]
      simp only [hfail]
      rfl
  simp only [readHsStr, hrun]

/-- Such a string stays in bounds. -/
theorem StringReturns.inBounds {b : List UInt8} (hb : StringReturns b) (hne : b ≠ []) :
    StringInBounds b := by
  refine ⟨hne, fun hd hhead hlen => ?_⟩
  rcases hb hd hhead hlen with hinv | ⟨hfinal, hin⟩
  · rw [hinv]
    exact ⟨Scan.noConfusion, fun _ => .inr rfl⟩
  · refine ⟨hin, fun hnot => ?_⟩
    rw [hfinal] at hnot
    cases hnot

/-- Such a string is not decoded over and over. -/
theorem StringReturns.not_loops {b : List UInt8} (hb : StringReturns b) : ¬ LoopsOnChunk b := by
  rintro ⟨hd, hhead, hfinal, hlen, hvalid⟩
  rcases hb hd hhead hlen with hinv | ⟨hfinal', -⟩
  · exact hvalid hinv
  · rw [hfinal] at hfinal'
    cases hfinal'

/-- A run that is in bounds and ends lets `read_hs_str` return. -/
theorem readHsStr_ok (h : BufInv buf) (hne : bufBytes buf ≠ []) (hb : StringReturns (bufBytes buf)) :
    ∃ fuel r, readHsStr (fuel + 1) buf = .ok r := by
  have hmem := holds_peek buf
  have hread := h.toBufWf.length_bufBytes
  obtain ⟨N, hterm⟩ := terminates_of_not_loops hb.not_loops _ hmem
  obtain ⟨hreads, hwrites, hret⟩ := decodesInBounds_of_string (hb.inBounds hne) true _ (N + 1) hmem
  have hterm := hterm (N + 1) (Nat.le_succ N)
  rw [hread] at hreads hwrites hret hterm
  have hidx := h.toBufWf.readable_eq
  have hr := h.read_le_write
  have hw := h.write_le_sz
  have hin : ¬ ((∃ r ∈ (hsDecodeString true (zeroExt (buf.buf.drop buf.readIdx)) (bufReadable buf)
        (N + 1)).reads, buf.sz ≤ buf.readIdx + r)
      ∨ ∃ w ∈ (hsDecodeString true (zeroExt (buf.buf.drop buf.readIdx)) (bufReadable buf)
        (N + 1)).writes, bufReadable buf ≤ w) := by
    rintro (⟨r, hmemr, hle⟩ | ⟨w, hmemw, hle⟩)
    · have := hreads r hmemr
      omega
    · have := hwrites w hmemw
      omega
  refine ⟨N, ?_⟩
  simp only [readHsStr]
  rw [if_neg hin]
  cases hcase : (hsDecodeString true (zeroExt (buf.buf.drop buf.readIdx)) (bufReadable buf)
      (N + 1)).ret with
  | running => exact absurd hcase hterm
  | retFalse => exact ⟨none, rfl⟩
  | retTrue out outSz =>
    obtain ⟨b', hretr⟩ := (hret out outSz hcase).2 buf h rfl
    refine ⟨some (out, b'), ?_⟩
    simp only [hretr, exec_ok_bind, exec_pure]

/-- **`read_hs_str` returns** on any other string. -/
theorem readHsStr_settles (h : BufInv buf) (hroom : buf.readIdx < buf.sz)
    (hb : StringReturns (bufBytes buf)) :
    Settles (fun fuel => readHsStr fuel buf) fun _ => True := by
  cases hhead : chunkHead (bufBytes buf) with
  | none =>
    refine ⟨1, none, fun fuel hfuel => ?_, trivial⟩
    obtain ⟨fuel, rfl⟩ := Nat.exists_eq_add_of_le' hfuel
    exact readHsStr_no_head h.shape hroom hhead fuel
  | some hd =>
    have hne : bufBytes buf ≠ [] := by
      intro hnil
      rw [hnil] at hhead
      cases hhead
    obtain ⟨N, r, hr⟩ := readHsStr_ok h hne hb
    refine ⟨1, r, fun fuel hfuel => ?_, trivial⟩
    obtain ⟨fuel, rfl⟩ := Nat.exists_eq_add_of_le' hfuel
    show readHsStr (fuel + 1) buf = .ok r
    rw [readHsStr_const h.shape hhead hb fuel, ← readHsStr_const h.shape hhead hb N, hr]

end ReadHsStr

/-! ### Bodies in a stream -/

/-- `decode_res` returns on the body: it decodes no string, or one on which the string decoder
returns. -/
def BodyReturns (flag status : Int8) (body : List UInt8) : Prop :=
  if status = 20 then
    flag &&& dubboFlagEvt = 0 → ∀ c rest, body = c :: rest → c = 0x90 ∨ c = 0x91 → StringReturns rest
  else StringReturns body

section Bodies

variable {buf : Buffer}

/-- What follows the first byte of a body that fills its block. -/
theorem Consumed.behind {buf' : Buffer} (hcons : Consumed 1 buf buf') (h : BufInv buf)
    (hend : buf.writeIdx = buf.sz) (hne : bufBytes buf ≠ []) :
    buf'.readIdx < buf'.sz ∧ (bufBytes buf' ≠ [] → buf'.writeIdx = buf'.sz) := by
  have hlen := h.toBufWf.length_bufBytes
  have hlen' := hcons.shape.length_bufBytes
  have hpos := List.length_pos_iff.mpr hne
  have hread := h.toBufWf.readable_eq
  have hread' := hcons.shape.readable_eq
  have hw := hcons.shape.write_le_sz
  have hp := h.pSz_le_read
  have hsz := hcons.sz
  have hpsz := hcons.pSz
  refine ⟨?_, fun hne' => by rw [hcons.write hne', hend, hsz]⟩
  by_cases hnil : bufBytes buf' = []
  · have hidle := hcons.idle hnil
    omega
  · have hpos' := List.length_pos_iff.mpr hnil
    omega

/-- A string behind the first byte decides whether `decode_res_data` returns. -/
theorem decodeResData_str_iff {kind : Nat} (hkind : kind = 0 ∨ kind = 1) {rest : List UInt8}
    (h : BufInv buf) (hend : buf.writeIdx = buf.sz)
    (hbytes : bufBytes buf = UInt8.ofNat (0x90 + kind) :: rest) (res : DubboRes) :
    Settles (fun fuel => decodeResData fuel buf res) (fun _ => True) ↔ StringReturns rest := by
  have hne : bufBytes buf ≠ [] := by
    rw [hbytes]
    exact List.cons_ne_nil _ _
  obtain ⟨buf', hcons, hrest, hdata⟩ := decodeResData_str hkind h hbytes res
  obtain ⟨hroom, hlast⟩ := hcons.behind h hend hne
  simp only [hdata]
  constructor
  · intro hset
    by_contra hstr
    refine not_settles_of_error (fun fuel => ?_) hset
    have hne' : bufBytes buf' ≠ [] := by
      intro hnil
      refine hstr fun hd hhead => ?_
      rw [← hrest, hnil] at hhead
      cases hhead
    rw [← hrest] at hstr
    obtain ⟨e, herr⟩ := readHsStr_error hcons.shape (hlast hne') hstr fuel
    exact ⟨e, by rw [herr]; rfl⟩
  · intro hstr
    rw [← hrest] at hstr
    refine (readHsStr_settles (hcons.inv h) hroom hstr).bind fun r _ => ?_
    cases r with
    | none => exact (returns_ok trivial).settles
    | some r => exact (returns_ok trivial).settles

/-- Behind any other first byte no string is decoded. -/
theorem decodeResData_other {c : UInt8} {rest : List UInt8} (h : BufInv buf)
    (hbytes : bufBytes buf = c :: rest) (hc : ¬ (c = 0x90 ∨ c = 0x91)) (res : DubboRes) :
    Settles (fun fuel => decodeResData fuel buf res) fun _ => True := by
  obtain ⟨x, buf', hread, hx, -, -⟩ := bufReadInt8_cons h hbytes
  have hlt := c.toNat_lt
  have h90 : c.toNat ≠ 0x90 := fun heq => hc (.inl (UInt8.toNat_inj.mp heq))
  have h91 : c.toNat ≠ 0x91 := fun heq => hc (.inr (UInt8.toNat_inj.mp heq))
  have hret : ∃ r, ∀ fuel, decodeResData fuel buf res = .ok r := by
    simp only [decodeResData, hread, exec_ok_bind, hx]
    split_ifs with hrange
    · exact ⟨none, fun _ => rfl⟩
    · have htype : toUnsigned 8 ((c.toNat : Int) - 0x90) ≠ 0
          ∧ toUnsigned 8 ((c.toNat : Int) - 0x90) ≠ 1 := by
        unfold toUnsigned
        omega
      generalize toUnsigned 8 ((c.toNat : Int) - 0x90) = k at htype
      obtain ⟨hzero, hone⟩ := htype
      rcases k with - | - | - | k
      · exact absurd rfl hzero
      · exact absurd rfl hone
      · exact ⟨_, fun _ => rfl⟩
      · exact ⟨none, fun _ => rfl⟩
  obtain ⟨r, hr⟩ := hret
  exact ⟨0, r, fun fuel _ => hr fuel, trivial⟩

/-- **`decode_res` returns** exactly on such bodies, whatever the header says besides. -/
theorem decodeRes_settles_iff (flag status : Int8) (reqid : Int64) (n : Nat) (h : BufInv buf)
    (hend : buf.writeIdx = buf.sz) (hne : bufBytes buf ≠ []) :
    Settles (fun fuel => decodeRes fuel buf ⟨flag, status.toInt, n, reqid.toInt⟩
        (initRes reqid.toInt)) (fun _ => True) ↔ BodyReturns flag status (bufBytes buf) := by
  simp only [decodeRes_hdr, BodyReturns]
  by_cases hok : status = 20
  · simp only [if_pos hok]
    by_cases hevt : flag &&& dubboFlagEvt = 0
    · simp only [if_neg (not_not_intro hevt)]
      rw [forall_prop_of_true hevt]
      obtain ⟨c, rest, hbytes⟩ := List.exists_cons_of_ne_nil hne
      rw [hbytes]
      by_cases hc : c = 0x90 ∨ c = 0x91
      · have hstr : Settles (fun fuel => decodeResData fuel buf (startedRes flag status reqid))
            (fun _ => True) ↔ StringReturns rest := by
          rcases hc with rfl | rfl
          · exact decodeResData_str_iff (.inl rfl) h hend hbytes _
          · exact decodeResData_str_iff (.inr rfl) h hend hbytes _
        rw [hstr]
        constructor
        · rintro hret c' rest' heq -
          cases heq
          exact hret
        · intro hret
          exact hret c rest rfl hc
      · refine iff_of_true (decodeResData_other h hbytes hc _) ?_
        rintro c' rest' heq hc'
        cases heq
        exact absurd hc' hc
    · simp only [if_pos hevt]
      exact iff_of_true (returns_ok trivial).settles fun h => absurd h hevt
  · simp only [if_neg hok]
    constructor
    · intro hset
      by_contra hstr
      refine not_settles_of_error (fun fuel => ?_) hset
      obtain ⟨e, herr⟩ := readHsStr_error h.shape hend hstr fuel
      exact ⟨e, by rw [herr]; rfl⟩
    · intro hstr
      have hlen := h.toBufWf.length_bufBytes
      have hread := h.toBufWf.readable_eq
      have hpos := List.length_pos_iff.mpr hne
      refine (readHsStr_settles h (by omega) hstr).bind fun r _ => ?_
      cases r with
      | none => exact (returns_ok trivial).settles
      | some r => exact (returns_ok trivial).settles

end Bodies

/-- **`dubbo_decode` keeps the stream aligned**, on a buffer that begins with a complete frame,
exactly when the flag is that of a response and `decode_res` returns on the body. -/
theorem dubbo_decode_aligned_iff (flag status : Int8) (reqid : Int64) (body t : List UInt8)
    (buf : Buffer) (hbuf : BufShape buf) (hpos : 0 < body.length)
    (hmax : body.length ≤ 4 * 1024 * 1024)
    (hbytes : bufBytes buf = dubboFrame flag status.toInt reqid.toInt body ++ t) :
    Settles (fun fuel => dubboDecode fuel buf) (fun r =>
        bufBytes r.2 = (bufBytes buf).drop (16 + body.length) ∨ bufBytes r.2 = bufBytes buf) ↔
      IsResponseFlag flag ∧ BodyReturns flag status body := by
  by_cases hflag : IsResponseFlag flag
  · obtain ⟨b', buf', hinv', hbytes', hend, hcons, -, hdecode⟩ :=
      dubboDecode_complete hbuf hpos hmax hflag hbytes
    have hne : bufBytes b' ≠ [] := by
      rw [hbytes']
      exact List.ne_nil_of_length_pos hpos
    have hres := decodeRes_settles_iff flag status reqid body.length hinv' hend hne
    rw [hbytes'] at hres
    rw [and_iff_right hflag, ← hres]
    constructor
    · rintro ⟨N, r, hr, -⟩
      refine ⟨N, r.1, fun fuel hfuel => ?_, trivial⟩
      have hok : dubboDecode fuel buf = .ok r := hr fuel hfuel
      rw [hdecode] at hok
      obtain ⟨res, hdec, hret⟩ := exec_bind_eq_ok.mp hok
      cases hret
      exact hdec
    · intro hset
      simp only [hdecode]
      exact hset.bind fun res _ => (returns_ok (.inl hcons.bytes)).settles
  · -- the header is gone and the body still there
    rw [dubboFrame, List.append_assoc] at hbytes
    obtain ⟨buf', -, hrest, hdecode⟩ := dubboDecode_rejected hbuf hmax hflag hbytes
    refine iff_of_false (fun hset => ?_) fun hand => hflag hand.1
    simp only [hdecode] at hset
    have hor := settles_ok_iff.mp hset
    dsimp only at hor
    rw [hrest, hbytes] at hor
    rcases hor with heq | heq
    · have hlen := congrArg List.length heq
      simp only [List.length_drop, List.length_append, length_dubboHdrBytes] at hlen
      omega
    · have hlen := congrArg List.length heq
      simp only [List.length_append, length_dubboHdrBytes] at hlen
      omega

/-- A response without a value, and the header of the next frame. -/
theorem dubbo_decode_aligned_null :
    Settles (fun fuel => dubboDecode fuel (exactBuf (dubboFrame 0x02 20 5 [0x92] ++ [0xDA, 0xBB])))
      (fun r => bufBytes r.2 = (bufBytes (exactBuf (dubboFrame 0x02 20 5 [0x92] ++ [0xDA, 0xBB]))).drop
          (16 + [(0x92 : UInt8)].length)
        ∨ bufBytes r.2 = bufBytes (exactBuf (dubboFrame 0x02 20 5 [0x92] ++ [0xDA, 0xBB]))) := by
  refine (dubbo_decode_aligned_iff 0x02 20 5 [0x92] [0xDA, 0xBB] _ (exactBuf_shape (by decide))
    (by decide) (by decide) (by decide)).mpr ⟨by decide, ?_⟩
  rintro - c rest heq hc
  cases heq
  exact absurd hc (by decide)

/-- A frame with the serialization id 3 loses its header and keeps its body. -/
theorem dubbo_decode_misaligned :
    ¬ Settles (fun fuel => dubboDecode fuel (exactBuf (dubboFrame 0x03 20 5 [0x92])))
      (fun r => bufBytes r.2 = (bufBytes (exactBuf (dubboFrame 0x03 20 5 [0x92]))).drop
          (16 + [(0x92 : UInt8)].length)
        ∨ bufBytes r.2 = bufBytes (exactBuf (dubboFrame 0x03 20 5 [0x92])))
      ∧ ∃ buf', (∀ fuel, dubboDecode fuel (exactBuf (dubboFrame 0x03 20 5 [0x92])) = .ok (none, buf'))
        ∧ bufBytes buf' = [0x92] := by
  have hbytes : bufBytes (exactBuf (dubboFrame 0x03 20 5 [0x92]))
      = dubboHdrBytes 0x03 (20 : Int8).toInt (5 : Int64).toInt 1 ++ [0x92] := by decide
  obtain ⟨buf', -, hrest, hdecode⟩ :=
    dubboDecode_rejected (exactBuf_shape (by decide)) (by decide) (by decide) hbytes
  refine ⟨fun hset => ?_, buf', hdecode, hrest⟩
  simp only [hdecode] at hset
  have hor := settles_ok_iff.mp hset
  dsimp only at hor
  rw [hrest] at hor
  exact absurd hor (by decide)

end Wee
