import Wee.Dubbo.ClientSend
import Wee.Dubbo.CodecResponse

/-! # The receiving side of the client

`cli_on_read` appends what `readv` returns to the receive buffer. A complete frame at the front of
it is decoded; then the client ends, or sends the next request. Only one frame is decoded. When the
buffer ends inside the header, or the header of the frame is there and its body is not, the client
reconnects or aborts. -/

namespace Wee

/-- The client is connected and waits for responses. -/
structure Ready (s : CliState) : Prop extends Up s where
  /-- The receive buffer is well formed. -/
  rcv : BufInv s.rcvBuf
  /-- `cli_on_read` is registered. -/
  registered : s.readable s.fd = true
  /-- No timer is set. -/
  quiet : s.timer = false
  /-- The pipe is full. -/
  pipe : s.pipeLeft = 0

/-! ### Reading -/

section Read

variable {args : CliArgs} {s : CliState} {chunk t : List UInt8} {f : ResFrame}

/-- `cli_on_read` appends the chunk to the receive buffer and looks at it. -/
theorem cliOnRead_eq (args : CliArgs) (h : Ready s) (hne : chunk ≠ [])
    (hroom : chunk.length ≤ bufReadvRoom s.rcvBuf) (hsz : s.rcvBuf.sz + chunk.length < 2 ^ 64) :
    ∃ b, BufInv b ∧ bufBytes b = bufBytes s.rcvBuf ++ chunk ∧ b.sz ≤ s.rcvBuf.sz + chunk.length
      ∧ ∀ fuel, cliOnRead args fuel [.got chunk] s = cliReceived args fuel { s with rcvBuf := b } := by
  have hw := h.rcv.write_le_sz
  obtain ⟨⟨n, errno, b⟩, hread, hn, -, hinv, hbytes, hgrow⟩ :=
    h.rcv.readFd_spec 0 hroom (by omega)
  obtain rfl : n = chunk.length := hn
  have hpos : 0 < (chunk.length : Int) := Int.natCast_pos.mpr (List.length_pos_iff.mpr hne)
  refine ⟨b, hinv, hbytes, hgrow, fun fuel => ?_⟩
  -- a chunk that is not empty ends the loop at once
  rw [cliOnRead, cassert_bind_of h.connected, cliReadLoop, hread, exec_ok_bind]
  simp only [if_neg (not_lt_of_gt hpos), if_neg (ne_of_gt hpos), exec_pure, exec_ok_bind, if_true]

/-- The client with one more response decoded, which leaves `b` in the receive buffer. -/
def CliState.received (s : CliState) (b : Buffer) (res : DubboRes) : CliState :=
  { s with
    rcvBuf := b, pipeLeft := s.pipeLeft + 1, reqLeft := s.reqLeft - 1, okN := s.okN + 1,
    decoded := s.decoded ++ [res] }

/-- A complete frame at the front of the receive buffer is decoded; then the client ends or fills
the pipe again. -/
theorem cliReceived_frame (args : CliArgs) (hinv : BufInv s.rcvBuf) (hf : f.SingleChunk)
    (hbytes : bufBytes s.rcvBuf = f.bytes ++ t) {P : CliState → Prop}
    (hrest : ∀ b, BufInv b → bufBytes b = t → b.sz = s.rcvBuf.sz →
      Settles (fun fuel => if s.reqLeft - 1 ≤ 0 then cliEnd (s.received b f.res)
        else cliPipeSend args fuel (s.received b f.res)) P) :
    Settles (fun fuel => cliReceived args fuel s) P := by
  have hhdr : bufBytes s.rcvBuf = dubboHdrBytes f.flag f.body.status.toInt f.reqid.toInt
      f.body.bytes.length ++ (f.body.bytes ++ t) := by
    rw [hbytes, ResFrame.bytes, dubboFrame, List.append_assoc]
  simp only [cliReceived, cliReceivedPkt, cliDecodeResp, isDubboPkt_of_hdr hinv.shape hhdr,
    isCompletedDubboPkt_of_hdr hinv.shape hhdr f.pos f.le_max, exec_ok_bind, if_true, bind_assoc]
  refine (dubboDecode_frame hf hinv hbytes).bind fun r hr => ?_
  obtain ⟨res, b⟩ := r
  obtain ⟨rfl, hinv', ht, hsz⟩ := hr
  exact hrest b hinv' ht hsz

/-- `cli_end` closes the connection and stops the event loop. -/
theorem Up.cliEnd_spec (h : Up s) (hrcv : BufInv s.rcvBuf) :
    Returns (cliEnd s) fun s' => s'.stopped = true ∧ bufBytes s'.rcvBuf = []
      ∧ s'.decoded = s.decoded ∧ s'.reconnects = s.reconnects := by
  have hfd : ¬ s.fd < 0 := not_lt_of_ge h.fd_nonneg
  rw [cliEnd, if_pos h.run, cliClose, aeDeleteReadWritable, if_neg hfd]
  exact returns_ok ⟨rfl, (bufRetrieveAll_spec hrcv.toBufWf).2, rfl, rfl⟩

/-- The connection stays up while a response is decoded. -/
theorem Up.received (h : Up s) (b : Buffer) (res : DubboRes) : Up (s.received b res) := { h with }

/-- **The last response**: it is decoded, and the client ends. -/
theorem cliReceived_last (args : CliArgs) (h : Ready s) (hlast : s.reqLeft = 1) (hf : f.SingleChunk)
    (hbytes : bufBytes s.rcvBuf = f.bytes ++ t) :
    Settles (fun fuel => cliReceived args fuel s) fun s' =>
      s'.stopped = true ∧ bufBytes s'.rcvBuf = [] ∧ s'.decoded = s.decoded ++ [f.res]
        ∧ s'.reconnects = s.reconnects := by
  refine cliReceived_frame args h.rcv hf hbytes fun b hinv _ _ => ?_
  have hzero : s.reqLeft - 1 ≤ 0 := by omega
  simp only [if_pos hzero]
  exact ((h.toUp.received b f.res).cliEnd_spec hinv).settles

/-- **A response that is not the last**: it is decoded, and one more request is sent. -/
theorem cliReceived_more (hargs : RequestEncodes args) (h : Ready s) (hmore : 1 < s.reqLeft)
    (hf : f.SingleChunk) (hbytes : bufBytes s.rcvBuf = f.bytes ++ t)
    (hroom : s.sndBuf.sz + maxReqFrame < 2 ^ 64) :
    Settles (fun fuel => cliReceived args fuel s) fun s' =>
      Ready s' ∧ bufBytes s'.rcvBuf = t ∧ s'.rcvBuf.sz = s.rcvBuf.sz
        ∧ s'.sndBuf.sz ≤ s.sndBuf.sz + maxReqFrame ∧ s'.reqLeft = s.reqLeft - 1
        ∧ s'.decoded = s.decoded ++ [f.res] ∧ s'.reconnects = s.reconnects := by
  refine cliReceived_frame args h.rcv hf hbytes fun b hinv ht hsz => ?_
  have hpos : ¬ s.reqLeft - 1 ≤ 0 := by omega
  have hone : (s.received b f.res).pipeLeft = (1 : Nat) := by
    show s.pipeLeft + 1 = 1
    rw [h.pipe, zero_add]
  simp only [if_neg hpos]
  -- the pipe was full, so there is room for one request
  refine (cliPipeSend_spec hargs 1 (h.toUp.received b f.res) hone ?_).imp fun s' hs' => ?_
  · rw [Nat.one_mul]
    exact hroom
  · obtain ⟨hsent, hpipe⟩ := hs'
    rw [Nat.one_mul] at hsent
    have hrcv : s'.rcvBuf = b := hsent.rcvBuf
    refine ⟨{ hsent.up with
        rcv := hrcv ▸ hinv, registered := hsent.registered h.registered, quiet := hsent.quiet h.quiet,
        pipe := hpipe },
      hrcv ▸ ht, hrcv ▸ hsz, hsent.sz_le, hsent.reqLeft, hsent.decoded, hsent.reconnects⟩

/-! ### What is no complete frame -/

/-- Decoding a response is no reconnect. -/
theorem reconnects_decodeResp {fuel : Nat} {ok : Bool} {s' : CliState}
    (h : cliDecodeResp fuel s = .ok (ok, s')) : s'.reconnects = s.reconnects := by
  obtain ⟨b, ⟨-, rfl⟩ | ⟨-, res, rfl⟩⟩ := cliDecodeResp_ok h
  · rfl
  · rfl

/-- Ending is no reconnect. -/
theorem reconnects_end {s' : CliState} (h : cliEnd s = .ok s') : s'.reconnects = s.reconnects := by
  rcases cliEnd_ok h with ⟨-, rfl⟩ | ⟨s₁, hclose, rfl⟩
  · rfl
  · have hs₁ := reconnects_close hclose
    exact hs₁

/-- Behind the test of `is_dubbo_pkt` no reconnect is forgotten. -/
theorem reconnects_receivedPkt {fuel : Nat} {s' : CliState}
    (h : cliReceivedPkt args fuel s = .ok s') : s.reconnects ≤ s'.reconnects := by
  have hkept := reconnectsKept args fuel
  obtain ⟨remaining, -, h⟩ := exec_bind_eq_ok.mp h
  cases remaining with
  | none =>
    cases h
    exact le_refl _
  | some remaining =>
    obtain ⟨⟨ok, s₁⟩, hdecode, h⟩ := exec_bind_eq_ok.mp h
    have hs₁ := reconnects_decodeResp hdecode
    dsimp only at h hs₁
    rw [← hs₁]
    split_ifs at h
    · exact le_of_eq (reconnects_end h).symm
    · exact hkept.pipeSend h
    · exact le_of_lt (hkept.reconnect h)

/-- `cli_on_read` behind its loop forgets no reconnect. -/
theorem reconnects_received {fuel : Nat} {s' : CliState} (h : cliReceived args fuel s = .ok s') :
    s.reconnects ≤ s'.reconnects := by
  have hkept := reconnectsKept args fuel
  obtain ⟨pkt, -, h⟩ := exec_bind_eq_ok.mp h
  split_ifs at h
  · exact reconnects_receivedPkt h
  · obtain ⟨s₁, hre, h⟩ := exec_bind_eq_ok.mp h
    exact le_trans (le_of_lt (hkept.reconnect hre)) (reconnects_receivedPkt h)

/-- The loop of `cli_on_read` forgets no reconnect. -/
theorem reconnects_readLoop {fuel : Nat} {rs : List ReadvRes} {go : Bool} {s' : CliState}
    (h : cliReadLoop args fuel rs s = .ok (go, s')) : s.reconnects ≤ s'.reconnects := by
  cases cliReadLoop_ok h with
  | go rcvBuf => exact le_refl _
  | lost rcvBuf hre =>
    have hlt := (reconnectsKept args fuel).reconnect hre
    exact le_of_lt hlt

/-- `cli_on_read` forgets no reconnect. -/
theorem reconnects_onRead {fuel : Nat} {rs : List ReadvRes} {s' : CliState}
    (h : cliOnRead args fuel rs s = .ok s') : s.reconnects ≤ s'.reconnects := by
  obtain ⟨-, -, h⟩ := exec_bind_eq_ok.mp h
  obtain ⟨⟨go, s₁⟩, hloop, h⟩ := exec_bind_eq_ok.mp h
  have hle := reconnects_readLoop hloop
  dsimp only at h
  split_ifs at h
  · exact le_trans hle (reconnects_received h)
  · cases h
    exact hle

/-- No event undoes a reconnect. -/
theorem reconnects_handle {fuel : Nat} {s' : CliState} {e : AeEvent} {u : Unit}
    (hok : cliHandle args fuel s e = .ok (u, s')) : s.reconnects ≤ s'.reconnects := by
  rcases cliHandle_ok hok with rfl | ⟨-, -, hhandler⟩
  · exact le_refl _
  · cases e with
    | read fd rs => exact reconnects_onRead hhandler
    | write fd => exact reconnects_onWrite hhandler
    | connect fd writable => exact reconnects_onConnect hhandler
    | timeout => exact le_of_lt ((reconnectsKept args fuel).reconnect hhandler)

end Read

end Wee
