import Wee.Dubbo.ClientCalls
import Wee.Dubbo.CodecRequest

/-! # The sending side of the client

On a connection that is up, and with a system that does not fail the calls made on it, `cli_write`,
`cli_send_req` and `cli_pipe_send` return, whatever `write` accepts and however often it is
interrupted or would block; they do not touch the receiving side. The number of reconnects never
decreases. -/

namespace Wee

/-! ### Reconnects are counted -/

section Reconnects

variable {args : CliArgs} {s s' : CliState} {fd : Int} {ok : Bool}

/-- Closing is no reconnect. -/
theorem reconnects_close (h : cliClose s = .ok s') : s'.reconnects = s.reconnects := by
  rw [cliClose_ok h]
  rfl

/-- Writing is no reconnect. -/
theorem CliWrites.reconnects (h : CliWrites s s') : s'.reconnects = s.reconnects := by
  obtain ⟨sndBuf, net, written, writable, rfl, -⟩ := h
  rfl

/-- With `fuel`, no function that may call `cli_reconnect` forgets a reconnect, and `cli_reconnect`
adds one. -/
structure ReconnectsKept (args : CliArgs) (fuel : Nat) : Prop where
  /-- `cli_connected`. -/
  connected : ∀ {s ok s'}, cliConnected args fuel s = .ok (ok, s') → s.reconnects ≤ s'.reconnects
  /-- `cli_connect`. -/
  connect : ∀ {s ok s'}, cliConnect args fuel s = .ok (ok, s') → s.reconnects ≤ s'.reconnects
  /-- `cli_reconnect`. -/
  reconnect : ∀ {s s'}, cliReconnect args fuel s = .ok s' → s.reconnects < s'.reconnects
  /-- `cli_send_req`. -/
  sendReq : ∀ {s s'}, cliSendReq args fuel s = .ok s' → s.reconnects ≤ s'.reconnects
  /-- `cli_pipe_send`. -/
  pipeSend : ∀ {s s'}, cliPipeSend args fuel s = .ok s' → s.reconnects ≤ s'.reconnects

/-- `cli_connected`, by what it calls. -/
theorem ReconnectsKept.connected_succ {fuel : Nat} (h : ReconnectsKept args fuel)
    (hok : cliConnected args (fuel + 1) s = .ok (ok, s')) : s.reconnects ≤ s'.reconnects := by
  obtain ⟨s₁, hadd, hrest⟩ := cliConnected_ok hok
  obtain ⟨net, readable, rfl, -⟩ := aeCreateReadable_ok hadd
  rcases hrest with ⟨-, hpipe⟩ | ⟨-, rfl⟩
  · have hle := h.pipeSend hpipe
    exact hle
  · exact le_refl _

/-- `cli_connect`, by what it calls. -/
theorem ReconnectsKept.connect_succ {fuel : Nat} (h : ReconnectsKept args fuel)
    (hok : cliConnect args (fuel + 1) s = .ok (ok, s')) : s.reconnects ≤ s'.reconnects := by
  rcases cliConnect_ok hok with ⟨net, rfl⟩ | ⟨-, -, hconn⟩ | ⟨net, writable, timer, rfl, -⟩
  · exact le_refl _
  · have hle := h.connected hconn
    exact hle
  · exact le_refl _

/-- `cli_reconnect`, by what it calls. -/
theorem ReconnectsKept.reconnect_succ {fuel : Nat} (h : ReconnectsKept args fuel)
    (hok : cliReconnect args (fuel + 1) s = .ok s') : s.reconnects < s'.reconnects := by
  obtain ⟨s₁, ok, hclose, hconn⟩ := cliReconnect_ok hok
  have hs₁ : s₁.reconnects = s.reconnects + 1 := reconnects_close hclose
  have hle := h.connect hconn
  omega

/-- `cli_send_req`, by what it calls. -/
theorem ReconnectsKept.sendReq_succ {fuel : Nat} (h : ReconnectsKept args fuel)
    (hok : cliSendReq args (fuel + 1) s = .ok s') : s.reconnects ≤ s'.reconnects := by
  obtain ⟨frame, sndBuf, ok, s₁, -, -, hwrite, hrest⟩ := cliSendReq_ok hok
  have hs₁ : s₁.reconnects = s.reconnects := (cliWrite_ok hwrite).reconnects
  rcases hrest with ⟨-, rfl⟩ | ⟨-, hre⟩
  · exact le_of_eq hs₁.symm
  · rw [← hs₁]
    exact le_of_lt (h.reconnect hre)

/-- `cli_pipe_send`, by what it calls. -/
theorem ReconnectsKept.pipeSend_succ {fuel : Nat} (h : ReconnectsKept args fuel)
    (hok : cliPipeSend args (fuel + 1) s = .ok s') : s.reconnects ≤ s'.reconnects := by
  rcases cliPipeSend_ok hok with ⟨-, rfl⟩ | ⟨-, s₁, hsend, hrest⟩
  · exact le_refl _
  · have hle := h.sendReq hsend
    exact le_trans hle (h.pipeSend hrest)

/-- **The number of reconnects never decreases** in the functions that call each other. -/
theorem reconnectsKept (args : CliArgs) (fuel : Nat) : ReconnectsKept args fuel := by
  induction fuel with
  | zero =>
    constructor
    all_goals
      intros
      rename_i h
      cases h
  | succ fuel ih =>
    exact ⟨ih.connected_succ, ih.connect_succ, ih.reconnect_succ, ih.sendReq_succ, ih.pipeSend_succ⟩

/-- `cli_on_connect` forgets no reconnect. -/
theorem reconnects_onConnect {fuel : Nat} {writable : Bool}
    (h : cliOnConnect args fuel fd writable s = .ok s') : s.reconnects ≤ s'.reconnects := by
  rw [cliOnConnect] at h
  split_ifs at h
  · obtain ⟨s₁, hdel, h⟩ := exec_bind_eq_ok.mp h
    obtain ⟨⟨ok, s₂⟩, hconn, hret⟩ := exec_bind_eq_ok.mp h
    have hle := (reconnectsKept args fuel).connected hconn
    cases hret
    rw [aeDeleteWritable_ok hdel] at hle
    exact hle
  · exact le_of_lt ((reconnectsKept args fuel).reconnect h)

/-- `cli_on_write` forgets no reconnect. -/
theorem reconnects_onWrite {fuel : Nat} (h : cliOnWrite args fuel s = .ok s') :
    s.reconnects ≤ s'.reconnects := by
  obtain ⟨-, -, h⟩ := exec_bind_eq_ok.mp h
  obtain ⟨⟨ok, s₁⟩, hwrite, h⟩ := exec_bind_eq_ok.mp h
  rw [← (cliWrite_ok hwrite).reconnects]
  dsimp only at h
  split_ifs at h
  · cases h
    exact le_refl _
  · exact le_of_lt ((reconnectsKept args fuel).reconnect h)

end Reconnects

/-! ### A connection that is up -/

/-- A call of `write` that a signal interrupted. -/
def Interrupted (r : SysRes) : Prop := r.ret ≤ 0 ∧ r.errno = eintr

/-- The system does not fail a call on the connection: events can be registered, `write` accepts
bytes, is interrupted or would block, and it is not interrupted for ever. -/
structure Flowing (net : Net) : Prop where
  /-- Registering an event succeeds. -/
  adds : ∀ n, net.adds n = true
  /-- `write` fails with `EINTR` or `EAGAIN` only. -/
  writes : ∀ n, 0 < (net.writes n).ret ∨ (net.writes n).errno = eintr
    ∨ (net.writes n).errno = eagain
  /-- Some later call of `write` is not interrupted. -/
  progress : ∀ n, ∃ m, ¬ Interrupted (net.writes (n + m))

/-- Behind a call of `write` the rest of the calls is as before. -/
theorem Flowing.nextWrite {s : CliState} (h : Flowing s.net) : Flowing s.nextWrite.net where
  adds := h.adds
  writes n := h.writes (n + 1)
  progress n := by
    obtain ⟨m, hm⟩ := h.progress (n + 1)
    exact ⟨m, by rwa [Nat.add_right_comm] at hm⟩

/-- Behind a registration the rest of the calls is as before. -/
theorem Flowing.nextAdd {s : CliState} (h : Flowing s.net) : Flowing s.nextAdd.net where
  adds n := h.adds (n + 1)
  writes := h.writes
  progress := h.progress

/-- The connection is up. -/
structure Up (s : CliState) : Prop where
  /-- The client knows that it is connected. -/
  connected : s.connected = true
  /-- It has been started. -/
  run : s.run = true
  /-- The event loop has not been stopped. -/
  live : s.stopped = false
  /-- The descriptor is a descriptor. -/
  fd_nonneg : 0 ≤ s.fd
  /-- The event loop has room for it. -/
  fd_lt : s.fd < aeSetSize
  /-- `cli_on_connect` is not registered any more. -/
  settled : s.writable s.fd ≠ some .onConnect
  /-- The send buffer is well formed. -/
  inv : BufInv s.sndBuf
  /-- The system does not fail. -/
  flowing : Flowing s.net

/-- `s'` comes from `s` by sending: the connection is up, the receiving side is as it was, and the
send buffer has grown by at most `k` bytes. -/
structure Sent (k : Nat) (s s' : CliState) : Prop where
  /-- The connection is up. -/
  up : Up s'
  /-- The receive buffer. -/
  rcvBuf : s'.rcvBuf = s.rcvBuf
  /-- The number of responses awaited. -/
  reqLeft : s'.reqLeft = s.reqLeft
  /-- The responses decoded. -/
  decoded : s'.decoded = s.decoded
  /-- The number of reconnects. -/
  reconnects : s'.reconnects = s.reconnects
  /-- The size of the send buffer. -/
  sz_le : s'.sndBuf.sz ≤ s.sndBuf.sz + k
  /-- `cli_on_read` stays registered. -/
  registered : s.readable s.fd = true → s'.readable s'.fd = true
  /-- No timer is set. -/
  quiet : s.timer = false → s'.timer = false

/-- Sending, then sending. -/
theorem Sent.trans {k l : Nat} {s s' s'' : CliState} (h : Sent k s s') (h' : Sent l s' s'') :
    Sent (k + l) s s'' where
  up := h'.up
  rcvBuf := h'.rcvBuf.trans h.rcvBuf
  reqLeft := h'.reqLeft.trans h.reqLeft
  decoded := h'.decoded.trans h.decoded
  reconnects := h'.reconnects.trans h.reconnects
  sz_le := by
    have h₁ := h.sz_le
    have h₂ := h'.sz_le
    omega
  registered := h'.registered ∘ h.registered
  quiet := h'.quiet ∘ h.quiet

/-- Behind a call of `write` the connection is still up. -/
theorem Up.nextWrite {s : CliState} (h : Up s) : Up s.nextWrite :=
  { h with flowing := h.flowing.nextWrite }

/-- Registering `cli_on_read`. -/
theorem Up.createReadable {s : CliState} (h : Up s) :
    Returns (aeCreateReadable s s.fd) fun r =>
      r.1 = true ∧ Sent 0 s r.2 ∧ r.2.pipeLeft = s.pipeLeft ∧ r.2.readable r.2.fd = true := by
  rw [aeCreateReadable, if_neg (not_le_of_gt h.fd_lt), if_neg (not_lt_of_ge h.fd_nonneg),
    if_pos (h.flowing.adds 0)]
  have hself : Function.update s.readable s.fd true s.fd = true := Function.update_self _ _ _
  exact returns_ok ⟨rfl, ⟨{ h with flowing := h.flowing.nextAdd }, rfl, rfl, rfl, rfl, le_refl _,
    fun _ => hself, id⟩, rfl, hself⟩

/-- Registering `cli_on_write`. -/
theorem Up.createWritable {s : CliState} (h : Up s) :
    Returns (aeCreateWritable s s.fd .onWrite) fun r =>
      r.1 = true ∧ Sent 0 s r.2 ∧ r.2.pipeLeft = s.pipeLeft := by
  rw [aeCreateWritable, if_neg (not_le_of_gt h.fd_lt), if_neg (not_lt_of_ge h.fd_nonneg),
    if_pos (h.flowing.adds 0)]
  refine returns_ok ⟨rfl, ⟨{ h with settled := ?_, flowing := h.flowing.nextAdd }, rfl, rfl, rfl,
    rfl, le_refl _, id, id⟩, rfl⟩
  show Function.update s.writable s.fd (some .onWrite) s.fd ≠ some .onConnect
  rw [Function.update_self]
  decide

/-- Removing the handler for writability. -/
theorem Up.deleteWritable {s : CliState} (h : Up s) :
    Returns (aeDeleteWritable s s.fd) fun s' => Sent 0 s s' ∧ s'.pipeLeft = s.pipeLeft := by
  rw [aeDeleteWritable, if_neg (not_lt_of_ge h.fd_nonneg)]
  refine returns_ok ⟨⟨{ h with settled := ?_ }, rfl, rfl, rfl, rfl, le_refl _, id, id⟩, rfl⟩
  show Function.update s.writable s.fd none s.fd ≠ some .onConnect
  rw [Function.update_self]
  exact fun h => nomatch h

/-! ### Writing -/

/-- One round of the loop of `cli_write` in which `write` accepts bytes. -/
theorem cliWriteLoop_accepted {s : CliState} (h : Up s) (hne : bufReadable s.sndBuf ≠ 0)
    (hret : 0 < (s.net.writes 0).ret) :
    ∃ (s' : CliState) (n : Nat), Sent 0 s s' ∧ s'.pipeLeft = s.pipeLeft ∧ 0 < n
      ∧ bufReadable s'.sndBuf < bufReadable s.sndBuf
      ∧ ∀ fuel nwritten errno, cliWriteLoop (fuel + 1) s nwritten errno
        = cliWriteLoop fuel s' n (s.net.writes 0).errno := by
  -- `write` takes at least one byte and at most what it is given
  obtain ⟨n, hn⟩ : ∃ n, min (s.net.writes 0).ret.toNat (bufReadable s.sndBuf) = n := ⟨_, rfl⟩
  have hle : n ≤ bufReadable s.sndBuf := by omega
  have hpos : 0 < n := by omega
  have hload := h.inv.shape.load_front hle
  obtain ⟨b, hretr, hinv, hbytes, hsz, -⟩ := h.inv.retrieve_spec hle
  have hless : bufReadable b < bufReadable s.sndBuf := by
    rw [← hinv.toBufWf.length_bufBytes, hbytes, List.length_drop, h.inv.toBufWf.length_bufBytes]
    omega
  refine ⟨{ s.nextWrite with sndBuf := b, written := s.written ++ (bufBytes s.sndBuf).take n }, n,
    ⟨{ h.nextWrite with inv := hinv }, rfl, rfl, rfl, rfl, le_of_eq hsz, id, id⟩, rfl, hpos, hless,
    fun fuel nwritten errno => ?_⟩
  rw [cliWriteLoop, if_neg hne, if_neg (not_le_of_gt hret), hn]
  simp only [hload, hretr, exec_ok_bind]

/-- What `cli_write` knows behind its loop. -/
def Wrote (s : CliState) (r : Int × Int × CliState) : Prop :=
  (0 < r.1 ∨ r.2.1 = eagain) ∧ Sent 0 s r.2.2 ∧ r.2.2.pipeLeft = s.pipeLeft

/-- One round before the end of the loop. -/
theorem Wrote.of_sent {s s' : CliState} {r : Int × Int × CliState} (hsent : Sent 0 s s')
    (hpipe : s'.pipeLeft = s.pipeLeft) (h : Wrote s' r) : Wrote s r :=
  ⟨h.1, hsent.trans h.2.1, h.2.2.trans hpipe⟩

/-- The loop of `cli_write` when nothing is left. -/
theorem cliWriteLoop_empty {s : CliState} (h : Up s) {nwritten errno : Int} (hpos : 0 < nwritten)
    (hempty : bufReadable s.sndBuf = 0) :
    Settles (fun fuel => cliWriteLoop fuel s nwritten errno) (Wrote s) := by
  have hdone : Wrote s (nwritten, errno, s) :=
    ⟨.inl hpos, ⟨h, rfl, rfl, rfl, rfl, le_refl _, id, id⟩, rfl⟩
  refine (returns_ok hdone).settles.of_succ fun fuel => ?_
  rw [cliWriteLoop, if_pos hempty, exec_pure]

/-- A round of the loop of `cli_write` that is not interrupted, with what holds of the rounds left
when fewer bytes are. -/
theorem cliWriteLoop_round {s : CliState} (h : Up s) {nwritten errno : Int}
    (hne : bufReadable s.sndBuf ≠ 0) (hint : ¬ Interrupted (s.net.writes 0))
    (ih : ∀ s' (n : Int) errno, Up s' → 0 < n → bufReadable s'.sndBuf < bufReadable s.sndBuf →
      Settles (fun fuel => cliWriteLoop fuel s' n errno) (Wrote s')) :
    Settles (fun fuel => cliWriteLoop fuel s nwritten errno) (Wrote s) := by
  rcases lt_or_ge 0 (s.net.writes 0).ret with hret | hret
  · obtain ⟨s', n, hsent, hpipe, hn, hless, heq⟩ := cliWriteLoop_accepted h hne hret
    have hrest := ih s' n (s.net.writes 0).errno hsent.up (Int.natCast_pos.mpr hn) hless
    exact (hrest.imp fun r => Wrote.of_sent hsent hpipe).of_succ fun fuel => heq fuel _ _
  · have hintr : (s.net.writes 0).errno ≠ eintr := fun he => hint ⟨hret, he⟩
    have hagain : (s.net.writes 0).errno = eagain := by
      rcases h.flowing.writes 0 with hpos | he | he
      · exact absurd hret (not_le_of_gt hpos)
      · exact absurd he hintr
      · exact he
    have hdone : Wrote s ((s.net.writes 0).ret, (s.net.writes 0).errno, s.nextWrite) :=
      ⟨.inr hagain, ⟨h.nextWrite, rfl, rfl, rfl, rfl, le_refl _, id, id⟩, rfl⟩
    refine (returns_ok hdone).settles.of_succ fun fuel => ?_
    rw [cliWriteLoop, if_neg hne, if_pos hret, if_neg hintr, exec_pure]

/-- **The loop of `cli_write` ends**, with bytes accepted last or because `write` would block. -/
theorem cliWriteLoop_spec {s : CliState} (h : Up s) (nwritten errno : Int)
    (hpos : 0 < nwritten ∨ 0 < bufReadable s.sndBuf) :
    Settles (fun fuel => cliWriteLoop fuel s nwritten errno) (Wrote s) := by
  -- on the bytes left and, between two calls that are not interrupted, on the interrupted ones
  induction hk : bufReadable s.sndBuf using Nat.strong_induction_on
    generalizing s nwritten errno with
  | _ k ih =>
    obtain ⟨m, hm⟩ := h.flowing.progress 0
    rw [Nat.zero_add] at hm
    have hround (s : CliState) (nwritten errno : Int) (h : Up s) (hk : bufReadable s.sndBuf = k)
        (hne : bufReadable s.sndBuf ≠ 0) (hint : ¬ Interrupted (s.net.writes 0)) :
        Settles (fun fuel => cliWriteLoop fuel s nwritten errno) (Wrote s) :=
      cliWriteLoop_round h hne hint fun s' n errno h' hn hless =>
        ih (bufReadable s'.sndBuf) (hk ▸ hless) h' n errno (.inl hn) rfl
    induction m generalizing s nwritten errno with
    | zero =>
      by_cases hne : bufReadable s.sndBuf = 0
      · exact cliWriteLoop_empty h (hpos.resolve_right (by omega)) hne
      · exact hround s nwritten errno h hk hne hm
    | succ m ihm =>
      by_cases hne : bufReadable s.sndBuf = 0
      · exact cliWriteLoop_empty h (hpos.resolve_right (by omega)) hne
      · by_cases hint : Interrupted (s.net.writes 0)
        · have hrest := ihm h.nextWrite (s.net.writes 0).ret (s.net.writes 0).errno
            (.inr (Nat.pos_of_ne_zero hne)) hk hm
          refine (hrest.imp fun r => ?_).of_succ fun fuel => ?_
          · exact Wrote.of_sent ⟨h.nextWrite, rfl, rfl, rfl, rfl, le_refl _, id, id⟩ rfl
          · rw [cliWriteLoop, if_neg hne, if_pos hint.1, if_pos hint.2]
        · exact hround s nwritten errno h hk hne hint

/-- **`cli_write` succeeds** on a connection that is up. -/
theorem cliWrite_spec {s : CliState} (h : Up s) :
    Settles (fun fuel => cliWrite fuel s) fun r =>
      r.1 = true ∧ Sent 0 s r.2 ∧ r.2.pipeLeft = s.pipeLeft := by
  -- the loop is left with bytes accepted last, or to wait until the connection is writable
  simp only [cliWrite]
  split_ifs with hempty
  · exact (h.deleteWritable.bind fun s' hs' => returns_ok ⟨rfl, hs'⟩).settles
  · refine (cliWriteLoop_spec h 0 0 (.inr (Nat.pos_of_ne_zero hempty))).bind fun r hr => ?_
    obtain ⟨nwritten, errno, s₁⟩ := r
    obtain ⟨hend, hsent, hpipe⟩ := hr
    dsimp only at hend hsent hpipe ⊢
    split_ifs with hle hagain hrest
    · refine (hsent.up.createWritable.imp fun r hr => ?_).settles
      exact ⟨hr.1, hsent.trans hr.2.1, hr.2.2.trans hpipe⟩
    -- any other error is excluded
    · exact absurd (hend.resolve_left (not_lt_of_ge hle)) hagain
    · refine (hsent.up.deleteWritable.bind fun s' hs' => returns_ok ?_).settles
      exact ⟨rfl, hsent.trans hs'.1, hs'.2.trans hpipe⟩
    · exact (returns_ok ⟨rfl, hsent, hpipe⟩).settles

/-- More fuel does not change what the loop of `cli_write` returns. -/
theorem cliWriteLoop_mono {fuel fuel' : Nat} {s : CliState} {nwritten errno : Int}
    {r : Int × Int × CliState} (hle : fuel ≤ fuel')
    (h : cliWriteLoop fuel s nwritten errno = .ok r) :
    cliWriteLoop fuel' s nwritten errno = .ok r := by
  induction fuel generalizing fuel' s nwritten errno with
  | zero => cases h
  | succ fuel ih =>
    obtain ⟨fuel', rfl⟩ := Nat.exists_eq_add_of_le' (le_trans (Nat.le_add_left 1 fuel) hle)
    have hle' := Nat.le_of_succ_le_succ hle
    rw [cliWriteLoop] at h ⊢
    split_ifs at h ⊢
    · exact h
    · exact ih hle' h
    · exact h
    · obtain ⟨accepted, hload, h⟩ := exec_bind_eq_ok.mp h
      obtain ⟨b, hretr, h⟩ := exec_bind_eq_ok.mp h
      have hrest := ih hle' h
      exact exec_bind_eq_ok.mpr ⟨accepted, hload, exec_bind_eq_ok.mpr ⟨b, hretr, hrest⟩⟩

/-- More fuel does not change what `cli_write` returns. -/
theorem cliWrite_mono {fuel fuel' : Nat} {s : CliState} {r : Bool × CliState} (hle : fuel ≤ fuel')
    (h : cliWrite fuel s = .ok r) : cliWrite fuel' s = .ok r := by
  rw [cliWrite] at h ⊢
  split_ifs at h ⊢
  · exact h
  · obtain ⟨p, hloop, h⟩ := exec_bind_eq_ok.mp h
    rw [cliWriteLoop_mono hle hloop]
    exact h

/-- **`cli_write` does not fail** on a connection that is up, whatever the fuel. -/
theorem Up.write_ok {fuel : Nat} {s s' : CliState} {ok : Bool} (h : Up s)
    (hok : cliWrite fuel s = .ok (ok, s')) : ok = true ∧ Sent 0 s s' ∧ s'.pipeLeft = s.pipeLeft :=
  (cliWrite_spec h).of_eq_ok (fun hle => cliWrite_mono hle) hok

/-! ### Sending requests -/

/-- `dubbo_encode` accepts the requests of the client, whatever their number. -/
def RequestEncodes (args : CliArgs) : Prop :=
  ∀ reqid, ∃ req buf, dubboReqCreate args.rebuildJsonArgs reqid args.service args.method args.args
      = some req ∧ dubboEncode req = .ok (some buf)

/-- A request of the client is no event. -/
theorem isEvt_of_create {rebuildJsonArgs : CStr → Option CStr} {reqid : Int64}
    {service method jsonArgs : CStr} {req : DubboReq}
    (h : dubboReqCreate rebuildJsonArgs reqid service method jsonArgs = some req) :
    req.isEvt = false := by
  rw [dubboReqCreate] at h
  split at h
  · cases h
  · cases h
    rfl

/-- The most a request adds to the send buffer. -/
def maxReqFrame : Nat := 8208

/-- `cli_encode_req` returns a frame. -/
theorem cliEncodeReq_spec {args : CliArgs} (hargs : RequestEncodes args) (s : CliState) :
    ∃ frame, cliEncodeReq args s = .ok (frame, { s with lastReqid := nextReqid s.lastReqid })
      ∧ 16 ≤ frame.length ∧ frame.length ≤ maxReqFrame := by
  obtain ⟨req, buf, hcreate, hencode⟩ := hargs (nextReqid s.lastReqid)
  obtain ⟨hwf, hlow, hhigh, -⟩ := dubboEncode_some (isEvt_of_create hcreate) hencode
  refine ⟨bufBytes buf, ?_, hlow, hhigh⟩
  rw [cliEncodeReq, hcreate]
  simp only [hencode, exec_ok_bind, hwf.load_readable, exec_pure]

/-- A request can be queued, and leaves the connection up. -/
theorem Up.queue {args : CliArgs} (hargs : RequestEncodes args) {s : CliState} (h : Up s)
    (hroom : s.sndBuf.sz + maxReqFrame < 2 ^ 64) :
    ∃ frame s₁ sndBuf, cliEncodeReq args { s with requests := s.requests + 1 } = .ok (frame, s₁)
      ∧ bufAppend s₁.sndBuf frame = .ok sndBuf
      ∧ Sent maxReqFrame s { s₁ with sndBuf := sndBuf } ∧ s₁.pipeLeft = s.pipeLeft := by
  obtain ⟨frame, hencode, -, hlen⟩ := cliEncodeReq_spec hargs { s with requests := s.requests + 1 }
  have hw := h.inv.write_le_sz
  obtain ⟨b, happ, hinv, -, hsz, -⟩ := h.inv.append_spec (d := frame) (by omega)
  refine ⟨frame, _, b, hencode, happ, ⟨{ h with inv := hinv }, rfl, rfl, rfl, rfl, ?_, id, id⟩, rfl⟩
  show b.sz ≤ s.sndBuf.sz + maxReqFrame
  omega

/-- `cli_send_req` queues a frame and writes. -/
theorem cliSendReq_eq {args : CliArgs} (hargs : RequestEncodes args) {s : CliState} (h : Up s)
    (hroom : s.sndBuf.sz + maxReqFrame < 2 ^ 64) :
    ∃ s₁, Sent maxReqFrame s s₁ ∧ s₁.pipeLeft = s.pipeLeft
      ∧ ∀ fuel, cliSendReq args (fuel + 1) s = (do
        let (ok, s) ← cliWrite fuel s₁
        if ok then return s else cliReconnect args fuel s) := by
  obtain ⟨frame, s₁, sndBuf, hencode, happ, hsent, hpipe⟩ := h.queue hargs hroom
  refine ⟨{ s₁ with sndBuf := sndBuf }, hsent, hpipe, fun fuel => ?_⟩
  rw [cliSendReq, hencode, exec_ok_bind]
  simp only [happ, exec_ok_bind]

/-- **`cli_send_req` returns** on a connection that is up. -/
theorem cliSendReq_spec {args : CliArgs} (hargs : RequestEncodes args) {s : CliState} (h : Up s)
    (hroom : s.sndBuf.sz + maxReqFrame < 2 ^ 64) :
    Settles (fun fuel => cliSendReq args fuel s) fun s' =>
      Sent maxReqFrame s s' ∧ s'.pipeLeft = s.pipeLeft := by
  obtain ⟨s₁, hsent, hpipe, heq⟩ := cliSendReq_eq hargs h hroom
  refine Settles.of_succ ((cliWrite_spec hsent.up).bind fun r hr => ?_) heq
  obtain ⟨ok, s₂⟩ := r
  obtain ⟨rfl, hsent₂, hpipe₂⟩ := hr
  exact (returns_ok ⟨hsent.trans hsent₂, hpipe₂.trans hpipe⟩).settles

/-- The counter of the pipe is no part of what sending leaves alone. -/
theorem Up.sent_pipeLeft {s : CliState} (h : Up s) (n : Int) : Sent 0 s { s with pipeLeft := n } :=
  ⟨{ h with }, rfl, rfl, rfl, rfl, le_refl _, id, id⟩

/-- **`cli_pipe_send` sends what the pipe has room for** on a connection that is up. -/
theorem cliPipeSend_spec {args : CliArgs} (hargs : RequestEncodes args) (n : Nat) {s : CliState}
    (h : Up s) (hn : s.pipeLeft = n) (hroom : s.sndBuf.sz + n * maxReqFrame < 2 ^ 64) :
    Settles (fun fuel => cliPipeSend args fuel s) fun s' =>
      Sent (n * maxReqFrame) s s' ∧ s'.pipeLeft = 0 := by
  induction n generalizing s with
  | zero =>
    have hzero : s.pipeLeft = 0 := hn
    refine Settles.of_succ (x := fun _ => .ok { s with pipeLeft := s.pipeLeft - 1 + 1 })
      (returns_ok ⟨?_, ?_⟩).settles fun fuel => ?_
    · rw [cliPipeSend, if_pos hzero, exec_pure]
    · rw [Nat.zero_mul]
      exact h.sent_pipeLeft _
    · show s.pipeLeft - 1 + 1 = 0
      omega
  | succ n ih =>
    have hne : s.pipeLeft ≠ 0 := by omega
    -- one request, then the rest of them with the room it has left
    have hone := h.sent_pipeLeft (s.pipeLeft - 1)
    have heq (fuel : Nat) : cliPipeSend args (fuel + 1) s = (do
        let s ← cliSendReq args fuel { s with pipeLeft := s.pipeLeft - 1 }
        cliPipeSend args fuel s) := by rw [cliPipeSend, if_neg hne]
    rw [Nat.succ_mul] at hroom
    refine Settles.of_succ ((cliSendReq_spec hargs hone.up ?_).bind fun s₁ hs₁ => ?_) heq
    · show s.sndBuf.sz + maxReqFrame < 2 ^ 64
      omega
    · obtain ⟨hsent, hpipe⟩ := hs₁
      have hsz : s₁.sndBuf.sz ≤ s.sndBuf.sz + maxReqFrame := hsent.sz_le
      have hleft : s₁.pipeLeft = n := by
        rw [hpipe]
        show s.pipeLeft - 1 = n
        omega
      refine (ih hsent.up hleft (by omega)).imp fun s' hs' => ⟨?_, hs'.2⟩
      rw [Nat.succ_mul, Nat.add_comm, ← Nat.zero_add (maxReqFrame + n * maxReqFrame)]
      exact hone.trans (hsent.trans hs'.1)

end Wee
