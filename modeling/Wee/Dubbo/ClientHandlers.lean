import Wee.Dubbo.ClientSession

/-! # Handlers and the connection

`cli_on_read` and `cli_on_write` assert that the client is connected. A handler is registered for
the current descriptor only, and closing removes it; so the assertions hold as long as the client
sends on a connection that is up. But when a write fails inside `cli_pipe_send`, the client
reconnects and the loop goes on, while the new connection may still be in progress: a `write` that
would block then registers `cli_on_write` on it. -/

namespace Wee

/-! ### Where requests are sent -/

/-- The calls that may come to a call of `cli_send_req`. -/
inductive CliCall
  /-- `cli_connected`. -/
  | connected
  /-- `cli_connect`. -/
  | connect
  /-- `cli_reconnect`. -/
  | reconnect
  /-- `cli_send_req`. -/
  | sendReq
  /-- `cli_pipe_send`. -/
  | pipeSend
  /-- The loop of `cli_on_read`. -/
  | readLoop (rs : List ReadvRes)
  /-- `cli_on_read` behind its loop. -/
  | received
  /-- `cli_on_read` behind the test of `is_dubbo_pkt`. -/
  | receivedPkt
  /-- `cli_on_read`. -/
  | onRead (rs : List ReadvRes)
  /-- `cli_on_write`. -/
  | onWrite
  /-- `cli_on_connect`. -/
  | onConnect (fd : Int) (writable : Bool)
  /-- `cli_connect_timeout`. -/
  | connectTimeout
  /-- `cli_start`. -/
  | start

/-- The call of the handler of an event. -/
def AeEvent.call : AeEvent → CliCall
  | .read _ rs => .onRead rs
  | .write _ => .onWrite
  | .connect fd writable => .onConnect fd writable
  | .timeout => .connectTimeout

/-- The call, made in the state `s`, comes to a call of `cli_send_req` in the state `t`. There is a
case for each call in the source, with the state it is made in. -/
inductive SendsIn (args : CliArgs) : Nat → CliCall → CliState → CliState → Prop
  /-- The call of `cli_send_req` itself. -/
  | here {fuel s} : SendsIn args fuel .sendReq s s
  /-- `cli_send_req` reconnects when `cli_write` fails. -/
  | sendReq_reconnect {fuel s s₁ t frame sndBuf} :
      cliEncodeReq args { s with requests := s.requests + 1 } = .ok (frame, s₁) →
      bufAppend s₁.sndBuf frame = .ok sndBuf →
      ∀ {s₂}, cliWrite fuel { s₁ with sndBuf := sndBuf } = .ok (false, s₂) →
        SendsIn args fuel .reconnect s₂ t → SendsIn args (fuel + 1) .sendReq s t
  /-- `cli_pipe_send` calls `cli_send_req`. -/
  | pipeSend_sendReq {fuel s t} : s.pipeLeft ≠ 0 →
      SendsIn args fuel .sendReq { s with pipeLeft := s.pipeLeft - 1 } t →
      SendsIn args (fuel + 1) .pipeSend s t
  /-- The loop of `cli_pipe_send` goes on. -/
  | pipeSend_next {fuel s s₁ t} : s.pipeLeft ≠ 0 →
      cliSendReq args fuel { s with pipeLeft := s.pipeLeft - 1 } = .ok s₁ →
      SendsIn args fuel .pipeSend s₁ t → SendsIn args (fuel + 1) .pipeSend s t
  /-- `cli_connected` fills the pipe when `cli_on_read` is registered. -/
  | connected_pipeSend {fuel s s₁ t} :
      aeCreateReadable (cliClearTimer { s with connected := true }) s.fd = .ok (true, s₁) →
      SendsIn args fuel .pipeSend s₁ t → SendsIn args (fuel + 1) .connected s t
  /-- `cli_connect` is connected at once. -/
  | connect_connected {fuel s t} : 0 ≤ s.net.sockets 0 → (s.net.connects 0).ret = 0 →
      SendsIn args fuel .connected s.nextSocket.nextConnect t →
      SendsIn args (fuel + 1) .connect s t
  /-- `cli_reconnect` connects behind `cli_close`. -/
  | reconnect_connect {fuel s s₁ t} :
      cliClose { s with reconnects := s.reconnects + 1 } = .ok s₁ →
      SendsIn args fuel .connect s₁ t → SendsIn args (fuel + 1) .reconnect s t
  /-- `cli_start` connects. -/
  | start_connect {fuel s t} : s.run = false → SendsIn args fuel .connect { s with run := true } t →
      SendsIn args fuel .start s t
  /-- `cli_on_connect` with a connection. -/
  | onConnect_connected {fuel fd s s₁ t} : aeDeleteWritable s fd = .ok s₁ →
      SendsIn args fuel .connected s₁ t → SendsIn args fuel (.onConnect fd true) s t
  /-- `cli_on_connect` without one. -/
  | onConnect_reconnect {fuel fd s t} : SendsIn args fuel .reconnect s t →
      SendsIn args fuel (.onConnect fd false) s t
  /-- `cli_connect_timeout` reconnects. -/
  | connectTimeout_reconnect {fuel s t} : SendsIn args fuel .reconnect s t →
      SendsIn args fuel .connectTimeout s t
  /-- `cli_on_write` reconnects when `cli_write` fails. -/
  | onWrite_reconnect {fuel s s₁ t} : s.connected = true → cliWrite fuel s = .ok (false, s₁) →
      SendsIn args fuel .reconnect s₁ t → SendsIn args fuel .onWrite s t
  /-- The loop of `cli_on_read` goes on when it is interrupted. -/
  | readLoop_next {fuel r rs s n b t} : bufReadFd s.rcvBuf 0 r = .ok (n, eintr, b) → n < 0 →
      SendsIn args fuel (.readLoop rs) { s with rcvBuf := b } t →
      SendsIn args fuel (.readLoop (r :: rs)) s t
  /-- The loop of `cli_on_read` reconnects at the end of the stream and when reading fails. -/
  | readLoop_reconnect {fuel r rs s n errno b t} : bufReadFd s.rcvBuf 0 r = .ok (n, errno, b) →
      n ≤ 0 → (n < 0 → errno ≠ eintr ∧ errno ≠ eagain) →
      SendsIn args fuel .reconnect { s with rcvBuf := b } t →
      SendsIn args fuel (.readLoop (r :: rs)) s t
  /-- `cli_on_read` runs its loop. -/
  | onRead_readLoop {fuel rs s t} : s.connected = true → SendsIn args fuel (.readLoop rs) s t →
      SendsIn args fuel (.onRead rs) s t
  /-- `cli_on_read` goes on behind its loop. -/
  | onRead_received {fuel rs s s₁ t} : s.connected = true →
      cliReadLoop args fuel rs s = .ok (true, s₁) → SendsIn args fuel .received s₁ t →
      SendsIn args fuel (.onRead rs) s t
  /-- `cli_on_read` reconnects when it has not received a packet. -/
  | received_reconnect {fuel s t} : isDubboPkt s.rcvBuf = .ok false →
      SendsIn args fuel .reconnect s t → SendsIn args fuel .received s t
  /-- `cli_on_read` goes on behind that reconnect. -/
  | received_next {fuel s s₁ t} : isDubboPkt s.rcvBuf = .ok false →
      cliReconnect args fuel s = .ok s₁ → SendsIn args fuel .receivedPkt s₁ t →
      SendsIn args fuel .received s t
  /-- `cli_on_read` goes on with a packet. -/
  | received_pkt {fuel s t} : isDubboPkt s.rcvBuf = .ok true →
      SendsIn args fuel .receivedPkt s t → SendsIn args fuel .received s t
  /-- `cli_on_read` fills the pipe behind a response. -/
  | receivedPkt_pipeSend {fuel s s₁ t remaining} :
      isCompletedDubboPkt s.rcvBuf = .ok (some remaining) →
      cliDecodeResp fuel { s with pipeLeft := s.pipeLeft + 1, reqLeft := s.reqLeft - 1 }
        = .ok (true, s₁) →
      0 < s₁.reqLeft → SendsIn args fuel .pipeSend s₁ t → SendsIn args fuel .receivedPkt s t
  /-- `cli_on_read` reconnects when the response cannot be decoded. -/
  | receivedPkt_reconnect {fuel s s₁ t remaining} :
      isCompletedDubboPkt s.rcvBuf = .ok (some remaining) →
      cliDecodeResp fuel { s with pipeLeft := s.pipeLeft + 1, reqLeft := s.reqLeft - 1 }
        = .ok (false, s₁) →
      0 < s₁.reqLeft → SendsIn args fuel .reconnect s₁ t → SendsIn args fuel .receivedPkt s t

/-- The call sends requests on a connection that is up only. -/
def SendsConnected (args : CliArgs) (fuel : Nat) (c : CliCall) (s : CliState) : Prop :=
  ∀ t, SendsIn args fuel c s t → t.connected = true

/-- A handler that is called sends requests on a connection that is up only. -/
def EventSendsConnected (args : CliArgs) (fuel : Nat) (s : CliState) (e : AeEvent) : Prop :=
  s.stopped = false → e.Registered s → SendsConnected args fuel e.call s

/-! ### A connection on which nothing fails -/

section Flowing

variable {args : CliArgs} {fuel : Nat} {s s₁ : CliState}

/-- A request that has been queued leaves the connection up. -/
theorem Up.queued (hargs : RequestEncodes args) (h : Up s)
    (hroom : s.sndBuf.sz + maxReqFrame < 2 ^ 64) {frame : List UInt8} {sndBuf : Buffer}
    (hencode : cliEncodeReq args { s with requests := s.requests + 1 } = .ok (frame, s₁))
    (happ : bufAppend s₁.sndBuf frame = .ok sndBuf) :
    Sent maxReqFrame s { s₁ with sndBuf := sndBuf } ∧ s₁.pipeLeft = s.pipeLeft := by
  obtain ⟨frame', s₁', sndBuf', hencode', happ', hsent⟩ := h.queue hargs hroom
  rw [hencode'] at hencode
  cases hencode
  rw [happ'] at happ
  cases happ
  exact hsent

/-- `cli_send_req` leaves the connection up, whatever the fuel. -/
theorem Up.sendReq_ok (hargs : RequestEncodes args) (h : Up s)
    (hroom : s.sndBuf.sz + maxReqFrame < 2 ^ 64) (hok : cliSendReq args fuel s = .ok s₁) :
    Sent maxReqFrame s s₁ ∧ s₁.pipeLeft = s.pipeLeft := by
  cases fuel with
  | zero => cases hok
  | succ fuel =>
    obtain ⟨frame, sndBuf, ok, s₂, hencode, happ, hwrite, hrest⟩ := cliSendReq_ok hok
    obtain ⟨hqueued, hpipe⟩ := h.queued hargs hroom hencode happ
    obtain ⟨rfl, hsent, hpipe₂⟩ := hqueued.up.write_ok hwrite
    rcases hrest with ⟨-, rfl⟩ | ⟨hno, -⟩
    · exact ⟨hqueued.trans hsent, hpipe₂.trans hpipe⟩
    · cases hno

/-- **On a connection on which nothing fails, the pipe is filled with the connection up.** -/
theorem Up.pipeSend_sendsConnected (hargs : RequestEncodes args) (n : Nat) (h : Up s)
    (hn : s.pipeLeft = n) (hroom : s.sndBuf.sz + n * maxReqFrame < 2 ^ 64) :
    SendsConnected args fuel .pipeSend s := by
  induction n generalizing s fuel with
  | zero =>
    intro t ht
    cases ht with
    | pipeSend_sendReq hleft _ => exact absurd hn hleft
    | pipeSend_next hleft _ _ => exact absurd hn hleft
  | succ n ih =>
    rw [Nat.succ_mul] at hroom
    have hone := h.sent_pipeLeft (s.pipeLeft - 1)
    have hroom₁ : s.sndBuf.sz + maxReqFrame < 2 ^ 64 := by omega
    intro t ht
    cases ht with
    | pipeSend_sendReq _ hsend =>
      cases hsend with
      | here => exact h.connected
      | sendReq_reconnect hencode happ hwrite _ =>
        -- `cli_write` does not fail
        obtain ⟨hno, -⟩ := (hone.up.queued hargs hroom₁ hencode happ).1.up.write_ok hwrite
        cases hno
    | pipeSend_next _ hsend hrest =>
      obtain ⟨hsent, hpipe⟩ := hone.up.sendReq_ok hargs hroom₁ hsend
      have hsz : _ ≤ s.sndBuf.sz + maxReqFrame := hsent.sz_le
      refine ih hsent.up ?_ (by omega) t hrest
      rw [hpipe]
      show s.pipeLeft - 1 = n
      omega

/-- On such a connection `cli_on_write` sends no request. -/
theorem Up.onWrite_sendsConnected (h : Up s) : SendsConnected args fuel .onWrite s := by
  intro t ht
  cases ht with
  | onWrite_reconnect _ hwrite _ =>
    obtain ⟨hno, -⟩ := h.write_ok hwrite
    cases hno

/-- `cli_connected` sends requests with the connection up when it stands. -/
theorem Standing.sendsConnected (hargs : RequestEncodes args) {reqN : Int} {n : Nat}
    (h : Standing reqN n s) (hroom : 1032 + n * maxReqFrame < 2 ^ 64) :
    SendsConnected args fuel .connected s := by
  intro t ht
  cases ht with
  | connected_pipeSend hadd hpipe =>
    have hstart : Up (cliClearTimer { s with connected := true }) := { h.up with }
    obtain ⟨⟨added, s₁⟩, hadd', -, hsent, hleft, -⟩ := hstart.createReadable
    change aeCreateReadable _ s.fd = .ok (added, s₁) at hadd'
    rw [hadd'] at hadd
    cases hadd
    have hsz : _ ≤ s.sndBuf.sz := hsent.sz_le
    have hstand := h.snd_sz
    exact hsent.up.pipeSend_sendsConnected hargs n (hleft.trans h.pipe) (by omega) t hpipe

/-- Starting a client that `connect` connects at once, on a system that does not fail. -/
theorem Healthy.bench_now (hargs : RequestEncodes args) {pipeN reqN : Int} {lastReqid : Int64}
    {net : Net} (hnet : Healthy net) (hret : (net.connects 0).ret = 0) {n : Nat}
    (hn : min reqN pipeN = n) (hroom : 1032 + n * maxReqFrame < 2 ^ 64) :
    Settles (fun fuel => dubboBenchAsync args fuel pipeN reqN lastReqid net)
      fun r => r.1 = true ∧ Opened reqN n r.2 := by
  obtain ⟨s₀, hcreate, hrun, -, rfl, hstand⟩ := cliCreate_spec pipeN reqN lastReqid hnet hn
  exact (hstand.connected hargs hroom).of_succ
    (dubboBenchAsync_now hcreate hrun (not_lt_of_ge hnet.socket_nonneg) hret)

/-- `cli_start` then sends requests with the connection up. -/
theorem Healthy.start_sendsConnected (hargs : RequestEncodes args) {pipeN reqN : Int}
    {lastReqid : Int64} {net : Net} (hnet : Healthy net) {n : Nat} (hn : min reqN pipeN = n)
    (hroom : 1032 + n * maxReqFrame < 2 ^ 64)
    (hcreate : cliCreate pipeN reqN lastReqid net = .ok s) : SendsConnected args fuel .start s := by
  obtain ⟨s₀, hcreate', -, -, -, hstand⟩ := cliCreate_spec pipeN reqN lastReqid hnet hn
  rw [hcreate'] at hcreate
  cases hcreate
  intro t ht
  cases ht with
  | start_connect _ hconn =>
    cases hconn with
    | connect_connected _ _ hconn => exact hstand.sendsConnected hargs hroom t hconn

/-- A writable descriptor on such a connection. -/
theorem Up.handle_write (args : CliArgs) (h : Up s) (fd : Int) :
    Settles (fun fuel => cliHandle args fuel s (.write fd)) fun r => Sent 0 s r.2 := by
  simp only [cliHandle]
  split_ifs with hfires
  · simp only [AeEvent.handler, cliOnWrite, cassert_bind_of h.connected, bind_assoc]
    refine (cliWrite_spec h).bind fun r hr => ?_
    obtain ⟨ok, s'⟩ := r
    obtain ⟨rfl, hsent, -⟩ := hr
    exact ⟨0, ((), s'), fun _ _ => rfl, hsent⟩
  · exact (returns_ok ⟨h, rfl, rfl, rfl, rfl, le_refl _, id, id⟩).settles

end Flowing

/-! ### Registrations -/

/-- Only the current descriptor has handlers. -/
structure OnlyCurrent (s : CliState) : Prop where
  /-- `cli_on_read`. -/
  readable : ∀ fd, fd ≠ s.fd → s.readable fd = false
  /-- `cli_on_write` and `cli_on_connect`. -/
  writable : ∀ fd, fd ≠ s.fd → s.writable fd = none

/-- **The invariant of every run**: only the current descriptor has handlers, and with `cli_on_read`
or `cli_on_write` it is connected. -/
structure HandlersOk (s : CliState) : Prop extends OnlyCurrent s where
  /-- `cli_on_read`. -/
  onRead : s.readable s.fd = true → s.connected = true
  /-- `cli_on_write`. -/
  onWrite : s.writable s.fd = some .onWrite → s.connected = true

/-- No handler is registered. -/
structure Unregistered (s : CliState) : Prop where
  /-- `cli_on_read`. -/
  readable : ∀ fd, s.readable fd = false
  /-- `cli_on_write` and `cli_on_connect`. -/
  writable : ∀ fd, s.writable fd = none

section Registrations

variable {s s' : CliState} {fd : Int}

/-- On a connection that is up any handler may be registered. -/
theorem OnlyCurrent.ok (h : OnlyCurrent s) (hconn : s.connected = true) : HandlersOk s :=
  { h with onRead := fun _ => hconn, onWrite := fun _ => hconn }

/-- Without handlers there is nothing to ask for, whatever the descriptor and the connection. -/
theorem Unregistered.ok (h : Unregistered s) : HandlersOk s where
  readable fd _ := h.readable fd
  writable fd _ := h.writable fd
  onRead hread := by
    rw [h.readable] at hread
    cases hread
  onWrite hwrite := by
    rw [h.writable] at hwrite
    cases hwrite

/-- Registering `cli_on_read` for the current descriptor. -/
theorem OnlyCurrent.createReadable {ok : Bool} (h : OnlyCurrent s)
    (hadd : aeCreateReadable s s.fd = .ok (ok, s')) :
    OnlyCurrent s' ∧ s'.connected = s.connected := by
  obtain ⟨net, readable, rfl, hat⟩ := aeCreateReadable_ok hadd
  refine ⟨⟨fun fd hne => ?_, h.writable⟩, rfl⟩
  exact (hat fd hne).trans (h.readable fd hne)

/-- Removing a handler for writability. -/
theorem HandlersOk.deleteWritable (h : HandlersOk s) (hdel : aeDeleteWritable s fd = .ok s') :
    HandlersOk s' := by
  obtain rfl := aeDeleteWritable_ok hdel
  refine ⟨⟨h.readable, fun fd' hne => ?_⟩, h.onRead, fun hwrite => ?_⟩
  · show Function.update s.writable fd none fd' = none
    rw [Function.update_apply]
    split_ifs
    · rfl
    · exact h.writable fd' hne
  · change Function.update s.writable fd none s.fd = some .onWrite at hwrite
    rw [Function.update_apply] at hwrite
    split_ifs at hwrite
    exact h.onWrite hwrite

/-- `cli_write` keeps the handlers at the current descriptor. -/
theorem OnlyCurrent.write (h : OnlyCurrent s) (hwrite : CliWrites s s') :
    OnlyCurrent s' ∧ s'.connected = s.connected := by
  obtain ⟨sndBuf, net, written, writable, rfl, hat⟩ := hwrite
  refine ⟨⟨h.readable, fun fd hne => ?_⟩, rfl⟩
  have hkept := (hat fd).resolve_right fun hcur => hne hcur.1
  exact hkept.trans (h.writable fd hne)

/-- **Closing removes every handler.** -/
theorem OnlyCurrent.close (h : OnlyCurrent s) (hclose : cliClose s = .ok s') : Unregistered s' := by
  obtain rfl := cliClose_ok hclose
  constructor
  · intro fd
    show Function.update s.readable s.fd false fd = false
    rw [Function.update_apply]
    split_ifs with hfd
    · rfl
    · exact h.readable fd hfd
  · intro fd
    show Function.update s.writable s.fd none fd = none
    rw [Function.update_apply]
    split_ifs with hfd
    · rfl
    · exact h.writable fd hfd

/-- Ending removes every handler, or changes nothing. -/
theorem HandlersOk.ended (h : HandlersOk s) (hend : cliEnd s = .ok s') : HandlersOk s' := by
  rcases cliEnd_ok hend with ⟨-, rfl⟩ | ⟨s₁, hclose, rfl⟩
  · exact h
  · have hnone := h.toOnlyCurrent.close hclose
    exact Unregistered.ok ⟨hnone.readable, hnone.writable⟩

end Registrations

/-! ### The functions that call each other -/

section Calls

variable {args : CliArgs} {fuel : Nat} {s s' : CliState} {ok : Bool}

/-- With `fuel`, the functions of the client keep the invariant when they send on a connection that
is up only. `cli_connected` needs no more than that no other descriptor has handlers; to
`cli_connect` no handler is left. -/
structure HandlersKept (args : CliArgs) (fuel : Nat) : Prop where
  /-- `cli_connected`. -/
  connected : ∀ {s ok s'}, OnlyCurrent s → SendsConnected args fuel .connected s →
    cliConnected args fuel s = .ok (ok, s') → HandlersOk s'
  /-- `cli_connect`. -/
  connect : ∀ {s ok s'}, Unregistered s → SendsConnected args fuel .connect s →
    cliConnect args fuel s = .ok (ok, s') → HandlersOk s'
  /-- `cli_reconnect`. -/
  reconnect : ∀ {s s'}, OnlyCurrent s → SendsConnected args fuel .reconnect s →
    cliReconnect args fuel s = .ok s' → HandlersOk s'
  /-- `cli_send_req`. -/
  sendReq : ∀ {s s'}, OnlyCurrent s → SendsConnected args fuel .sendReq s →
    cliSendReq args fuel s = .ok s' → HandlersOk s'
  /-- `cli_pipe_send`. -/
  pipeSend : ∀ {s s'}, HandlersOk s → SendsConnected args fuel .pipeSend s →
    cliPipeSend args fuel s = .ok s' → HandlersOk s'

/-- `cli_connected`, by what it calls. -/
theorem HandlersKept.connected_succ (h : HandlersKept args fuel) (hs : OnlyCurrent s)
    (hsends : SendsConnected args (fuel + 1) .connected s)
    (hok : cliConnected args (fuel + 1) s = .ok (ok, s')) : HandlersOk s' := by
  obtain ⟨s₁, hadd, hrest⟩ := cliConnected_ok hok
  -- `connected` is set before `cli_on_read` is registered
  have hstart : OnlyCurrent (cliClearTimer { s with connected := true }) :=
    ⟨hs.readable, hs.writable⟩
  obtain ⟨hs₁, hconn⟩ := hstart.createReadable hadd
  rcases hrest with ⟨rfl, hpipe⟩ | ⟨-, rfl⟩
  · exact h.pipeSend (hs₁.ok hconn) (fun t ht => hsends t (.connected_pipeSend hadd ht)) hpipe
  · exact hs₁.ok hconn

/-- `cli_connect`, by what it calls. -/
theorem HandlersKept.connect_succ (h : HandlersKept args fuel) (hs : Unregistered s)
    (hsends : SendsConnected args (fuel + 1) .connect s)
    (hok : cliConnect args (fuel + 1) s = .ok (ok, s')) : HandlersOk s' := by
  rcases cliConnect_ok hok with ⟨net, rfl⟩ | ⟨hsock, hret, hconn⟩ | ⟨net, writable, timer, rfl, hat⟩
  · exact Unregistered.ok ⟨hs.readable, hs.writable⟩
  · have hnext : Unregistered s.nextSocket.nextConnect := ⟨hs.readable, hs.writable⟩
    exact h.connected hnext.ok.toOnlyCurrent
      (fun t ht => hsends t (.connect_connected hsock hret ht)) hconn
  · -- all there can be is `cli_on_connect`, for the new descriptor
    refine ⟨⟨fun fd _ => hs.readable fd, fun fd hne => ?_⟩, fun hread => ?_, fun hwrite => ?_⟩
    · have hkept := (hat fd).resolve_right fun hcur => hne hcur.1
      exact hkept.trans (hs.writable fd)
    · rw [show s.readable (s.net.sockets 0) = false from hs.readable _] at hread
      cases hread
    · change writable (s.net.sockets 0) = some .onWrite at hwrite
      rcases hat (s.net.sockets 0) with hkept | ⟨-, hnew⟩
      · rw [hkept, hs.writable] at hwrite
        cases hwrite
      · rw [hnew] at hwrite
        cases hwrite

/-- `cli_reconnect`, by what it calls. -/
theorem HandlersKept.reconnect_succ (h : HandlersKept args fuel) (hs : OnlyCurrent s)
    (hsends : SendsConnected args (fuel + 1) .reconnect s)
    (hok : cliReconnect args (fuel + 1) s = .ok s') : HandlersOk s' := by
  obtain ⟨s₁, ok, hclose, hconn⟩ := cliReconnect_ok hok
  have hstart : OnlyCurrent { s with reconnects := s.reconnects + 1 } := ⟨hs.readable, hs.writable⟩
  exact h.connect (hstart.close hclose) (fun t ht => hsends t (.reconnect_connect hclose ht)) hconn

/-- `cli_send_req`, by what it calls. -/
theorem HandlersKept.sendReq_succ (h : HandlersKept args fuel) (hs : OnlyCurrent s)
    (hsends : SendsConnected args (fuel + 1) .sendReq s)
    (hok : cliSendReq args (fuel + 1) s = .ok s') : HandlersOk s' := by
  have hconn := hsends s .here
  obtain ⟨frame, sndBuf, ok, s₁, hencode, happ, hwrite, hrest⟩ := cliSendReq_ok hok
  have hqueued : OnlyCurrent { s with
      requests := s.requests + 1, lastReqid := nextReqid s.lastReqid, sndBuf := sndBuf } :=
    ⟨hs.readable, hs.writable⟩
  obtain ⟨hs₁, hconn₁⟩ := hqueued.write (cliWrite_ok hwrite)
  rcases hrest with ⟨-, rfl⟩ | ⟨rfl, hre⟩
  · exact hs₁.ok (hconn₁.trans hconn)
  · exact h.reconnect hs₁ (fun t ht => hsends t (.sendReq_reconnect hencode happ hwrite ht)) hre

/-- `cli_pipe_send`, by what it calls. -/
theorem HandlersKept.pipeSend_succ (h : HandlersKept args fuel) (hs : HandlersOk s)
    (hsends : SendsConnected args (fuel + 1) .pipeSend s)
    (hok : cliPipeSend args (fuel + 1) s = .ok s') : HandlersOk s' := by
  rcases cliPipeSend_ok hok with ⟨-, rfl⟩ | ⟨hleft, s₁, hsend, hrest⟩
  · exact hs
  · have hstart : OnlyCurrent { s with pipeLeft := s.pipeLeft - 1 } := ⟨hs.readable, hs.writable⟩
    have hs₁ := h.sendReq hstart (fun t ht => hsends t (.pipeSend_sendReq hleft ht)) hsend
    exact h.pipeSend hs₁ (fun t ht => hsends t (.pipeSend_next hleft hsend ht)) hrest

/-- **The functions that call each other keep the invariant** when they send on a connection that is
up only. -/
theorem handlersKept (args : CliArgs) (fuel : Nat) : HandlersKept args fuel := by
  induction fuel with
  | zero =>
    constructor
    all_goals
      intros
      rename_i h
      cases h
  | succ fuel ih =>
    exact ⟨ih.connected_succ, ih.connect_succ, ih.reconnect_succ, ih.sendReq_succ, ih.pipeSend_succ⟩

/-! ### The handlers -/

/-- `cli_decode_resp` registers nothing. -/
theorem HandlersOk.decodeResp (h : HandlersOk s) (hok : cliDecodeResp fuel s = .ok (ok, s')) :
    HandlersOk s' := by
  obtain ⟨b, ⟨-, rfl⟩ | ⟨-, res, rfl⟩⟩ := cliDecodeResp_ok hok
  · exact ⟨⟨h.readable, h.writable⟩, h.onRead, h.onWrite⟩
  · exact ⟨⟨h.readable, h.writable⟩, h.onRead, h.onWrite⟩

/-- The loop of `cli_on_read` keeps the invariant. -/
theorem HandlersOk.readLoop {rs : List ReadvRes} {go : Bool} (h : HandlersOk s)
    (hsends : SendsConnected args fuel (.readLoop rs) s)
    (hok : cliReadLoop args fuel rs s = .ok (go, s')) : HandlersOk s' := by
  have hkept := handlersKept args fuel
  induction rs generalizing s with
  | nil => cases hok
  | cons r rs ih =>
    rw [cliReadLoop] at hok
    obtain ⟨⟨n, errno, b⟩, hread, hok⟩ := exec_bind_eq_ok.mp hok
    have hb : HandlersOk { s with rcvBuf := b } :=
      ⟨⟨h.readable, h.writable⟩, h.onRead, h.onWrite⟩
    dsimp only at hok
    split_ifs at hok with hneg hintr hagain hzero
    · rw [hintr] at hread
      exact ih hb (fun t ht => hsends t (.readLoop_next hread hneg ht)) hok
    · cases hok
      exact hb
    · obtain ⟨s₁, hre, hret⟩ := exec_bind_eq_ok.mp hok
      cases hret
      exact hkept.reconnect hb.toOnlyCurrent (fun t ht => hsends t
        (.readLoop_reconnect hread (le_of_lt hneg) (fun _ => ⟨hintr, hagain⟩) ht)) hre
    · obtain ⟨s₁, hre, hret⟩ := exec_bind_eq_ok.mp hok
      cases hret
      exact hkept.reconnect hb.toOnlyCurrent (fun t ht => hsends t
        (.readLoop_reconnect hread (le_of_eq hzero) (fun h => absurd h hneg) ht)) hre
    · cases hok
      exact hb

/-- `cli_on_read` keeps the invariant behind the test of `is_dubbo_pkt`. -/
theorem HandlersOk.receivedPkt (h : HandlersOk s) (hsends : SendsConnected args fuel .receivedPkt s)
    (hok : cliReceivedPkt args fuel s = .ok s') : HandlersOk s' := by
  have hkept := handlersKept args fuel
  obtain ⟨remaining, hpkt, hok⟩ := exec_bind_eq_ok.mp hok
  cases remaining with
  | none =>
    cases hok
    exact h
  | some remaining =>
    obtain ⟨⟨ok, s₁⟩, hdecode, hok⟩ := exec_bind_eq_ok.mp hok
    have hcounted : HandlersOk { s with pipeLeft := s.pipeLeft + 1, reqLeft := s.reqLeft - 1 } :=
      ⟨⟨h.readable, h.writable⟩, h.onRead, h.onWrite⟩
    have hs₁ := hcounted.decodeResp hdecode
    dsimp only at hok
    split_ifs at hok with hlast hdecoded
    · exact hs₁.ended hok
    · rw [hdecoded] at hdecode
      exact hkept.pipeSend hs₁
        (fun t ht => hsends t (.receivedPkt_pipeSend hpkt hdecode (not_le.mp hlast) ht)) hok
    · rw [Bool.eq_false_of_not_eq_true hdecoded] at hdecode
      exact hkept.reconnect hs₁.toOnlyCurrent
        (fun t ht => hsends t (.receivedPkt_reconnect hpkt hdecode (not_le.mp hlast) ht)) hok

/-- `cli_on_read` keeps the invariant behind its loop. -/
theorem HandlersOk.received (h : HandlersOk s) (hsends : SendsConnected args fuel .received s)
    (hok : cliReceived args fuel s = .ok s') : HandlersOk s' := by
  obtain ⟨pkt, hpkt, hok⟩ := exec_bind_eq_ok.mp hok
  split_ifs at hok with hyes
  · rw [hyes] at hpkt
    exact h.receivedPkt (fun t ht => hsends t (.received_pkt hpkt ht)) hok
  · rw [Bool.eq_false_of_not_eq_true hyes] at hpkt
    obtain ⟨s₁, hre, hok⟩ := exec_bind_eq_ok.mp hok
    have hs₁ := (handlersKept args fuel).reconnect h.toOnlyCurrent
      (fun t ht => hsends t (.received_reconnect hpkt ht)) hre
    exact hs₁.receivedPkt (fun t ht => hsends t (.received_next hpkt hre ht)) hok

/-- `cli_on_read` keeps the invariant. -/
theorem HandlersOk.onReadEvent {rs : List ReadvRes} (h : HandlersOk s)
    (hsends : SendsConnected args fuel (.onRead rs) s)
    (hok : cliOnRead args fuel rs s = .ok s') : HandlersOk s' := by
  obtain ⟨u, hassert, hok⟩ := exec_bind_eq_ok.mp hok
  have hconn := of_cassert hassert
  obtain ⟨⟨go, s₁⟩, hloop, hok⟩ := exec_bind_eq_ok.mp hok
  have hs₁ := h.readLoop (fun t ht => hsends t (.onRead_readLoop hconn ht)) hloop
  dsimp only at hok
  split_ifs at hok with hgo
  · rw [hgo] at hloop
    exact hs₁.received (fun t ht => hsends t (.onRead_received hconn hloop ht)) hok
  · cases hok
    exact hs₁

/-- `cli_on_write` keeps the invariant. -/
theorem HandlersOk.onWriteEvent (h : HandlersOk s) (hsends : SendsConnected args fuel .onWrite s)
    (hok : cliOnWrite args fuel s = .ok s') : HandlersOk s' := by
  obtain ⟨u, hassert, hok⟩ := exec_bind_eq_ok.mp hok
  have hconn := of_cassert hassert
  obtain ⟨⟨ok, s₁⟩, hwrite, hok⟩ := exec_bind_eq_ok.mp hok
  obtain ⟨hs₁, hconn₁⟩ := h.toOnlyCurrent.write (cliWrite_ok hwrite)
  dsimp only at hok
  split_ifs at hok with hdone
  · cases hok
    exact hs₁.ok (hconn₁.trans hconn)
  · rw [Bool.eq_false_of_not_eq_true hdone] at hwrite
    exact (handlersKept args fuel).reconnect hs₁
      (fun t ht => hsends t (.onWrite_reconnect hconn hwrite ht)) hok

/-- `cli_on_connect` keeps the invariant. -/
theorem HandlersOk.onConnectEvent {fd : Int} {writable : Bool} (h : HandlersOk s)
    (hsends : SendsConnected args fuel (.onConnect fd writable) s)
    (hok : cliOnConnect args fuel fd writable s = .ok s') : HandlersOk s' := by
  have hkept := handlersKept args fuel
  rw [cliOnConnect] at hok
  split_ifs at hok with hmask
  · subst hmask
    obtain ⟨s₁, hdel, hok⟩ := exec_bind_eq_ok.mp hok
    obtain ⟨⟨ok, s₂⟩, hconn, hret⟩ := exec_bind_eq_ok.mp hok
    have hs₁ := h.deleteWritable hdel
    cases hret
    exact hkept.connected hs₁.toOnlyCurrent
      (fun t ht => hsends t (.onConnect_connected hdel ht)) hconn
  · obtain rfl := Bool.eq_false_of_not_eq_true hmask
    exact hkept.reconnect h.toOnlyCurrent (fun t ht => hsends t (.onConnect_reconnect ht)) hok

/-- **One event keeps the invariant**, when its handler sends on a connection that is up only. -/
theorem HandlersOk.handle {e : AeEvent} {u : Unit} (h : HandlersOk s)
    (hsends : EventSendsConnected args fuel s e) (hok : cliHandle args fuel s e = .ok (u, s')) :
    HandlersOk s' := by
  rcases cliHandle_ok hok with rfl | ⟨hlive, hreg, hhandler⟩
  · exact h
  · have hcall := hsends hlive hreg
    cases e with
    | read fd rs => exact h.onReadEvent hcall hhandler
    | write fd => exact h.onWriteEvent hcall hhandler
    | connect fd writable => exact h.onConnectEvent hcall hhandler
    | timeout =>
      exact (handlersKept args fuel).reconnect h.toOnlyCurrent
        (fun t ht => hcall t (.connectTimeout_reconnect ht)) hhandler

end Calls

/-! ### Runs -/

/-- In the state `s` the assertions of `cli_on_read` and `cli_on_write` hold, whichever handler is
called. -/
def HandlersConnected (s : CliState) : Prop :=
  ∀ fd, s.readable fd = true ∨ s.writable fd = some .onWrite → s.connected = true

/-- The invariant gives the assertions. -/
theorem HandlersOk.handlersConnected {s : CliState} (h : HandlersOk s) : HandlersConnected s := by
  rintro fd (hread | hwrite)
  · by_cases hfd : fd = s.fd
    · exact h.onRead (hfd ▸ hread)
    · rw [h.readable fd hfd] at hread
      cases hread
  · by_cases hfd : fd = s.fd
    · exact h.onWrite (hfd ▸ hwrite)
    · rw [h.writable fd hfd] at hwrite
      cases hwrite

/-- The client is started and handles the events, and every handler sends requests on a connection
that is up only. -/
structure ConnectedRun (args : CliArgs) (fuel : Nat) (pipeN reqN : Int) (lastReqid : Int64)
    (net : Net) (events : List AeEvent) (s : CliState) : Prop where
  /-- What `cli_start` sends. -/
  start : ∀ s₀, cliCreate pipeN reqN lastReqid net = .ok s₀ → SendsConnected args fuel .start s₀
  /-- The run, and what the handlers send. -/
  run : ∃ ok s₁ rs, dubboBenchAsync args fuel pipeN reqN lastReqid net = .ok (ok, s₁)
    ∧ Admissible (cliHandle args fuel) (EventSendsConnected args fuel) s₁ events
    ∧ runOps (cliHandle args fuel) s₁ events = .ok (rs, s)

/-- `cli_start` establishes the invariant. -/
theorem dubboBenchAsync_handlersOk {args : CliArgs} {fuel : Nat} {pipeN reqN : Int}
    {lastReqid : Int64} {net : Net} {ok : Bool} {s : CliState}
    (hsends : ∀ s₀, cliCreate pipeN reqN lastReqid net = .ok s₀ →
      SendsConnected args fuel .start s₀)
    (hok : dubboBenchAsync args fuel pipeN reqN lastReqid net = .ok (ok, s)) : HandlersOk s := by
  obtain ⟨s₀, hcreate, hstart⟩ := exec_bind_eq_ok.mp hok
  have hcall := hsends s₀ hcreate
  obtain ⟨rcvBuf, -, hcreate⟩ := exec_bind_eq_ok.mp hcreate
  obtain ⟨sndBuf, -, hcreate⟩ := exec_bind_eq_ok.mp hcreate
  cases hcreate
  exact (handlersKept args fuel).connect ⟨fun _ => rfl, fun _ => rfl⟩
    (fun t ht => hcall t (.start_connect rfl ht)) hstart

/-- **The assertions of the handlers hold in every state of a run in which every request is sent on
a connection that is up.** -/
theorem cli_handlers_connected (args : CliArgs) (fuel : Nat) (pipeN reqN : Int) (lastReqid : Int64)
    (net : Net) (events : List AeEvent) (s : CliState)
    (h : ConnectedRun args fuel pipeN reqN lastReqid net events s) : HandlersConnected s := by
  obtain ⟨ok, s₁, rs, hstart, hadm, hrun⟩ := h.run
  have hs₁ := dubboBenchAsync_handlersOk h.start hstart
  have hs := runOps_invariant_state
    (fun s e u s' hI hpre hok => HandlersOk.handle hI hpre hok) hs₁ hadm hrun
  exact hs.handlersConnected

/-- A system on which `connect` succeeds at once and the first `write` would block. -/
def slowNet : Net where
  sockets _ := 3
  connects _ := ⟨0, 0⟩
  writes n := if n = 0 then ⟨-1, eagain⟩ else ⟨100, 0⟩
  adds _ := true
  timers _ := true

/-- Nothing fails on it. -/
theorem slowNet_healthy : Healthy slowNet where
  socket_nonneg := by decide
  socket_lt := by decide
  connect := .inl rfl
  timer := rfl
  flowing := {
    adds := fun _ => rfl
    writes := fun n => by
      cases n with
      | zero => exact .inr (.inr rfl)
      | succ n => exact .inl (show (0 : Int) < 100 by decide)
    progress := fun n => ⟨1, fun h => absurd h.1 (show ¬ (100 : Int) ≤ 0 by decide)⟩ }

/-- Starting a client that is to send one request on it. -/
theorem slowNet_bench :
    Settles (fun fuel => dubboBenchAsync shortArgs fuel 1 1 0 slowNet)
      fun r => r.1 = true ∧ Opened 1 1 r.2 :=
  slowNet_healthy.bench_now shortArgs_encodes rfl rfl (by decide)

/-- The first request waits for `cli_on_write`. -/
theorem cli_handlers_connected_slow :
    ∃ fuel s, ConnectedRun shortArgs fuel 1 1 0 slowNet [.write 3] s
      ∧ s.readable s.fd = true ∧ s.connected = true := by
  have hroom : 1032 + 1 * maxReqFrame < 2 ^ 64 := by decide
  obtain ⟨N, ⟨ok, s₁⟩, hstart, -, hs₁⟩ := slowNet_bench
  obtain ⟨M, ⟨u, s⟩, hwrite, hsent⟩ := hs₁.toUp.handle_write shortArgs 3
  have hread := hsent.registered hs₁.registered
  have hrun : ConnectedRun shortArgs (max N M) 1 1 0 slowNet [.write 3] s := {
    start := fun s₀ hcreate =>
      slowNet_healthy.start_sendsConnected shortArgs_encodes (n := 1) rfl hroom hcreate
    run := by
      refine ⟨ok, s₁, [u], hstart _ (le_max_left N M), ⟨?_, fun _ _ _ => trivial⟩, ?_⟩
      · intro _ _
        exact hs₁.toUp.onWrite_sendsConnected
      · have hone : cliHandle shortArgs (max N M) s₁ (.write 3) = .ok (u, s) :=
          hwrite _ (le_max_right N M)
        rw [runOps, hone]
        rfl }
  exact ⟨max N M, s, hrun, hread,
    cli_handlers_connected shortArgs (max N M) 1 1 0 slowNet [.write 3] s hrun s.fd (.inl hread)⟩

/-- A system on which the connection is in progress and is then refused: the first `write` fails
with `ECONNREFUSED`, and behind it a `write` would block. -/
def refusedNet : Net where
  sockets _ := 3
  connects _ := ⟨-1, einprogress⟩
  writes n := if n = 0 then ⟨-1, 111⟩ else ⟨-1, eagain⟩
  adds _ := true
  timers _ := true

/-- The client that sends its request on a refused connection goes on with a connection that is in
progress; `cli_on_write` is registered there, and its assertion fails. -/
theorem cli_on_write_not_connected :
    ∃ ok s₁ rs s, dubboBenchAsync shortArgs 10 1 1 0 refusedNet = .ok (ok, s₁)
      ∧ runOps (cliHandle shortArgs 10) s₁ [.connect 3 true] = .ok (rs, s)
      ∧ s.writable s.fd = some .onWrite ∧ s.connected = false
      ∧ cliHandle shortArgs 10 s (.write s.fd) = .error .assertFailed := by
  have hrun : Returns (dubboBenchAsync shortArgs 10 1 1 0 refusedNet) fun r =>
      Returns (runOps (cliHandle shortArgs 10) r.2 [.connect 3 true]) fun p =>
        p.2.writable p.2.fd = some .onWrite ∧ p.2.connected = false ∧ p.2.stopped = false := by
    decide +kernel
  obtain ⟨⟨ok, s₁⟩, hstart, ⟨rs, s⟩, hrun, hwrite, hconn, hlive⟩ := hrun
  refine ⟨ok, s₁, rs, s, hstart, hrun, hwrite, hconn, ?_⟩
  have hno : ¬ s.connected = true := by
    rw [hconn]
    exact Bool.false_ne_true
  rw [cliHandle, if_pos ⟨hlive, hwrite⟩]
  simp only [AeEvent.handler, cliOnWrite, cassert_bind_of_not hno, exec_error_bind]

end Wee
