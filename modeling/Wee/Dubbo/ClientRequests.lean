import Wee.Dubbo.ClientHandlers

/-! # How many requests are sent

Each response makes room in the pipe for one more request, and each request takes that room again;
the last response ends the client. So the requests that wait for a response are never more than the
pipe takes. But the responses still awaited do not limit what is sent: while the last responses of a
pipe of more than one request arrive, the client goes on sending. -/

namespace Wee

/-! ### Sending is accounted for -/

/-- `s'` comes from `s` by sending requests: each takes its room in the pipe, and the client waits
for as many responses as before. -/
structure SendsOnly (s s' : CliState) : Prop where
  /-- What is sent and what there is room for. -/
  balance : (s'.requests : Int) + s'.pipeLeft = s.requests + s.pipeLeft
  /-- The room that is left. -/
  room : 0 ≤ s.pipeLeft → 0 ≤ s'.pipeLeft
  /-- The responses awaited. -/
  reqLeft : s'.reqLeft = s.reqLeft
  /-- The responses decoded. -/
  decoded : s'.decoded = s.decoded
  /-- The client runs as before. -/
  run : s'.run = s.run
  /-- The event loop runs as before. -/
  stopped : s'.stopped = s.stopped

section Accounting

variable {args : CliArgs} {fuel : Nat} {s s' s'' : CliState} {ok : Bool}

/-- Nothing is sent. -/
theorem SendsOnly.refl (s : CliState) : SendsOnly s s := ⟨rfl, id, rfl, rfl, rfl, rfl⟩

/-- Sending, then sending. -/
theorem SendsOnly.trans (h : SendsOnly s s') (h' : SendsOnly s' s'') : SendsOnly s s'' where
  balance := h'.balance.trans h.balance
  room := h'.room ∘ h.room
  reqLeft := h'.reqLeft.trans h.reqLeft
  decoded := h'.decoded.trans h.decoded
  run := h'.run.trans h.run
  stopped := h'.stopped.trans h.stopped

/-- Writing sends no request. -/
theorem CliWrites.sendsOnly (h : CliWrites s s') : SendsOnly s s' := by
  obtain ⟨sndBuf, net, written, writable, rfl, -⟩ := h
  exact ⟨rfl, id, rfl, rfl, rfl, rfl⟩

/-- **`cli_send_req`** without a reconnect is one request. -/
theorem cliSendReq_sendsOnly
    (hok : cliSendReq args fuel { s with pipeLeft := s.pipeLeft - 1 } = .ok s')
    (hleft : s.pipeLeft ≠ 0) (hno : s'.reconnects = s.reconnects) : SendsOnly s s' := by
  cases fuel with
  | zero => cases hok
  | succ fuel =>
    obtain ⟨frame, sndBuf, ok, s₁, -, -, hwrite, hrest⟩ := cliSendReq_ok hok
    have hwrites := cliWrite_ok hwrite
    rcases hrest with ⟨-, rfl⟩ | ⟨-, hre⟩
    · have hone := hwrites.sendsOnly
      have hbalance : (s'.requests : Int) + s'.pipeLeft = ((s.requests + 1 : Nat) : Int)
          + (s.pipeLeft - 1) := hone.balance
      refine ⟨by omega, fun hroom => hone.room ?_, hone.reqLeft, hone.decoded, hone.run,
        hone.stopped⟩
      show 0 ≤ s.pipeLeft - 1
      omega
    · have hlt := (reconnectsKept args fuel).reconnect hre
      have hs₁ : s₁.reconnects = s.reconnects := hwrites.reconnects
      omega

/-- **`cli_pipe_send`** without a reconnect sends requests until there is no room. -/
theorem cliPipeSend_sendsOnly (hok : cliPipeSend args fuel s = .ok s')
    (hno : s'.reconnects = s.reconnects) : SendsOnly s s' := by
  induction fuel generalizing s with
  | zero => cases hok
  | succ fuel ih =>
    rcases cliPipeSend_ok hok with ⟨-, rfl⟩ | ⟨hleft, s₁, hsend, hrest⟩
    · exact .refl s'
    · -- neither the request nor the rest of the loop has reconnected
      have hkept := reconnectsKept args fuel
      have hle := hkept.sendReq hsend
      have hle' := hkept.pipeSend hrest
      change s.reconnects ≤ s₁.reconnects at hle
      have hone := cliSendReq_sendsOnly hsend hleft (by omega)
      exact hone.trans (ih hrest (by omega))

/-- **`cli_connected`** without a reconnect fills the pipe, or does nothing. -/
theorem cliConnected_sendsOnly (hok : cliConnected args fuel s = .ok (ok, s'))
    (hno : s'.reconnects = s.reconnects) : SendsOnly s s' := by
  cases fuel with
  | zero => cases hok
  | succ fuel =>
    obtain ⟨s₁, hadd, hrest⟩ := cliConnected_ok hok
    obtain ⟨net, readable, rfl, -⟩ := aeCreateReadable_ok hadd
    rcases hrest with ⟨-, hpipe⟩ | ⟨-, rfl⟩
    · have hone := cliPipeSend_sendsOnly hpipe hno
      exact ⟨hone.balance, hone.room, hone.reqLeft, hone.decoded, hone.run, hone.stopped⟩
    · exact ⟨rfl, id, rfl, rfl, rfl, rfl⟩

/-- **`cli_connect`** without a reconnect fills the pipe, or sends nothing. -/
theorem cliConnect_sendsOnly (hok : cliConnect args fuel s = .ok (ok, s'))
    (hno : s'.reconnects = s.reconnects) : SendsOnly s s' := by
  cases fuel with
  | zero => cases hok
  | succ fuel =>
    rcases cliConnect_ok hok with ⟨net, rfl⟩ | ⟨-, -, hconn⟩ | ⟨net, writable, timer, rfl, -⟩
    · exact ⟨rfl, id, rfl, rfl, rfl, rfl⟩
    · have hone := cliConnected_sendsOnly hconn hno
      exact ⟨hone.balance, hone.room, hone.reqLeft, hone.decoded, hone.run, hone.stopped⟩
    · exact ⟨rfl, id, rfl, rfl, rfl, rfl⟩

end Accounting

/-! ### Responses are accounted for -/

/-- `s'` comes from `s` by counting a response, which has been decoded or not. -/
structure Answers (ok : Bool) (s s' : CliState) : Prop where
  /-- Nothing is sent. -/
  requests : s'.requests = s.requests
  /-- There is room for one more request. -/
  pipeLeft : s'.pipeLeft = s.pipeLeft + 1
  /-- One response less is awaited. -/
  reqLeft : s'.reqLeft = s.reqLeft - 1
  /-- The responses decoded. -/
  decoded : s'.decoded.length = s.decoded.length + if ok then 1 else 0
  /-- The client runs as before. -/
  run : s'.run = s.run
  /-- The number of reconnects. -/
  reconnects : s'.reconnects = s.reconnects

/-- `cli_on_read` counts a response and decodes it. -/
theorem cliDecodeResp_answers {fuel : Nat} {s s' : CliState} {ok : Bool}
    (hok : cliDecodeResp fuel { s with pipeLeft := s.pipeLeft + 1, reqLeft := s.reqLeft - 1 }
      = .ok (ok, s')) : Answers ok s s' := by
  obtain ⟨b, ⟨rfl, rfl⟩ | ⟨rfl, res, rfl⟩⟩ := cliDecodeResp_ok hok
  · exact ⟨rfl, rfl, rfl, rfl, rfl, rfl⟩
  · refine ⟨rfl, rfl, rfl, ?_, rfl, rfl⟩
    show (s.decoded ++ [res]).length = s.decoded.length + 1
    rw [List.length_append, List.length_singleton]

/-- `cli_end` stops the event loop, and sends nothing. -/
theorem cliEnd_stopped {s s' : CliState} (hrun : s.run = true) (hok : cliEnd s = .ok s') :
    s'.stopped = true ∧ s'.requests = s.requests ∧ s'.decoded = s.decoded := by
  rcases cliEnd_ok hok with ⟨hidle, -⟩ | ⟨s₁, hclose, rfl⟩
  · exact absurd (hidle.symm.trans hrun) Bool.false_ne_true
  · obtain rfl := cliClose_ok hclose
    exact ⟨rfl, rfl, rfl⟩

/-- The client waits for responses: what is sent and what there is room for is what the pipe takes
and what has been answered; what has been answered and what is awaited is `req_n`. -/
structure Waiting (pipeN reqN : Int) (s : CliState) : Prop where
  /-- The client runs. -/
  run : s.run = true
  /-- The requests. -/
  balance : (s.requests : Int) + s.pipeLeft = pipeN + s.decoded.length
  /-- The room in the pipe. -/
  room : 0 ≤ s.pipeLeft
  /-- The responses. -/
  answered : (s.decoded.length : Int) + s.reqLeft = reqN
  /-- A response is awaited. -/
  awaited : 0 < s.reqLeft

/-- **The invariant of every run without a reconnect**: the requests that are not answered fit in
the pipe, there are less than `pipe_n` requests more than `req_n`, and until the end of the client
it waits. -/
structure Accounted (pipeN reqN : Int) (s : CliState) : Prop where
  /-- The requests that are not answered. -/
  outstanding : (s.requests : Int) - s.decoded.length ≤ pipeN
  /-- All requests. -/
  total : (s.requests : Int) < pipeN + reqN
  /-- Until the end. -/
  waiting : s.stopped = false → Waiting pipeN reqN s

section Events

variable {args : CliArgs} {fuel : Nat} {pipeN reqN : Int} {s s' : CliState}

/-- A client that waits is accounted for. -/
theorem Waiting.accounted (h : Waiting pipeN reqN s) : Accounted pipeN reqN s := by
  have hbalance := h.balance
  have hroom := h.room
  have hanswered := h.answered
  have hawaited := h.awaited
  exact ⟨by omega, by omega, fun _ => h⟩

/-- Sending keeps the balance. -/
theorem Waiting.send (h : Waiting pipeN reqN s) (hsend : SendsOnly s s') :
    Waiting pipeN reqN s' where
  run := hsend.run.trans h.run
  balance := by
    rw [hsend.decoded]
    exact hsend.balance.trans h.balance
  room := hsend.room h.room
  answered := by
    rw [hsend.decoded, hsend.reqLeft]
    exact h.answered
  awaited := hsend.reqLeft ▸ h.awaited

/-- **A response without a reconnect**: it makes room for a request, or it is the last. -/
theorem Waiting.receivedPkt (h : Waiting pipeN reqN s) (hok : cliReceivedPkt args fuel s = .ok s')
    (hno : s'.reconnects = s.reconnects) : Accounted pipeN reqN s' := by
  obtain ⟨remaining, -, hok⟩ := exec_bind_eq_ok.mp hok
  cases remaining with
  | none =>
    cases hok
    exact h.accounted
  | some remaining =>
    obtain ⟨⟨ok, s₁⟩, hdecode, hok⟩ := exec_bind_eq_ok.mp hok
    have hs₁ := cliDecodeResp_answers hdecode
    have hbalance := h.balance
    have hroom := h.room
    have hanswered := h.answered
    have hawaited := h.awaited
    have hrequests := hs₁.requests
    have hpipe := hs₁.pipeLeft
    have hleft := hs₁.reqLeft
    have hdecoded := hs₁.decoded
    dsimp only at hok hrequests hpipe hleft hdecoded
    split_ifs at hok with hlast hdone
    · -- the client ends, and sends nothing more
      obtain ⟨hstop, hreq, hdec⟩ := cliEnd_stopped (hs₁.run.trans h.run) hok
      have hle : (if ok then 1 else 0) ≤ 1 := by split_ifs <;> omega
      refine ⟨?_, ?_, fun hlive => absurd (hlive.symm.trans hstop) Bool.false_ne_true⟩
      · rw [hreq, hdec]
        omega
      · rw [hreq]
        omega
    · -- one more request may be sent
      rw [if_pos hdone] at hdecoded
      have hmore := cliPipeSend_sendsOnly hok (hno.trans hs₁.reconnects.symm)
      have hs₁' : Waiting pipeN reqN s₁ :=
        ⟨hs₁.run.trans h.run, by omega, by omega, by omega, not_le.mp hlast⟩
      exact (hs₁'.send hmore).accounted
    · have hlt := (reconnectsKept args fuel).reconnect hok
      rw [hs₁.reconnects, hno] at hlt
      exact absurd hlt (lt_irrefl _)

/-- `cli_on_read` without a reconnect. -/
theorem Waiting.onRead {rs : List ReadvRes} (h : Waiting pipeN reqN s)
    (hok : cliOnRead args fuel rs s = .ok s') (hno : s'.reconnects = s.reconnects) :
    Accounted pipeN reqN s' := by
  have hkept := reconnectsKept args fuel
  obtain ⟨-, -, hok⟩ := exec_bind_eq_ok.mp hok
  obtain ⟨⟨go, s₁⟩, hloop, hok⟩ := exec_bind_eq_ok.mp hok
  dsimp only at hok
  cases cliReadLoop_ok hloop with
  | go rcvBuf =>
    rw [if_pos rfl] at hok
    obtain ⟨pkt, -, hok⟩ := exec_bind_eq_ok.mp hok
    split_ifs at hok
    · have hread : Waiting pipeN reqN { s with rcvBuf := rcvBuf } :=
        ⟨h.run, h.balance, h.room, h.answered, h.awaited⟩
      exact hread.receivedPkt hok hno
    · obtain ⟨s₂, hre, hok⟩ := exec_bind_eq_ok.mp hok
      have hlt := hkept.reconnect hre
      have hle := reconnects_receivedPkt hok
      change s.reconnects < s₂.reconnects at hlt
      omega
  | lost rcvBuf hre =>
    rw [if_neg Bool.false_ne_true] at hok
    cases hok
    have hlt := hkept.reconnect hre
    change s.reconnects < s'.reconnects at hlt
    omega

/-- `cli_on_write` without a reconnect. -/
theorem Waiting.onWrite (h : Waiting pipeN reqN s) (hok : cliOnWrite args fuel s = .ok s')
    (hno : s'.reconnects = s.reconnects) : Accounted pipeN reqN s' := by
  obtain ⟨-, -, hok⟩ := exec_bind_eq_ok.mp hok
  obtain ⟨⟨ok, s₁⟩, hwrite, hok⟩ := exec_bind_eq_ok.mp hok
  have hwrites := cliWrite_ok hwrite
  dsimp only at hok
  split_ifs at hok
  · cases hok
    exact (h.send hwrites.sendsOnly).accounted
  · have hlt := (reconnectsKept args fuel).reconnect hok
    rw [hwrites.reconnects] at hlt
    omega

/-- `cli_on_connect` without a reconnect. -/
theorem Waiting.onConnect {fd : Int} {writable : Bool} (h : Waiting pipeN reqN s)
    (hok : cliOnConnect args fuel fd writable s = .ok s') (hno : s'.reconnects = s.reconnects) :
    Accounted pipeN reqN s' := by
  rw [cliOnConnect] at hok
  split_ifs at hok
  · obtain ⟨s₁, hdel, hok⟩ := exec_bind_eq_ok.mp hok
    obtain ⟨⟨ok, s₂⟩, hconn, hret⟩ := exec_bind_eq_ok.mp hok
    cases hret
    obtain rfl := aeDeleteWritable_ok hdel
    have hone := cliConnected_sendsOnly hconn hno
    exact (h.send ⟨hone.balance, hone.room, hone.reqLeft, hone.decoded, hone.run,
      hone.stopped⟩).accounted
  · have hlt := (reconnectsKept args fuel).reconnect hok
    omega

/-- **One event without a reconnect keeps the accounts.** -/
theorem Accounted.handle {e : AeEvent} {u : Unit} (h : Accounted pipeN reqN s)
    (hok : cliHandle args fuel s e = .ok (u, s')) (hno : s'.reconnects = s.reconnects) :
    Accounted pipeN reqN s' := by
  rcases cliHandle_ok hok with rfl | ⟨hlive, -, hhandler⟩
  · exact h
  · have hwaiting := h.waiting hlive
    cases e with
    | read fd rs => exact hwaiting.onRead hhandler hno
    | write fd => exact hwaiting.onWrite hhandler hno
    | connect fd writable => exact hwaiting.onConnect hhandler hno
    | timeout =>
      have hlt := (reconnectsKept args fuel).reconnect hhandler
      omega

end Events

/-! ### Runs -/

/-- The client is started, and handles the events. -/
def CliRun (args : CliArgs) (fuel : Nat) (pipeN reqN : Int) (lastReqid : Int64) (net : Net)
    (events : List AeEvent) (s : CliState) : Prop :=
  ∃ ok s₁ rs, dubboBenchAsync args fuel pipeN reqN lastReqid net = .ok (ok, s₁)
    ∧ runOps (cliHandle args fuel) s₁ events = .ok (rs, s)

/-- A run that has been evaluated. -/
theorem CliRun.of_returns {args : CliArgs} {fuel : Nat} {pipeN reqN : Int} {lastReqid : Int64}
    {net : Net} {events : List AeEvent} {P : CliState → Prop}
    (h : Returns (dubboBenchAsync args fuel pipeN reqN lastReqid net) fun r =>
      Returns (runOps (cliHandle args fuel) r.2 events) fun p => P p.2) :
    ∃ s, CliRun args fuel pipeN reqN lastReqid net events s ∧ P s := by
  obtain ⟨⟨ok, s₁⟩, hstart, ⟨rs, s⟩, hrun, hP⟩ := h
  exact ⟨s, ⟨ok, s₁, rs, hstart, hrun⟩, hP⟩

/-- No more than `req_n` requests have been sent, and of these at most `pipe_n` and at most `req_n`
have not been answered. -/
def SendsAtMost (pipeN reqN : Int) (s : CliState) : Prop :=
  (s.requests : Int) ≤ reqN ∧ (s.requests : Int) - s.decoded.length ≤ min pipeN reqN

/-- Starting a client without a reconnect. -/
theorem dubboBenchAsync_waiting {args : CliArgs} {fuel : Nat} {pipeN reqN : Int} {lastReqid : Int64}
    {net : Net} {ok : Bool} {s : CliState} (hp : 0 < pipeN) (hr : 0 < reqN)
    (hok : dubboBenchAsync args fuel pipeN reqN lastReqid net = .ok (ok, s))
    (hno : s.reconnects = 0) : Waiting (min pipeN reqN) reqN s := by
  obtain ⟨s₀, hcreate, hstart⟩ := exec_bind_eq_ok.mp hok
  obtain ⟨rcvBuf, -, hcreate⟩ := exec_bind_eq_ok.mp hcreate
  obtain ⟨sndBuf, -, hcreate⟩ := exec_bind_eq_ok.mp hcreate
  cases hcreate
  have hpipe : (if reqN < pipeN then reqN else pipeN) = min pipeN reqN := by
    split_ifs with hlt
    · exact (min_eq_right (le_of_lt hlt)).symm
    · exact (min_eq_left (not_lt.mp hlt)).symm
  refine Waiting.send ?_ (cliConnect_sendsOnly hstart hno)
  refine ⟨rfl, ?_, ?_, ?_, hr⟩
  · show ((0 : Nat) : Int) + (if reqN < pipeN then reqN else pipeN)
      = min pipeN reqN + ((0 : Nat) : Int)
    omega
  · show 0 ≤ if reqN < pipeN then reqN else pipeN
    omega
  · show ((0 : Nat) : Int) + reqN = reqN
    omega

/-- **Every run without a reconnect is accounted for.** -/
theorem CliRun.accounted {args : CliArgs} {fuel : Nat} {pipeN reqN : Int} {lastReqid : Int64}
    {net : Net} {events : List AeEvent} {s : CliState} (hp : 0 < pipeN) (hr : 0 < reqN)
    (h : CliRun args fuel pipeN reqN lastReqid net events s) (hno : s.reconnects = 0) :
    Accounted (min pipeN reqN) reqN s := by
  obtain ⟨ok, s₁, rs, hstart, hrun⟩ := h
  refine runOps_invariant_state (I := fun s => s.reconnects = 0 → Accounted (min pipeN reqN) reqN s)
    (fun s e u s' hI _ hok hno' => ?_) (fun hno₁ => ?_) (admissible_true _ s₁ events) hrun hno
  · -- a run that has not reconnected in the end never has
    have hle := reconnects_handle hok
    exact (hI (by omega)).handle hok (by omega)
  · exact (dubboBenchAsync_waiting hp hr hstart hno₁).accounted

/-! ### Responses one at a time -/

section Responses

variable {args : CliArgs} {f : ResFrame} {s : CliState}

/-- **A response that is not the last, in an event of its own**: one more request is sent. -/
theorem Ready.handle_frame (hargs : RequestEncodes args) (h : Ready s) (hmore : 1 < s.reqLeft)
    (hempty : bufBytes s.rcvBuf = []) (hf : f.SingleChunk) (hsmall : f.bytes.length ≤ extrabufSize)
    (hsnd : s.sndBuf.sz + maxReqFrame < 2 ^ 64) (hrcv : s.rcvBuf.sz + f.bytes.length < 2 ^ 64) :
    Settles (fun fuel => cliHandle args fuel s (.read s.fd [.got f.bytes])) fun r =>
      Ready r.2 ∧ bufBytes r.2.rcvBuf = [] ∧ r.2.rcvBuf.sz ≤ s.rcvBuf.sz + f.bytes.length
        ∧ r.2.sndBuf.sz ≤ s.sndBuf.sz + maxReqFrame ∧ r.2.reqLeft = s.reqLeft - 1
        ∧ r.2.decoded.length = s.decoded.length + 1 ∧ r.2.reconnects = s.reconnects := by
  have hne : f.bytes ≠ [] := fun hnil => by
    have hlen := f.length_bytes
    rw [hnil, List.length_nil] at hlen
    omega
  obtain ⟨b, hinv, hbytes, hsz, heq⟩ :=
    cliOnRead_eq args h hne (le_bufReadvRoom hsmall s.rcvBuf) hrcv
  rw [hempty, List.nil_append] at hbytes
  have hready : Ready { s with rcvBuf := b } := { h with rcv := hinv }
  have hfront : bufBytes b = f.bytes ++ [] := by rw [hbytes, List.append_nil]
  have hfires : s.stopped = false ∧ (AeEvent.read s.fd [.got f.bytes]).Registered s :=
    ⟨h.live, h.registered⟩
  simp only [cliHandle, if_pos hfires, AeEvent.handler, heq]
  refine (cliReceived_more hargs hready hmore hf hfront hsnd).bind fun s' hs' => ?_
  obtain ⟨hready', hempty', hrsz, hssz, hleft, hdec, hrec⟩ := hs'
  refine ⟨0, ((), s'), fun _ _ => rfl, hready', hempty', ?_, hssz, hleft, ?_, hrec⟩
  · exact le_trans (le_of_eq hrsz) hsz
  · rw [hdec, List.length_append, List.length_singleton]

/-- **Any number of responses before the last**, each in an event of its own. -/
theorem Ready.feed (hargs : RequestEncodes args) (hf : f.SingleChunk)
    (hsmall : f.bytes.length ≤ extrabufSize) (k : Nat) (h : Ready s) (hmore : (k : Int) < s.reqLeft)
    (hempty : bufBytes s.rcvBuf = []) (hsnd : s.sndBuf.sz + k * maxReqFrame < 2 ^ 64)
    (hrcv : s.rcvBuf.sz + k * f.bytes.length < 2 ^ 64) :
    ∃ events, Settles (fun fuel => runOps (cliHandle args fuel) s events) fun r =>
      Ready r.2 ∧ r.2.decoded.length = s.decoded.length + k ∧ r.2.reconnects = s.reconnects := by
  induction k generalizing s with
  | zero => exact ⟨[], settles_ok_iff.mpr ⟨h, rfl, rfl⟩⟩
  | succ k ih =>
    rw [Nat.succ_mul] at hsnd hrcv
    obtain ⟨N, ⟨u, s₁⟩, hone, hready, hempty₁, hrsz, hssz, hleft, hdec, hrec⟩ :=
      h.handle_frame hargs (by omega) hempty hf hsmall (by omega) (by omega)
    dsimp only at hready hempty₁ hrsz hssz hleft hdec hrec
    obtain ⟨events, hrest⟩ := ih hready (by omega) hempty₁ (by omega) (by omega)
    refine ⟨.read s.fd [.got f.bytes] :: events, (settles_runOps_cons hone (Q := fun s' =>
      Ready s' ∧ s'.decoded.length = s.decoded.length + (k + 1)
        ∧ s'.reconnects = s.reconnects)).mpr ?_⟩
    refine hrest.imp fun r hr => ⟨hr.1, ?_, hr.2.2.trans hrec⟩
    rw [hr.2.1, hdec]
    omega

end Responses

/-- **A pipe of more than one request sends one too many**, when the responses arrive one at a
time. -/
theorem cli_sends_too_many {pipeN reqN : Int} (hp : 1 < pipeN) (hr : 1 < reqN)
    (hint : reqN < 2 ^ 31) :
    ∃ fuel events s, CliRun shortArgs fuel pipeN reqN 0 slowNet events s ∧ s.reconnects = 0
      ∧ (s.requests : Int) = reqN + 1 := by
  obtain ⟨n, hn⟩ : ∃ n : Nat, min reqN pipeN = n := ⟨(min reqN pipeN).toNat, by omega⟩
  obtain ⟨k, hk⟩ : ∃ k : Nat, reqN - n + 1 = k := ⟨(reqN - n + 1).toNat, by omega⟩
  have hmax : maxReqFrame = 8208 := rfl
  have hsmall : nullFrame.bytes.length ≤ 64 := by decide
  have hextra : nullFrame.bytes.length ≤ extrabufSize := by decide
  have hsingle : nullFrame.SingleChunk := fun s hs => nomatch hs
  have hbench : Settles (fun fuel => dubboBenchAsync shortArgs fuel pipeN reqN 0 slowNet)
      fun r => r.1 = true ∧ Opened reqN n r.2 :=
    slowNet_healthy.bench_now shortArgs_encodes rfl hn (by rw [hmax]; omega)
  obtain ⟨N, ⟨ok, s₁⟩, hstart, -, hs₁⟩ := hbench
  dsimp only at hs₁
  have hssz := hs₁.snd_sz
  have hrsz := hs₁.rcv_sz
  have hleft := hs₁.reqLeft
  -- all but `n - 1` of the responses arrive
  obtain ⟨events, M, ⟨rs, s⟩, hrun, hready, hdec, hrec⟩ :=
    hs₁.toReady.feed shortArgs_encodes hsingle hextra k (by omega) hs₁.empty
      (by rw [hmax] at hssz ⊢; omega) (by
        have hle := Nat.mul_le_mul_left k hsmall
        omega)
  have hcli : CliRun shortArgs (max N M) pipeN reqN 0 slowNet events s :=
    ⟨ok, s₁, rs, hstart _ (le_max_left N M), hrun _ (le_max_right N M)⟩
  have hno : s.reconnects = 0 := hrec.trans hs₁.reconnects
  have hwaiting := (hcli.accounted (by omega) (by omega) hno).waiting hready.live
  have hbalance := hwaiting.balance
  rw [hready.pipe, hdec, hs₁.decoded, List.length_nil] at hbalance
  exact ⟨max N M, events, s, hcli, hno, by omega⟩

/-- **The client sends at most `req_n` requests in every run without a reconnect exactly when the
pipe or the run is of one request.** -/
theorem cli_sends_at_most_iff (pipeN reqN : Int) (hp : 0 < pipeN) (hr : 0 < reqN)
    (hint : reqN < 2 ^ 31) :
    (∀ args fuel lastReqid net events s,
        CliRun args fuel pipeN reqN lastReqid net events s → s.reconnects = 0 →
          SendsAtMost pipeN reqN s) ↔
      pipeN = 1 ∨ reqN = 1 := by
  constructor
  · intro hall
    by_contra hno
    have hpipe : 1 < pipeN := by omega
    obtain ⟨fuel, events, s, hrun, hzero, hmany⟩ := cli_sends_too_many hpipe (by omega) hint
    have hle := (hall shortArgs fuel 0 slowNet events s hrun hzero).1
    omega
  · intro hone args fuel lastReqid net events s hrun hzero
    have hacc := hrun.accounted hp hr hzero
    have htotal := hacc.total
    exact ⟨by omega, hacc.outstanding⟩

/-- A pipe of one request: the second request is sent when the first response arrives. -/
theorem cli_sends_at_most_iff_one :
    ∃ s, CliRun shortArgs 10 1 2 0 slowNet [.read 3 [.got nullFrame.bytes]] s ∧ s.requests = 2
      ∧ SendsAtMost 1 2 s := by
  obtain ⟨s, hcli, hno, htwo⟩ : ∃ s, CliRun shortArgs 10 1 2 0 slowNet
      [.read 3 [.got nullFrame.bytes]] s ∧ s.reconnects = 0 ∧ s.requests = 2 :=
    CliRun.of_returns (by decide +kernel)
  have hall := (cli_sends_at_most_iff 1 2 (by decide) (by decide) (by decide)).mpr (.inl rfl)
  exact ⟨s, hcli, htwo, hall shortArgs 10 0 slowNet _ s hcli hno⟩

/-- A client that is asked for two requests, with room for two in the pipe, sends a third one when
the first response arrives. -/
theorem cli_sends_third_request :
    ∃ s, CliRun shortArgs 10 2 2 0 slowNet [.read 3 [.got nullFrame.bytes]] s ∧ s.reconnects = 0
      ∧ s.stopped = false ∧ s.requests = 3 ∧ ¬ SendsAtMost 2 2 s := by
  obtain ⟨s, hcli, hno, hlive, hthree⟩ : ∃ s, CliRun shortArgs 10 2 2 0 slowNet
      [.read 3 [.got nullFrame.bytes]] s ∧ s.reconnects = 0 ∧ s.stopped = false ∧ s.requests = 3 :=
    CliRun.of_returns (by decide +kernel)
  refine ⟨s, hcli, hno, hlive, hthree, fun hmost => ?_⟩
  have hle := hmost.1
  omega

end Wee
