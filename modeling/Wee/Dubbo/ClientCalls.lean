import Wee.Dubbo.Client

/-! # What the functions of the client can do

One inversion lemma for each function of the client: when a call returns, these are the ways it can
have gone, and this is the state behind it. Statements about runs are derived from these lemmas,
without another look at the functions. -/

namespace Wee

variable {args : CliArgs} {fuel : Nat} {s s' : CliState} {fd : Int} {ok : Bool}

/-! ### The event loop -/

/-- Registering `cli_on_read` touches the registrations for that descriptor only. -/
theorem aeCreateReadable_ok (h : aeCreateReadable s fd = .ok (ok, s')) :
    ∃ net readable, s' = { s with net := net, readable := readable }
      ∧ ∀ fd', fd' ≠ fd → readable fd' = s.readable fd' := by
  unfold aeCreateReadable at h
  split_ifs at h
  · cases h
    exact ⟨s.net, s.readable, rfl, fun _ _ => rfl⟩
  · cases h
    exact ⟨_, _, rfl, fun fd' hne => Function.update_of_ne hne _ _⟩
  · cases h
    exact ⟨_, s.readable, rfl, fun _ _ => rfl⟩

/-- Registering a handler for writability puts it at that descriptor, or changes nothing. -/
theorem aeCreateWritable_ok {proc : WriteProc} (h : aeCreateWritable s fd proc = .ok (ok, s')) :
    ∃ net writable, s' = { s with net := net, writable := writable }
      ∧ ∀ fd', writable fd' = s.writable fd' ∨ fd' = fd ∧ writable fd' = some proc := by
  unfold aeCreateWritable at h
  split_ifs at h
  · cases h
    exact ⟨s.net, s.writable, rfl, fun _ => .inl rfl⟩
  · cases h
    refine ⟨_, _, rfl, fun fd' => ?_⟩
    by_cases heq : fd' = fd
    · refine .inr ⟨heq, ?_⟩
      rw [heq, Function.update_self]
    · exact .inl (Function.update_of_ne heq _ _)
  · cases h
    exact ⟨_, s.writable, rfl, fun _ => .inl rfl⟩

/-- Removing the handler for writability. -/
theorem aeDeleteWritable_ok (h : aeDeleteWritable s fd = .ok s') :
    s' = { s with writable := Function.update s.writable fd none } := by
  unfold aeDeleteWritable at h
  split_ifs at h
  cases h
  rfl

/-- Closing removes the handlers of the descriptor and resets the client. -/
theorem cliClose_ok (h : cliClose s = .ok s') :
    s' = cliReset { s with readable := Function.update s.readable s.fd false,
                           writable := Function.update s.writable s.fd none } := by
  obtain ⟨s₁, hdel, hreset⟩ := exec_bind_eq_ok.mp h
  unfold aeDeleteReadWritable at hdel
  split_ifs at hdel
  cases hdel
  cases hreset
  rfl

/-- Ending a client that runs closes it and stops the event loop. -/
theorem cliEnd_ok (h : cliEnd s = .ok s') :
    s.run = false ∧ s' = s
      ∨ ∃ s₁, cliClose s = .ok s₁
        ∧ s' = { cliClearTimer s₁ with run := false, stopped := true } := by
  rw [cliEnd] at h
  split_ifs at h with hrun
  · obtain ⟨s₁, hclose, hret⟩ := exec_bind_eq_ok.mp h
    cases hret
    exact .inr ⟨s₁, hclose, rfl⟩
  · cases h
    exact .inl ⟨Bool.eq_false_of_not_eq_true hrun, rfl⟩

/-! ### Writing and encoding -/

/-- `s'` comes from `s` by writing: nothing but the send buffer, the calls to come, the bytes
written and the handler for writability of the current descriptor has changed, and `cli_on_connect`
has not been registered. -/
def CliWrites (s s' : CliState) : Prop :=
  ∃ sndBuf net written writable,
    s' = { s with sndBuf := sndBuf, net := net, written := written, writable := writable }
      ∧ ∀ fd, writable fd = s.writable fd ∨ fd = s.fd ∧ writable fd ≠ some .onConnect

/-- The loop of `cli_write` registers nothing. -/
theorem cliWriteLoop_ok {nwritten errno : Int} {r : Int × Int × CliState}
    (h : cliWriteLoop fuel s nwritten errno = .ok r) :
    ∃ sndBuf net written,
      r.2.2 = { s with sndBuf := sndBuf, net := net, written := written } := by
  induction fuel generalizing s nwritten errno with
  | zero => cases h
  | succ fuel ih =>
    rw [cliWriteLoop] at h
    split_ifs at h
    · cases h
      exact ⟨_, _, _, rfl⟩
    · obtain ⟨sndBuf, net, written, heq⟩ := ih h
      exact ⟨sndBuf, net, written, heq⟩
    · cases h
      exact ⟨_, _, _, rfl⟩
    · obtain ⟨accepted, -, h⟩ := exec_bind_eq_ok.mp h
      obtain ⟨b, -, h⟩ := exec_bind_eq_ok.mp h
      obtain ⟨sndBuf, net, written, heq⟩ := ih h
      exact ⟨sndBuf, net, written, heq⟩

/-- Removing the handler of the current descriptor is what `cli_write` may do. -/
theorem cliWrites_delete (s : CliState) (sndBuf : Buffer) (net : Net) (written : List UInt8) :
    CliWrites s { s with sndBuf := sndBuf, net := net, written := written,
                         writable := Function.update s.writable s.fd none } := by
  refine ⟨sndBuf, net, written, _, rfl, fun fd => ?_⟩
  by_cases heq : fd = s.fd
  · refine .inr ⟨heq, ?_⟩
    rw [heq, Function.update_self]
    exact fun h => nomatch h
  · exact .inl (Function.update_of_ne heq _ _)

/-- **`cli_write`** writes. -/
theorem cliWrite_ok (h : cliWrite fuel s = .ok (ok, s')) : CliWrites s s' := by
  rw [cliWrite] at h
  split_ifs at h
  · obtain ⟨s₁, hdel, hret⟩ := exec_bind_eq_ok.mp h
    cases hret
    rw [aeDeleteWritable_ok hdel]
    exact cliWrites_delete s s.sndBuf s.net s.written
  · obtain ⟨⟨nwritten, errno, s₁⟩, hloop, h⟩ := exec_bind_eq_ok.mp h
    obtain ⟨sndBuf, net, written, hs₁⟩ := cliWriteLoop_ok hloop
    dsimp only at h hs₁
    subst hs₁
    split_ifs at h
    · -- the rest is left to `cli_on_write`
      obtain ⟨net', writable, rfl, hat⟩ := aeCreateWritable_ok h
      refine ⟨sndBuf, net', written, writable, rfl, fun fd => ?_⟩
      rcases hat fd with hkept | ⟨heq, hnew⟩
      · exact .inl hkept
      · exact .inr ⟨heq, by rw [hnew]; exact fun h => nomatch h⟩
    · cases h
      exact ⟨sndBuf, net, written, s.writable, rfl, fun _ => .inl rfl⟩
    · obtain ⟨s₂, hdel, hret⟩ := exec_bind_eq_ok.mp h
      cases hret
      rw [aeDeleteWritable_ok hdel]
      exact cliWrites_delete s sndBuf net written
    · cases h
      exact ⟨sndBuf, net, written, s.writable, rfl, fun _ => .inl rfl⟩

/-- **`cli_encode_req`** takes the next number. -/
theorem cliEncodeReq_ok {frame : List UInt8} (h : cliEncodeReq args s = .ok (frame, s')) :
    s' = { s with lastReqid := nextReqid s.lastReqid } := by
  rw [cliEncodeReq] at h
  split at h
  · cases h
  · obtain ⟨r, -, h⟩ := exec_bind_eq_ok.mp h
    split at h
    · cases h
    · obtain ⟨frame', -, h⟩ := exec_bind_eq_ok.mp h
      cases h
      rfl

/-! ### The functions that call each other -/

/-- **`cli_connected`** registers `cli_on_read`, and fills the pipe when that succeeds. -/
theorem cliConnected_ok (h : cliConnected args (fuel + 1) s = .ok (ok, s')) :
    ∃ s₁, aeCreateReadable (cliClearTimer { s with connected := true }) s.fd = .ok (ok, s₁)
      ∧ (ok = true ∧ cliPipeSend args fuel s₁ = .ok s' ∨ ok = false ∧ s' = s₁) := by
  rw [cliConnected] at h
  obtain ⟨⟨added, s₁⟩, hadd, h⟩ := exec_bind_eq_ok.mp h
  dsimp only at h
  split_ifs at h with hadded
  · obtain ⟨s₂, hpipe, hret⟩ := exec_bind_eq_ok.mp h
    cases hret
    exact ⟨s₁, hadded ▸ hadd, .inl ⟨rfl, hpipe⟩⟩
  · cases h
    obtain rfl : added = false := Bool.eq_false_of_not_eq_true hadded
    exact ⟨_, hadd, .inr ⟨rfl, rfl⟩⟩

/-- **`cli_connect`** gets no descriptor, or it is connected at once, or all it may do is to
register `cli_on_connect` and set the timer. -/
theorem cliConnect_ok (h : cliConnect args (fuel + 1) s = .ok (ok, s')) :
    (∃ net, s' = { s with net := net })
      ∨ 0 ≤ s.net.sockets 0 ∧ (s.net.connects 0).ret = 0
        ∧ cliConnected args fuel s.nextSocket.nextConnect = .ok (ok, s')
      ∨ ∃ net writable timer,
          s' = { s with fd := s.net.sockets 0, net := net, writable := writable, timer := timer }
            ∧ ∀ fd, writable fd = s.writable fd
              ∨ fd = s.net.sockets 0 ∧ writable fd = some .onConnect := by
  rw [cliConnect] at h
  split_ifs at h with hsock hret hprog
  · cases h
    exact .inl ⟨_, rfl⟩
  · exact .inr (.inl ⟨not_lt.mp hsock, hret, h⟩)
  · obtain ⟨⟨added, s₁⟩, hadd, h⟩ := exec_bind_eq_ok.mp h
    obtain ⟨net, writable, rfl, hat⟩ := aeCreateWritable_ok hadd
    dsimp only at h
    split_ifs at h
    · cases h
      exact .inr (.inr ⟨_, writable, _, rfl, hat⟩)
    · cases h
      exact .inr (.inr ⟨net, writable, s.timer, rfl, hat⟩)
  · cases h
    exact .inr (.inr ⟨_, s.writable, s.timer, rfl, fun _ => .inl rfl⟩)

/-- **`cli_reconnect`** closes the connection and connects, whether that succeeds or not. -/
theorem cliReconnect_ok (h : cliReconnect args (fuel + 1) s = .ok s') :
    ∃ s₁ ok, cliClose { s with reconnects := s.reconnects + 1 } = .ok s₁
      ∧ cliConnect args fuel s₁ = .ok (ok, s') := by
  rw [cliReconnect] at h
  obtain ⟨s₁, hclose, h⟩ := exec_bind_eq_ok.mp h
  obtain ⟨⟨ok, s₂⟩, hconn, hret⟩ := exec_bind_eq_ok.mp h
  cases hret
  exact ⟨s₁, ok, hclose, hconn⟩

/-- **`cli_send_req`** queues a frame and writes, and reconnects when that fails. -/
theorem cliSendReq_ok (h : cliSendReq args (fuel + 1) s = .ok s') :
    ∃ frame sndBuf ok s₁,
      cliEncodeReq args { s with requests := s.requests + 1 }
          = .ok (frame, { s with requests := s.requests + 1, lastReqid := nextReqid s.lastReqid })
        ∧ bufAppend s.sndBuf frame = .ok sndBuf
        ∧ cliWrite fuel { s with requests := s.requests + 1, lastReqid := nextReqid s.lastReqid,
                                 sndBuf := sndBuf } = .ok (ok, s₁)
        ∧ (ok = true ∧ s' = s₁ ∨ ok = false ∧ cliReconnect args fuel s₁ = .ok s') := by
  rw [cliSendReq] at h
  obtain ⟨⟨frame, s₁⟩, hencode, h⟩ := exec_bind_eq_ok.mp h
  obtain rfl := cliEncodeReq_ok hencode
  obtain ⟨sndBuf, happ, h⟩ := exec_bind_eq_ok.mp h
  obtain ⟨⟨ok, s₂⟩, hwrite, h⟩ := exec_bind_eq_ok.mp h
  refine ⟨frame, sndBuf, ok, s₂, hencode, happ, hwrite, ?_⟩
  dsimp only at h
  split_ifs at h with hok
  · cases h
    exact .inl ⟨hok, rfl⟩
  · exact .inr ⟨Bool.eq_false_of_not_eq_true hok, h⟩

/-- **`cli_pipe_send`** is done, or sends one request and goes on. -/
theorem cliPipeSend_ok (h : cliPipeSend args (fuel + 1) s = .ok s') :
    s.pipeLeft = 0 ∧ s' = s
      ∨ s.pipeLeft ≠ 0 ∧ ∃ s₁, cliSendReq args fuel { s with pipeLeft := s.pipeLeft - 1 } = .ok s₁
        ∧ cliPipeSend args fuel s₁ = .ok s' := by
  rw [cliPipeSend] at h
  split_ifs at h with hzero
  · cases h
    refine .inl ⟨hzero, ?_⟩
    rw [Int.sub_add_cancel]
  · obtain ⟨s₁, hsend, hrest⟩ := exec_bind_eq_ok.mp h
    exact .inr ⟨hzero, s₁, hsend, hrest⟩

/-! ### Reading -/

/-- **`cli_decode_resp`** leaves the receive buffer behind the response, which it records. -/
theorem cliDecodeResp_ok (h : cliDecodeResp fuel s = .ok (ok, s')) :
    ∃ rcvBuf, ok = false ∧ s' = { s with rcvBuf := rcvBuf }
      ∨ ok = true ∧ ∃ res, s' = { s with
          rcvBuf := rcvBuf, okN := s.okN + 1, decoded := s.decoded ++ [res] } := by
  obtain ⟨⟨res, b⟩, -, h⟩ := exec_bind_eq_ok.mp h
  cases res with
  | none =>
    cases h
    exact ⟨b, .inl ⟨rfl, rfl⟩⟩
  | some res =>
    cases h
    exact ⟨b, .inr ⟨rfl, res, rfl⟩⟩

/-- The loop of `cli_on_read` ends with `go`, or reconnects. -/
inductive ReadEnds (args : CliArgs) (fuel : Nat) (s : CliState) : Bool → CliState → Prop
  /-- Bytes have been read, or there are none for now. -/
  | go (rcvBuf : Buffer) : ReadEnds args fuel s true { s with rcvBuf := rcvBuf }
  /-- The peer has closed the connection, or reading fails. -/
  | lost (rcvBuf : Buffer) {s' : CliState} :
      cliReconnect args fuel { s with rcvBuf := rcvBuf } = .ok s' → ReadEnds args fuel s false s'

/-- **The loop of `cli_on_read`**. -/
theorem cliReadLoop_ok {rs : List ReadvRes} {go : Bool}
    (h : cliReadLoop args fuel rs s = .ok (go, s')) : ReadEnds args fuel s go s' := by
  induction rs generalizing s with
  | nil => cases h
  | cons r rs ih =>
    rw [cliReadLoop] at h
    obtain ⟨⟨n, errno, b⟩, -, h⟩ := exec_bind_eq_ok.mp h
    dsimp only at h
    split_ifs at h
    · -- interrupted, so it reads again
      generalize hs₁ : ({ s with rcvBuf := b } : CliState) = s₁ at h
      cases ih h with
      | go rcvBuf =>
        rw [← hs₁]
        exact .go rcvBuf
      | lost rcvBuf hre =>
        rw [← hs₁] at hre
        exact .lost rcvBuf hre
    · cases h
      exact .go b
    · obtain ⟨s₁, hre, hret⟩ := exec_bind_eq_ok.mp h
      cases hret
      exact .lost b hre
    · obtain ⟨s₁, hre, hret⟩ := exec_bind_eq_ok.mp h
      cases hret
      exact .lost b hre
    · cases h
      exact .go b

/-! ### Events -/

/-- **What an event does**: nothing, or its handler is called. -/
theorem cliHandle_ok {e : AeEvent} {u : Unit} (h : cliHandle args fuel s e = .ok (u, s')) :
    s' = s ∨ s.stopped = false ∧ e.Registered s ∧ e.handler args fuel s = .ok s' := by
  rw [cliHandle] at h
  split_ifs at h with hfires
  · obtain ⟨s₁, hhandler, hret⟩ := exec_bind_eq_ok.mp h
    cases hret
    exact .inr ⟨hfires.1, hfires.2, hhandler⟩
  · cases h
    exact .inl rfl

end Wee
