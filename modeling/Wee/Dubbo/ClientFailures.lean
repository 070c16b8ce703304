import Wee.Dubbo.ClientWrite

/-! # System calls that fail

`buf_readFd` hands out the value `readv` returned, not `errno`, so that the client takes every
failed read for a lost connection. And when a write fails inside `cli_pipe_send`, the reconnect puts
the counter of the loop back to where it started. -/

namespace Wee

/-! ### Failed reads -/

/-- `s'` is `s` as far as a read that returned nothing is concerned. -/
structure Untouched (s s' : CliState) : Prop where
  /-- The receive buffer. -/
  rcvBuf : s'.rcvBuf = s.rcvBuf
  /-- The room in the pipe. -/
  pipeLeft : s'.pipeLeft = s.pipeLeft
  /-- The number of responses awaited. -/
  reqLeft : s'.reqLeft = s.reqLeft
  /-- The descriptor. -/
  fd : s'.fd = s.fd
  /-- The connection is up or not, as before. -/
  connected : s'.connected = s.connected
  /-- No reconnect. -/
  reconnects : s'.reconnects = s.reconnects

/-- An interrupted read is made again: the loop of `cli_on_read` goes as if there had been none. -/
def ReadRetried (args : CliArgs) (s : CliState) : Prop :=
  ∀ rs P, Settles (fun fuel => cliReadLoop args fuel rs s) P →
    Settles (fun fuel => cliReadLoop args fuel (.fail eintr :: rs) s) P

/-- A read that would block ends `cli_on_read`, and nothing has happened. -/
def ReadReturns (args : CliArgs) (s : CliState) : Prop :=
  ∀ rs, Settles (fun fuel => cliOnRead args fuel (.fail eagain :: rs) s) (Untouched s)

/-- `buf_readFd` hands out the `errno` of a failed `readv` and leaves the buffer as it was. -/
def ErrnoPassed (b : Buffer) (errno e : Int) : Prop :=
  bufReadFd b errno (.fail e) = .ok (-1, e, b)

section Reads

variable {args : CliArgs} {fuel : Nat} {s s' : CliState} {rs : List ReadvRes} {e : Int} {go : Bool}

/-- A failed `readv` hands out `-1`, whatever `errno` is. -/
theorem bufReadFd_fail {b : Buffer} {errno : Int} {r : Int × Int × Buffer}
    (h : bufReadFd b errno (.fail e) = .ok r) : r = (-1, -1, b) := by
  obtain ⟨_, -, hret⟩ := exec_bind_eq_ok.mp h
  cases hret
  rfl

/-- **Every failed read makes the client reconnect**: `-1` is neither `EINTR` nor `EAGAIN`. -/
theorem reconnects_lt_of_fail (h : cliReadLoop args fuel (.fail e :: rs) s = .ok (go, s')) :
    go = false ∧ s.reconnects < s'.reconnects := by
  rw [cliReadLoop] at h
  obtain ⟨r, hread, h⟩ := exec_bind_eq_ok.mp h
  obtain rfl := bufReadFd_fail hread
  have hneg : (-1 : Int) < 0 := by decide
  have hintr : (-1 : Int) ≠ eintr := by decide
  have hagain : (-1 : Int) ≠ eagain := by decide
  dsimp only at h
  rw [if_pos hneg, if_neg hintr, if_neg hagain] at h
  obtain ⟨s₁, hre, hret⟩ := exec_bind_eq_ok.mp h
  cases hret
  exact ⟨rfl, (reconnectsKept args fuel).reconnect hre⟩

/-- An interrupted read never leaves the connection alone. -/
theorem not_settles_interrupted (args : CliArgs) (s : CliState) (rs : List ReadvRes) (e : Int) :
    ¬ Settles (fun fuel => cliReadLoop args fuel (.fail e :: rs) s)
      fun r => r.2.reconnects = s.reconnects := by
  rintro ⟨N, ⟨go, s'⟩, hloop, hno⟩
  have hlt := (reconnects_lt_of_fail (hloop N (le_refl N))).2
  exact absurd hno (ne_of_gt hlt)

/-- Reading again may bring a byte. -/
theorem cliReadLoop_got (args : CliArgs) (h : BufInv s.rcvBuf) (hsz : s.rcvBuf.sz + 1 < 2 ^ 64) :
    Settles (fun fuel => cliReadLoop args fuel [.got [0]] s)
      fun r => r.2.reconnects = s.reconnects := by
  have hw := h.write_le_sz
  have hroom : [(0 : UInt8)].length ≤ bufReadvRoom s.rcvBuf :=
    le_bufReadvRoom (by decide) s.rcvBuf
  obtain ⟨⟨n, errno, b⟩, hread, hn, -⟩ := h.readFd_spec 0 hroom (by
    rw [List.length_singleton]
    omega)
  obtain rfl : n = 1 := hn
  refine ⟨0, (true, { s with rcvBuf := b }), fun fuel _ => ?_, rfl⟩
  show cliReadLoop args fuel [.got [0]] s = _
  rw [cliReadLoop, hread, exec_ok_bind]
  rfl

/-- So it is not made again. -/
theorem not_readRetried (args : CliArgs) (h : BufInv s.rcvBuf) (hsz : s.rcvBuf.sz + 1 < 2 ^ 64) :
    ¬ ReadRetried args s := fun hretried =>
  not_settles_interrupted args s [.got [0]] eintr (hretried _ _ (cliReadLoop_got args h hsz))

/-- A read that would block does not leave the connection alone. -/
theorem not_readReturns (args : CliArgs) (s : CliState) : ¬ ReadReturns args s := by
  intro hreturns
  obtain ⟨N, s', hread, hsame⟩ := hreturns []
  obtain ⟨-, -, hok⟩ := exec_bind_eq_ok.mp (hread N (le_refl N))
  obtain ⟨⟨go, s₁⟩, hloop, hok⟩ := exec_bind_eq_ok.mp hok
  obtain ⟨rfl, hlt⟩ := reconnects_lt_of_fail hloop
  cases hok
  exact absurd hsame.reconnects (ne_of_gt hlt)

/-- The value handed out is no `errno`. -/
theorem not_errnoPassed (b : Buffer) (errno : Int) (hpos : 0 < e) : ¬ ErrnoPassed b errno e := by
  intro hpassed
  have hminus : e = -1 := congrArg (fun r => r.2.1) (bufReadFd_fail hpassed)
  omega

end Reads

/-- **No failed read is harmless.** Behind an interrupted read the loop of `cli_on_read` does not end
without a reconnect, whatever the reads to come, so that the read is not made again; a read that
would block does not leave the connection alone; and `buf_readFd` hands out no `errno`. -/
theorem failed_read_harmful (args : CliArgs) (s : CliState) :
    (∀ rs, ¬ Settles (fun fuel => cliReadLoop args fuel (.fail eintr :: rs) s)
        fun r => r.2.reconnects = s.reconnects) ∧
      (BufInv s.rcvBuf → s.rcvBuf.sz + 1 < 2 ^ 64 → ¬ ReadRetried args s) ∧
      ¬ ReadReturns args s ∧
      ∀ b errno e, 0 < e → ¬ ErrnoPassed b errno e := by
  refine ⟨fun rs => not_settles_interrupted args s rs eintr, fun h hsz => not_readRetried args h hsz,
    not_readReturns args s, fun b errno e hpos => not_errnoPassed b errno hpos⟩

/-- A client that has been started. -/
theorem failed_read_harmful_started :
    ∃ s, Ready s ∧ ¬ ReadRetried shortArgs s ∧ ¬ ReadReturns shortArgs s
      ∧ ¬ ErrnoPassed s.rcvBuf 0 eintr := by
  obtain ⟨N, ⟨ok, s⟩, -, -, hs⟩ := slowNet_bench
  have hsz : s.rcvBuf.sz = 1032 := hs.rcv_sz
  obtain ⟨-, hretried, hreturns, hpassed⟩ := failed_read_harmful shortArgs s
  exact ⟨s, hs.toReady, hretried hs.rcv (by omega), hreturns, hpassed _ _ _ (by decide)⟩

/-- A client that has been started and is connected: an interrupted read, and one that would
block. -/
theorem failed_read_reconnects :
    ∃ fuel s, dubboBenchAsync shortArgs fuel 1 1 0 slowNet = .ok (true, s) ∧ s.connected = true
      ∧ ¬ ReadRetried shortArgs s ∧ ¬ ReadReturns shortArgs s
      ∧ ¬ ErrnoPassed s.rcvBuf 0 eintr ∧ ¬ ErrnoPassed s.rcvBuf 0 eagain := by
  obtain ⟨N, ⟨ok, s⟩, hstart, rfl, hs⟩ := slowNet_bench
  have hsz : s.rcvBuf.sz = 1032 := hs.rcv_sz
  exact ⟨N, s, hstart N (le_refl N), hs.connected, not_readRetried shortArgs hs.rcv (by omega),
    not_readReturns shortArgs s, not_errnoPassed _ _ (by decide), not_errnoPassed _ _ (by decide)⟩

/-! ### Failed writes -/

/-- `cli_send_req` up to the test of what `cli_write` returns. -/
def cliQueueWrite (args : CliArgs) (fuel : Nat) (s : CliState) : Exec (Bool × CliState) := do
  let (frame, s) ← cliEncodeReq args { s with requests := s.requests + 1 }
  let sndBuf ← bufAppend s.sndBuf frame
  cliWrite fuel { s with sndBuf := sndBuf }

/-- `cli_connect`, and `cli_connected` in it, up to the call of `cli_pipe_send`: whether there is
one. -/
def cliOpenConn (s : CliState) : Exec (Bool × CliState) :=
  if s.net.sockets 0 < 0 then return (false, { s.nextSocket with fd := s.fd })
  else if (s.net.connects 0).ret = 0 then
    aeCreateReadable (cliClearTimer { s.nextSocket.nextConnect with connected := true })
      (s.net.sockets 0)
  else if (s.net.connects 0).errno = einprogress then do
    let (ok, s) ← aeCreateWritable s.nextSocket.nextConnect (s.net.sockets 0) .onConnect
    if ok then return (false, s.nextTimer) else return (false, s)
  else return (false, s.nextSocket.nextConnect)

/-- One round of the loop of `cli_pipe_send` in which the request is queued and `cli_write`
succeeds. -/
def SendSucceeds (args : CliArgs) (s u : CliState) : Prop :=
  s.pipeLeft ≠ 0 ∧ ∃ fuel, cliQueueWrite args fuel { s with pipeLeft := s.pipeLeft - 1 }
    = .ok (true, u)

/-- One round in which `cli_write` fails, up to the next test of the loop condition: in the same loop
or, when the new connection is up at once, in a loop inside it. -/
def SendFails (args : CliArgs) (s u : CliState) : Prop :=
  s.pipeLeft ≠ 0 ∧ ∃ fuel t t₁ fills,
    cliQueueWrite args fuel { s with pipeLeft := s.pipeLeft - 1 } = .ok (false, t)
      ∧ cliClose { t with reconnects := t.reconnects + 1 } = .ok t₁ ∧ cliOpenConn t₁ = .ok (fills, u)

/-- `n` rounds in a row in which `cli_write` succeeds. -/
inductive SendsInRow (args : CliArgs) : Nat → CliState → CliState → Prop
  /-- No round. -/
  | zero (s) : SendsInRow args 0 s s
  /-- One round, then the rest. -/
  | succ {n s t u} : SendSucceeds args s t → SendsInRow args n t u → SendsInRow args (n + 1) s u

/-- The state is that at the start or right behind a round in which `cli_write` failed. -/
inductive LoopRestarts (args : CliArgs) (s : CliState) : CliState → Prop
  /-- The start. -/
  | start : LoopRestarts args s s
  /-- One more round that failed. -/
  | failed {n t u v} : LoopRestarts args s t → SendsInRow args n t u → SendFails args u v →
      LoopRestarts args s v

section PipeSend

variable {args : CliArgs} {fuel : Nat} {s s' t u v : CliState}

/-- `cli_send_req` in two parts. -/
theorem cliSendReq_succ (args : CliArgs) (fuel : Nat) (s : CliState) :
    cliSendReq args (fuel + 1) s = (do
      let (ok, s) ← cliQueueWrite args fuel s
      if ok then return s else cliReconnect args fuel s) := by
  rw [cliSendReq, cliQueueWrite]
  simp only [bind_assoc]

/-- `cli_connect` in two parts, when it returns. -/
theorem cliConnect_parts {ok : Bool} (h : cliConnect args fuel s = .ok (ok, s')) :
    ∃ fills u, cliOpenConn s = .ok (fills, u)
      ∧ (fills = true ∧ (∃ fuel', fuel' < fuel ∧ cliPipeSend args fuel' u = .ok s')
        ∨ fills = false ∧ s' = u) := by
  cases fuel with
  | zero => cases h
  | succ fuel =>
    rw [cliConnect] at h
    rw [cliOpenConn]
    -- no descriptor; connected at once; in progress; refused
    split_ifs at h ⊢ with hsock hret hprog
    · cases h
      exact ⟨false, _, rfl, .inr ⟨rfl, rfl⟩⟩
    · cases fuel with
      | zero => cases h
      | succ fuel =>
        obtain ⟨u, hadd, ⟨rfl, hpipe⟩ | ⟨rfl, rfl⟩⟩ := cliConnected_ok h
        · exact ⟨true, u, hadd, .inl ⟨rfl, fuel, by omega, hpipe⟩⟩
        · exact ⟨false, s', hadd, .inr ⟨rfl, rfl⟩⟩
    · obtain ⟨⟨added, u⟩, hadd, h⟩ := exec_bind_eq_ok.mp h
      rw [hadd, exec_ok_bind]
      dsimp only at h ⊢
      split_ifs at h ⊢
      · cases h
        exact ⟨false, _, rfl, .inr ⟨rfl, rfl⟩⟩
      · cases h
        exact ⟨false, _, rfl, .inr ⟨rfl, rfl⟩⟩
    · cases h
      exact ⟨false, _, rfl, .inr ⟨rfl, rfl⟩⟩

/-- `cli_connect`, from its parts: it fills the pipe. -/
theorem cliConnect_fills (h : cliOpenConn s = .ok (true, u)) (fuel : Nat) :
    cliConnect args (fuel + 2) s = cliPipeSend args fuel u >>= fun s' => .ok (true, s') := by
  rw [cliOpenConn] at h
  rw [cliConnect]
  split_ifs at h ⊢
  · cases h
  · rw [cliConnected]
    show (aeCreateReadable _ (s.net.sockets 0) >>= _) = _
    rw [h, exec_ok_bind]
    rfl
  · obtain ⟨⟨added, u'⟩, -, h⟩ := exec_bind_eq_ok.mp h
    dsimp only at h
    split_ifs at h
    · cases h
    · cases h
  · cases h

/-- `cli_connect`, from its parts: it does not fill the pipe. -/
theorem cliConnect_open (h : cliOpenConn s = .ok (false, u)) (fuel : Nat) :
    ∃ ok, cliConnect args (fuel + 2) s = .ok (ok, u) := by
  rw [cliOpenConn] at h
  rw [cliConnect]
  split_ifs at h ⊢
  · cases h
    exact ⟨_, rfl⟩
  · rw [cliConnected]
    refine ⟨false, ?_⟩
    show (aeCreateReadable _ (s.net.sockets 0) >>= _) = _
    rw [h, exec_ok_bind]
    rfl
  · obtain ⟨⟨added, u'⟩, hadd, h⟩ := exec_bind_eq_ok.mp h
    rw [hadd, exec_ok_bind]
    dsimp only at h ⊢
    split_ifs at h ⊢
    · cases h
      exact ⟨_, rfl⟩
    · cases h
      exact ⟨_, rfl⟩
  · cases h
    exact ⟨_, rfl⟩

/-- `cli_reconnect`, from its parts. -/
theorem settles_reconnect {fills : Bool} {P : CliState → Prop}
    (hclose : cliClose { s with reconnects := s.reconnects + 1 } = .ok t)
    (hopen : cliOpenConn t = .ok (fills, u))
    (hrest : if fills then Settles (fun fuel => cliPipeSend args fuel u) P else P u) :
    Settles (fun fuel => cliReconnect args fuel s) P := by
  have heq (fuel : Nat) : cliReconnect args (fuel + 1) s
      = cliConnect args fuel t >>= fun r => .ok r.2 := by
    rw [cliReconnect, hclose, exec_ok_bind]
    rfl
  refine Settles.of_succ ?_ heq
  cases fills with
  | true =>
    -- two units of fuel go to `cli_connect` and `cli_connected`, the rest to the loop
    obtain ⟨N, s', hpipe, hP⟩ := hrest
    refine ⟨N + 2, s', fun fuel hfuel => ?_, hP⟩
    obtain ⟨fuel, rfl⟩ := Nat.exists_eq_add_of_le' (le_trans (Nat.le_add_left 2 N) hfuel)
    have hpipe : cliPipeSend args fuel u = .ok s' := hpipe fuel (by omega)
    show cliConnect args (fuel + 2) t >>= _ = _
    rw [cliConnect_fills hopen, hpipe]
    rfl
  | false =>
    refine ⟨2, u, fun fuel hfuel => ?_, hrest⟩
    obtain ⟨fuel, rfl⟩ := Nat.exists_eq_add_of_le' hfuel
    have hconn : ∃ ok, cliConnect args (fuel + 2) t = .ok (ok, u) := cliConnect_open hopen fuel
    obtain ⟨ok, hconn⟩ := hconn
    show cliConnect args (fuel + 2) t >>= _ = _
    rw [hconn]
    rfl

/-- More fuel does not change what is queued and written. -/
theorem cliQueueWrite_mono {fuel' : Nat} {r : Bool × CliState} (hle : fuel ≤ fuel')
    (h : cliQueueWrite args fuel s = .ok r) : cliQueueWrite args fuel' s = .ok r := by
  obtain ⟨⟨frame, s₁⟩, hencode, h⟩ := exec_bind_eq_ok.mp h
  obtain ⟨sndBuf, happ, hwrite⟩ := exec_bind_eq_ok.mp h
  rw [cliQueueWrite, hencode]
  simp only [exec_ok_bind, happ]
  exact cliWrite_mono hle hwrite

/-- Queueing and writing does not count in the loop. -/
theorem cliQueueWrite_pipe {ok : Bool} (h : cliQueueWrite args fuel s = .ok (ok, s')) :
    s'.pipeLeft = s.pipeLeft ∧ s'.pipeN = s.pipeN := by
  obtain ⟨⟨frame, s₁⟩, hencode, h⟩ := exec_bind_eq_ok.mp h
  obtain rfl := cliEncodeReq_ok hencode
  obtain ⟨sndBuf, -, hwrite⟩ := exec_bind_eq_ok.mp h
  obtain ⟨sndBuf', net, written, writable, rfl, -⟩ := cliWrite_ok hwrite
  exact ⟨rfl, rfl⟩

/-- Neither does connecting. -/
theorem cliOpenConn_pipe {fills : Bool} (h : cliOpenConn s = .ok (fills, u)) :
    u.pipeLeft = s.pipeLeft ∧ u.pipeN = s.pipeN := by
  rw [cliOpenConn] at h
  split_ifs at h
  · cases h
    exact ⟨rfl, rfl⟩
  · obtain ⟨net, readable, rfl, -⟩ := aeCreateReadable_ok h
    exact ⟨rfl, rfl⟩
  · obtain ⟨⟨added, u'⟩, hadd, h⟩ := exec_bind_eq_ok.mp h
    obtain ⟨net, writable, rfl, -⟩ := aeCreateWritable_ok hadd
    dsimp only at h
    split_ifs at h
    · cases h
      exact ⟨rfl, rfl⟩
    · cases h
      exact ⟨rfl, rfl⟩
  · cases h
    exact ⟨rfl, rfl⟩

/-- A round that succeeds counts. -/
theorem SendSucceeds.pipe (h : SendSucceeds args s u) :
    u.pipeLeft = s.pipeLeft - 1 ∧ u.pipeN = s.pipeN := by
  obtain ⟨-, fuel, hqueue⟩ := h
  exact cliQueueWrite_pipe hqueue

/-- Behind a round that fails the loop starts over. -/
theorem SendFails.pipe (h : SendFails args s u) : u.pipeLeft = s.pipeN ∧ u.pipeN = s.pipeN := by
  obtain ⟨-, fuel, t, t₁, fills, hqueue, hclose, hopen⟩ := h
  obtain ⟨-, hpipe⟩ := cliQueueWrite_pipe hqueue
  obtain rfl := cliClose_ok hclose
  obtain ⟨hleft, hn⟩ := cliOpenConn_pipe hopen
  exact ⟨hleft.trans hpipe, hn.trans hpipe⟩

/-- Rounds that succeed count. -/
theorem SendsInRow.pipe {n : Nat} (h : SendsInRow args n s u) :
    u.pipeLeft = s.pipeLeft - n ∧ u.pipeN = s.pipeN := by
  induction h with
  | zero => exact ⟨(sub_zero _).symm, rfl⟩
  | succ hone _ ih =>
    have hleft := hone.pipe.1
    exact ⟨by omega, ih.2.trans hone.pipe.2⟩

/-- So does the loop up to each of its restarts. -/
theorem LoopRestarts.pipeN (h : LoopRestarts args s u) : u.pipeN = s.pipeN := by
  induction h with
  | start => rfl
  | failed _ hrow hfail ih => exact hfail.pipe.2.trans (hrow.pipe.2.trans ih)

/-- The loop, behind a request that was queued. -/
theorem cliPipeSend_succ (hleft : s.pipeLeft ≠ 0) (fuel : Nat) :
    cliPipeSend args (fuel + 1) s
      = cliSendReq args fuel { s with pipeLeft := s.pipeLeft - 1 } >>= cliPipeSend args fuel := by
  rw [cliPipeSend, if_neg hleft]

/-- The loop ends when there is no room. -/
theorem settles_pipeSend_done (args : CliArgs) {P : CliState → Prop} (hleft : s.pipeLeft = 0)
    (h : P s) : Settles (fun fuel => cliPipeSend args fuel s) P := by
  refine (returns_ok h).settles.of_succ fun fuel => ?_
  rw [cliPipeSend, if_pos hleft, Int.sub_add_cancel]
  rfl

/-- **A round that succeeds**: the loop goes on behind it. -/
theorem SendSucceeds.settles {P : CliState → Prop} (h : SendSucceeds args s u)
    (hu : Settles (fun fuel => cliPipeSend args fuel u) P) :
    Settles (fun fuel => cliPipeSend args fuel s) P := by
  obtain ⟨hleft, N, hqueue⟩ := h
  have hsend : Settles (fun fuel => cliSendReq args fuel { s with pipeLeft := s.pipeLeft - 1 })
      fun t => t = u := by
    refine Settles.of_succ ((settles_of_ok cliQueueWrite_mono hqueue).bind fun r hr => ?_)
      fun fuel => cliSendReq_succ args fuel _
    cases hr
    exact settles_ok_iff.mpr rfl
  refine Settles.of_succ (hsend.bind fun t ht => ?_) (cliPipeSend_succ hleft)
  cases ht
  exact hu

/-- **A round that fails**: the loop goes on behind the reconnect, or the loop inside it has done its
work. -/
theorem SendFails.settles {P : CliState → Prop} (h : SendFails args s u)
    (hu : Settles (fun fuel => cliPipeSend args fuel u) P) (hP : ∀ s', P s' → s'.pipeLeft = 0) :
    Settles (fun fuel => cliPipeSend args fuel s) P := by
  obtain ⟨hleft, N, t, t₁, fills, hqueue, hclose, hopen⟩ := h
  refine Settles.of_succ ?_ (cliPipeSend_succ hleft)
  have hsend {Q : CliState → Prop}
      (hrest : if fills then Settles (fun fuel => cliPipeSend args fuel u) Q else Q u) :
      Settles (fun fuel => cliSendReq args fuel { s with pipeLeft := s.pipeLeft - 1 }) Q := by
    refine Settles.of_succ ((settles_of_ok cliQueueWrite_mono hqueue).bind fun r hr => ?_)
      fun fuel => cliSendReq_succ args fuel _
    cases hr
    exact settles_reconnect hclose hopen hrest
  cases fills with
  | true =>
    -- the loop inside leaves no room, so that this one ends at its next test
    exact (hsend hu).bind fun s' hs' => settles_pipeSend_done args (hP s' hs') hs'
  | false =>
    -- there is no loop inside, and this one goes on behind the reconnect
    refine (hsend (Q := fun t => t = u) rfl).bind fun t ht => ?_
    cases ht
    exact hu

/-- Rounds that succeed. -/
theorem SendsInRow.settles {n : Nat} {P : CliState → Prop} (h : SendsInRow args n s u)
    (hu : Settles (fun fuel => cliPipeSend args fuel u) P) :
    Settles (fun fuel => cliPipeSend args fuel s) P := by
  induction h with
  | zero => exact hu
  | succ hone _ ih => exact hone.settles (ih hu)

/-- The loop up to one of its restarts. -/
theorem LoopRestarts.settles {P : CliState → Prop} (h : LoopRestarts args s u)
    (hu : Settles (fun fuel => cliPipeSend args fuel u) P) (hP : ∀ s', P s' → s'.pipeLeft = 0) :
    Settles (fun fuel => cliPipeSend args fuel s) P := by
  induction h with
  | start => exact hu
  | failed _ hrow hfail ih => exact ih (hrow.settles (hfail.settles hu hP))

/-! ### When the loop ends -/

/-- At the start of the loop or right behind a round that failed, as many rounds in a row succeed as
there is room in the pipe. -/
def FillsAtLast (args : CliArgs) (s : CliState) : Prop :=
  ∃ (n : Nat) (u t : CliState), LoopRestarts args s u ∧ u.pipeLeft = n ∧ SendsInRow args n u t

/-- Restarts behind a restart. -/
theorem LoopRestarts.trans (h : LoopRestarts args s t) (h' : LoopRestarts args t u) :
    LoopRestarts args s u := by
  induction h' with
  | start => exact h
  | failed _ hrow hfail ih => exact .failed ih hrow hfail

/-- A restart of the loop behind a round that succeeds is one of the whole loop, or it is the state
behind that round. -/
theorem LoopRestarts.cons (hone : SendSucceeds args s t) (h : LoopRestarts args t u) :
    u = t ∨ LoopRestarts args s u := by
  induction h with
  | start => exact .inl rfl
  | failed _ hrow hfail ih =>
    -- the round that succeeds joins the row in front of the first one that fails
    rcases ih with rfl | ih
    · exact .inr (.failed .start (.succ hone hrow) hfail)
    · exact .inr (.failed ih hrow hfail)

/-- A round that succeeds. -/
theorem FillsAtLast.succ (hone : SendSucceeds args s t) (h : FillsAtLast args t) :
    FillsAtLast args s := by
  obtain ⟨n, u, v, hrestarts, hleft, hrow⟩ := h
  rcases hrestarts.cons hone with rfl | hrestarts
  · have hcount := hone.pipe.1
    exact ⟨n + 1, s, v, .start, by omega, .succ hone hrow⟩
  · exact ⟨n, u, v, hrestarts, hleft, hrow⟩

/-- A round that fails. -/
theorem FillsAtLast.failed (hfail : SendFails args s t) (h : FillsAtLast args t) :
    FillsAtLast args s := by
  obtain ⟨n, u, v, hrestarts, hleft, hrow⟩ := h
  have hone : LoopRestarts args s t := .failed .start (.zero s) hfail
  exact ⟨n, u, v, hone.trans hrestarts, hleft, hrow⟩

/-- **A loop that returns has filled the pipe at last.** -/
theorem fillsAtLast_of_ok (h : cliPipeSend args fuel s = .ok s') : FillsAtLast args s := by
  -- on the fuel: the loop inside a reconnect has less of it by several units
  induction fuel using Nat.strong_induction_on generalizing s s' with
  | _ fuel ih =>
    cases fuel with
    | zero => cases h
    | succ fuel =>
      rcases cliPipeSend_ok h with ⟨hleft, -⟩ | ⟨hleft, s₁, hsend, hrest⟩
      · exact ⟨0, s, s, .start, hleft, .zero s⟩
      · cases fuel with
        | zero => cases hsend
        | succ fuel =>
          rw [cliSendReq_succ] at hsend
          obtain ⟨⟨ok, t⟩, hqueue, hsend⟩ := exec_bind_eq_ok.mp hsend
          cases ok with
          | true =>
            cases hsend
            exact .succ ⟨hleft, fuel, hqueue⟩ (ih (fuel + 1) (by omega) hrest)
          | false =>
            -- the loop goes on in the new connection, or behind it
            cases fuel with
            | zero => cases hsend
            | succ fuel =>
              obtain ⟨t₁, ok, hclose, hconn⟩ := cliReconnect_ok hsend
              obtain ⟨fills, u, hopen, hfills⟩ := cliConnect_parts hconn
              have hfail : SendFails args s u :=
                ⟨hleft, fuel + 1, t, t₁, fills, hqueue, hclose, hopen⟩
              rcases hfills with ⟨-, fuel', hlt, hpipe⟩ | ⟨-, rfl⟩
              · exact .failed hfail (ih fuel' (by omega) hpipe)
              · exact .failed hfail (ih (fuel + 1 + 1) (by omega) hrest)

/-- **A loop that fills the pipe at last returns**, with no room left. -/
theorem FillsAtLast.settles (h : FillsAtLast args s) :
    Settles (fun fuel => cliPipeSend args fuel s) fun s' =>
      s'.pipeLeft = 0 ∧ s'.pipeN = s.pipeN := by
  obtain ⟨n, u, t, hrestarts, hleft, hrow⟩ := h
  obtain ⟨hcount, hn⟩ := hrow.pipe
  have hzero : t.pipeLeft = 0 := by omega
  have ht := settles_pipeSend_done args (P := fun s' => s'.pipeLeft = 0 ∧ s'.pipeN = s.pipeN) hzero
    ⟨hzero, hn.trans hrestarts.pipeN⟩
  exact hrestarts.settles (hrow.settles ht) fun s' hs' => hs'.1

end PipeSend

/-- **`cli_pipe_send` ends** and leaves `0 <= pipe_left <= pipe_n` **exactly when `pipe_n` is not
negative and, at the start or behind one of the reconnects, as many requests in a row are sent
without a failed write as there is room in the pipe.** -/
theorem cli_pipe_send_ends_iff (args : CliArgs) (s : CliState) :
    Settles (fun fuel => cliPipeSend args fuel s)
        (fun s' => 0 ≤ s'.pipeLeft ∧ s'.pipeLeft ≤ s'.pipeN) ↔
      0 ≤ s.pipeN ∧ FillsAtLast args s := by
  constructor
  · rintro ⟨N, s', hpipe, hlow, hhigh⟩
    have hfills := fillsAtLast_of_ok (hpipe N (le_refl N))
    -- the loop leaves no room, and the same `pipe_n`
    obtain ⟨M, s'', hpipe', hzero, hn⟩ := hfills.settles
    have hone := (hpipe (max N M) (le_max_left N M)).symm.trans (hpipe' (max N M) (le_max_right N M))
    cases hone
    exact ⟨by omega, hfills⟩
  · rintro ⟨hn, hfills⟩
    refine hfills.settles.imp fun s' hs' => ?_
    obtain ⟨hzero, hn'⟩ := hs'
    exact ⟨by omega, by omega⟩

/-! ### A loop without an end -/

/-- A system on which every connection is up at once and every `write` fails with `EPIPE`. -/
def failingNet : Net where
  sockets _ := 3
  connects _ := ⟨0, 0⟩
  writes _ := ⟨-1, 32⟩
  adds _ := true
  timers _ := true

/-- A client on this system with room in the pipe and an empty send buffer. -/
structure Failing (s : CliState) : Prop where
  /-- The system. -/
  net : s.net = failingNet
  /-- There is room. -/
  left : 0 < s.pipeLeft
  /-- There will be room behind a reconnect. -/
  pipe : 0 < s.pipeN
  /-- The descriptor is a descriptor. -/
  fd_nonneg : 0 ≤ s.fd
  /-- The send buffer is well formed. -/
  inv : BufInv s.sndBuf
  /-- Its reserved front. -/
  front : s.sndBuf.pSz = bufCheapPrepend
  /-- It is empty. -/
  empty : s.sndBuf.writeIdx = bufCheapPrepend

section Failing

variable {args : CliArgs} {s t : CliState}

/-- `cli_write` fails on this system. -/
theorem cliWrite_failing (hnet : s.net = failingNet) (hne : bufReadable s.sndBuf ≠ 0) (fuel : Nat) :
    cliWrite (fuel + 1) s = .ok (false, s.nextWrite) := by
  have hret : (s.net.writes 0).ret = -1 := by rw [hnet]; rfl
  have herrno : (s.net.writes 0).errno = 32 := by rw [hnet]; rfl
  have hneg : (-1 : Int) ≤ 0 := by decide
  have hintr : (32 : Int) ≠ eintr := by decide
  have hagain : (32 : Int) ≠ eagain := by decide
  rw [cliWrite, if_neg hne, cliWriteLoop, if_neg hne, hret, herrno, if_pos hneg, if_neg hintr]
  simp only [exec_pure, exec_ok_bind]
  rw [if_pos hneg, if_neg hagain]

/-- The request is queued, and `cli_write` fails. -/
theorem Failing.queueWrite (hargs : RequestEncodes args) (h : Failing s) :
    ∃ t, cliQueueWrite args 0 { s with pipeLeft := s.pipeLeft - 1 } = .error .outOfFuel
      ∧ (∀ fuel, cliQueueWrite args (fuel + 1) { s with pipeLeft := s.pipeLeft - 1 }
        = .ok (false, t))
      ∧ t.net = failingNet ∧ t.pipeN = s.pipeN ∧ t.fd = s.fd ∧ BufInv t.sndBuf
      ∧ t.sndBuf.pSz = bufCheapPrepend := by
  obtain ⟨frame, hencode, hpos, hlen⟩ := cliEncodeReq_spec hargs
    { s with pipeLeft := s.pipeLeft - 1, requests := s.requests + 1 }
  have hmax : maxReqFrame = 8208 := rfl
  have hfront : bufCheapPrepend = 8 := rfl
  have hempty := h.empty
  obtain ⟨b, happ, hinv, hbytes, -, hpSz⟩ := h.inv.append_spec (d := frame) (by omega)
  have hne : bufReadable b ≠ 0 := by
    rw [← hinv.toBufWf.length_bufBytes, hbytes, List.length_append]
    omega
  obtain ⟨s₁, hs₁⟩ : ∃ s₁ : CliState, s₁ = { s with
      pipeLeft := s.pipeLeft - 1, requests := s.requests + 1,
      lastReqid := nextReqid s.lastReqid, sndBuf := b } := ⟨_, rfl⟩
  have hqueue (fuel : Nat) :
      cliQueueWrite args fuel { s with pipeLeft := s.pipeLeft - 1 } = cliWrite fuel s₁ := by
    rw [cliQueueWrite, hencode, hs₁]
    simp only [exec_ok_bind, happ]
  have hne₁ : bufReadable s₁.sndBuf ≠ 0 := by
    rw [hs₁]
    exact hne
  have hnet₁ : s₁.net = failingNet := by
    rw [hs₁]
    exact h.net
  refine ⟨s₁.nextWrite, ?_, fun fuel => (hqueue _).trans (cliWrite_failing hnet₁ hne₁ fuel), ?_⟩
  · rw [hqueue, cliWrite, if_neg hne₁]
    rfl
  · have hwrites : s₁.nextWrite.net = failingNet := by
      show { s₁.net with writes := fun n => s₁.net.writes (n + 1) } = failingNet
      rw [hnet₁]
      rfl
    rw [hs₁] at hwrites ⊢
    exact ⟨hwrites, rfl, rfl, hinv, hpSz.trans h.front⟩

/-- On this system the new connection is up at once. -/
theorem cliOpenConn_failing (hnet : s.net = failingNet) :
    ∃ u, cliOpenConn s = .ok (true, u) ∧ u.net = failingNet ∧ u.fd = 3 ∧ u.sndBuf = s.sndBuf := by
  cases s
  cases hnet
  exact ⟨_, rfl, rfl, rfl, rfl⟩

/-- Behind the reconnect the loop starts over. -/
theorem Failing.reopen (hnet : t.net = failingNet) (hpipe : 0 < t.pipeN) (hfd : 0 ≤ t.fd)
    (hinv : BufInv t.sndBuf) (hfront : t.sndBuf.pSz = bufCheapPrepend) :
    ∃ t₁ u, cliClose { t with reconnects := t.reconnects + 1 } = .ok t₁
      ∧ cliOpenConn t₁ = .ok (true, u) ∧ t₁.net = failingNet ∧ Failing u := by
  obtain ⟨t₁, hclose⟩ : ∃ t₁, cliClose { t with reconnects := t.reconnects + 1 } = .ok t₁ := by
    rw [cliClose, aeDeleteReadWritable, if_neg (not_lt_of_ge hfd)]
    exact ⟨_, rfl⟩
  have ht₁ := cliClose_ok hclose
  have hnet₁ : t₁.net = failingNet := by
    rw [ht₁]
    exact hnet
  have hsnd : t₁.sndBuf = bufRetrieveAll t.sndBuf := by rw [ht₁]; rfl
  have hleft : t₁.pipeLeft = t.pipeN := by rw [ht₁]; rfl
  have hn : t₁.pipeN = t.pipeN := by rw [ht₁]; rfl
  obtain ⟨u, hopen, hnetu, hfdu, hsndu⟩ := cliOpenConn_failing hnet₁
  obtain ⟨hleftu, hnu⟩ := cliOpenConn_pipe hopen
  refine ⟨t₁, u, hclose, hopen, hnet₁, ?_⟩
  have hbuf : u.sndBuf = bufRetrieveAll t.sndBuf := hsndu.trans hsnd
  exact {
    net := hnetu, left := by omega, pipe := by omega, fd_nonneg := by omega,
    inv := hbuf ▸ (bufRetrieveAll_spec hinv.toBufWf).1,
    front := by rw [hbuf]; exact hfront, empty := by rw [hbuf]; exact hfront }

/-- Connecting takes fuel. -/
theorem cliConnect_failing (hnet : s.net = failingNet) : cliConnect args 1 s = .error .outOfFuel := by
  cases s
  cases hnet
  rw [cliConnect]
  rfl

/-- **`cli_pipe_send` never returns** to a client on this system. -/
theorem Failing.runs_on (hargs : RequestEncodes args) (h : Failing s) (fuel : Nat) :
    cliPipeSend args fuel s = .error .outOfFuel := by
  induction fuel using Nat.strong_induction_on generalizing s with
  | _ fuel ih =>
    have hleft := h.left
    obtain ⟨t, hqueue₀, hqueue, hnet, hpipe, hfd, hinv, hfront⟩ := h.queueWrite hargs
    obtain ⟨t₁, u, hclose, hopen, hnet₁, hu⟩ := Failing.reopen hnet (by rw [hpipe]; exact h.pipe)
      (by rw [hfd]; exact h.fd_nonneg) hinv hfront
    -- each of the calls takes one unit of fuel, and the loop inside gets what is left
    rcases fuel with _ | _ | _ | fuel
    · rfl
    · rw [cliPipeSend_succ (by omega)]
      rfl
    · rw [cliPipeSend_succ (by omega), cliSendReq_succ, hqueue₀]
      rfl
    · rw [cliPipeSend_succ (by omega), cliSendReq_succ, hqueue, exec_ok_bind]
      show (cliReconnect args (fuel + 1) t >>= _) = _
      rw [cliReconnect, hclose, exec_ok_bind]
      rcases fuel with _ | _ | fuel
      · rfl
      · rw [cliConnect_failing hnet₁]
        rfl
      · rw [cliConnect_fills hopen, ih fuel (by omega) hu]
        rfl

end Failing

/-- A client that is created on such a system and connected: `cli_connected` calls `cli_pipe_send`,
which does not return, whatever the fuel. -/
theorem cli_pipe_send_runs_on :
    ∃ s₀ s, cliCreate 1 1 0 failingNet = .ok s₀
      ∧ cliOpenConn { s₀ with run := true } = .ok (true, s) ∧ s.pipeLeft = 1 ∧ s.pipeN = 1
      ∧ (∀ fuel, cliPipeSend shortArgs fuel s = .error .outOfFuel)
      ∧ ¬ Settles (fun fuel => cliPipeSend shortArgs fuel s)
        fun s' => 0 ≤ s'.pipeLeft ∧ s'.pipeLeft ≤ s'.pipeN := by
  have hcap : cliInitBufSz + bufCheapPrepend < 2 ^ 64 := by decide
  obtain ⟨b, hbuf, hinv, -, hfront, -⟩ := bufCreate_spec (by decide) hcap
  obtain ⟨s₀, hcreate, hnet, hleft, hn, hsnd⟩ : ∃ s₀, cliCreate 1 1 0 failingNet = .ok s₀
      ∧ s₀.net = failingNet ∧ s₀.pipeLeft = 1 ∧ s₀.pipeN = 1 ∧ s₀.sndBuf = bufRetrieveAll b := by
    rw [cliCreate, hbuf]
    exact ⟨_, rfl, rfl, rfl, rfl, rfl⟩
  obtain ⟨s, hopen, hnets, hfd, hsnds⟩ :=
    cliOpenConn_failing (s := { s₀ with run := true }) hnet
  obtain ⟨hlefts, hns⟩ := cliOpenConn_pipe hopen
  have hone : s.pipeLeft = 1 := hlefts.trans hleft
  have hpipe : s.pipeN = 1 := hns.trans hn
  have hbufs : s.sndBuf = bufRetrieveAll b := hsnds.trans hsnd
  have hfailing : Failing s := {
    net := hnets, left := by omega, pipe := by omega, fd_nonneg := by omega,
    inv := hbufs ▸ (bufRetrieveAll_spec hinv.toBufWf).1,
    front := by rw [hbufs]; exact hfront, empty := by rw [hbufs]; exact hfront }
  have hruns := hfailing.runs_on shortArgs_encodes
  exact ⟨s₀, s, hcreate, hopen, hone, hpipe, hruns,
    not_settles_of_error fun fuel => ⟨_, hruns fuel⟩⟩

end Wee
