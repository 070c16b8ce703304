import Wee.Dubbo.ClientFailures
import Wee.Dubbo.ClientRequests

/-! # The statistics of the client

`cli_end` prints how many responses were successes (`ok_n`) and failures (`ko_n`) out of the
responses accounted for (`req_n - req_left`). `cli_decode_resp` counts every response that it can
decode as a success, and one that it cannot decode as nothing at all; so the numbers add up in a run
exactly as long as every response is decoded and has the status OK. -/

namespace Wee

/-! ### Counters that stay -/

/-- What `cli_end` prints, and the responses it is about. -/
structure CliStats where
  /-- `ok_n`. -/
  okN : Int
  /-- `ko_n`. -/
  koN : Int
  /-- `req_n - req_left`. -/
  answered : Int
  /-- The responses decoded. -/
  decoded : List DubboRes

/-- The statistics of the client. -/
def CliState.stats (s : CliState) : CliStats where
  okN := s.okN
  koN := s.koN
  answered := s.reqN - s.reqLeft
  decoded := s.decoded

/-- `s'` comes from `s` without counting: if the receive buffer is another one, it is empty. -/
def CountsNothing (s s' : CliState) : Prop :=
  s'.stats = s.stats ∧ (s'.rcvBuf = s.rcvBuf ∨ bufReadable s'.rcvBuf = 0)

section Counters

variable {args : CliArgs} {fuel : Nat} {s s' s'' : CliState} {ok : Bool}

/-- Nothing happens. -/
theorem CountsNothing.refl (s : CliState) : CountsNothing s s := ⟨rfl, .inl rfl⟩

/-- Counting nothing, twice. -/
theorem CountsNothing.trans (h : CountsNothing s s') (h' : CountsNothing s' s'') :
    CountsNothing s s'' := by
  refine ⟨h'.1.trans h.1, ?_⟩
  rcases h'.2 with heq | hempty
  · rw [heq]
    exact h.2
  · exact .inr hempty

/-- Writing counts nothing. -/
theorem CliWrites.countsNothing (h : CliWrites s s') : CountsNothing s s' := by
  obtain ⟨sndBuf, net, written, writable, rfl, -⟩ := h
  exact .refl s

/-- Nothing is readable in a buffer that has been retrieved from. -/
theorem bufReadable_retrieveAll (b : Buffer) : bufReadable (bufRetrieveAll b) = 0 := by
  show szSub b.pSz b.pSz = 0
  unfold szSub
  omega

/-- Closing counts nothing, and empties the receive buffer. -/
theorem countsNothing_close (h : cliClose s = .ok s') :
    CountsNothing s s' ∧ bufReadable s'.rcvBuf = 0 := by
  rw [cliClose_ok h]
  have hempty := bufReadable_retrieveAll s.rcvBuf
  exact ⟨⟨rfl, .inr hempty⟩, hempty⟩

/-- With `fuel`, no function that may call `cli_reconnect` counts, and behind `cli_reconnect` the
receive buffer is empty. -/
structure StatsKept (args : CliArgs) (fuel : Nat) : Prop where
  /-- `cli_connected`. -/
  connected : ∀ {s ok s'}, cliConnected args fuel s = .ok (ok, s') → CountsNothing s s'
  /-- `cli_connect`. -/
  connect : ∀ {s ok s'}, cliConnect args fuel s = .ok (ok, s') → CountsNothing s s'
  /-- `cli_reconnect`. -/
  reconnect : ∀ {s s'}, cliReconnect args fuel s = .ok s' →
    CountsNothing s s' ∧ bufReadable s'.rcvBuf = 0
  /-- `cli_send_req`. -/
  sendReq : ∀ {s s'}, cliSendReq args fuel s = .ok s' → CountsNothing s s'
  /-- `cli_pipe_send`. -/
  pipeSend : ∀ {s s'}, cliPipeSend args fuel s = .ok s' → CountsNothing s s'

/-- `cli_connected`, by what it calls. -/
theorem StatsKept.connected_succ (h : StatsKept args fuel)
    (hok : cliConnected args (fuel + 1) s = .ok (ok, s')) : CountsNothing s s' := by
  obtain ⟨s₁, hadd, hrest⟩ := cliConnected_ok hok
  obtain ⟨net, readable, rfl, -⟩ := aeCreateReadable_ok hadd
  rcases hrest with ⟨-, hpipe⟩ | ⟨-, rfl⟩
  · have hone := h.pipeSend hpipe
    exact hone
  · exact .refl s

/-- `cli_connect`, by what it calls. -/
theorem StatsKept.connect_succ (h : StatsKept args fuel)
    (hok : cliConnect args (fuel + 1) s = .ok (ok, s')) : CountsNothing s s' := by
  rcases cliConnect_ok hok with ⟨net, rfl⟩ | ⟨-, -, hconn⟩ | ⟨net, writable, timer, rfl, -⟩
  · exact .refl s
  · have hone := h.connected hconn
    exact hone
  · exact .refl s

/-- `cli_reconnect`, by what it calls. -/
theorem StatsKept.reconnect_succ (h : StatsKept args fuel)
    (hok : cliReconnect args (fuel + 1) s = .ok s') :
    CountsNothing s s' ∧ bufReadable s'.rcvBuf = 0 := by
  obtain ⟨s₁, ok, hclose, hconn⟩ := cliReconnect_ok hok
  obtain ⟨hclosed, hempty⟩ := countsNothing_close hclose
  have hone := h.connect hconn
  refine ⟨CountsNothing.trans hclosed hone, ?_⟩
  -- the buffer `cli_close` has emptied, or one that was emptied by a later reconnect
  rcases hone.2 with heq | hempty'
  · rw [heq]
    exact hempty
  · exact hempty'

/-- `cli_send_req`, by what it calls. -/
theorem StatsKept.sendReq_succ (h : StatsKept args fuel)
    (hok : cliSendReq args (fuel + 1) s = .ok s') : CountsNothing s s' := by
  obtain ⟨frame, sndBuf, ok, s₁, -, -, hwrite, hrest⟩ := cliSendReq_ok hok
  have hone := (cliWrite_ok hwrite).countsNothing
  have hs₁ : CountsNothing s s₁ := hone
  rcases hrest with ⟨-, rfl⟩ | ⟨-, hre⟩
  · exact hs₁
  · exact hs₁.trans (h.reconnect hre).1

/-- `cli_pipe_send`, by what it calls. -/
theorem StatsKept.pipeSend_succ (h : StatsKept args fuel)
    (hok : cliPipeSend args (fuel + 1) s = .ok s') : CountsNothing s s' := by
  rcases cliPipeSend_ok hok with ⟨-, rfl⟩ | ⟨-, s₁, hsend, hrest⟩
  · exact .refl s'
  · have hone := h.sendReq hsend
    have hs₁ : CountsNothing s s₁ := hone
    exact hs₁.trans (h.pipeSend hrest)

/-- **Nothing is counted** in the functions that call each other. -/
theorem statsKept (args : CliArgs) (fuel : Nat) : StatsKept args fuel := by
  induction fuel with
  | zero =>
    constructor
    all_goals
      intros
      rename_i h
      cases h
  | succ fuel ih =>
    exact ⟨ih.connected_succ, ih.connect_succ, ih.reconnect_succ, ih.sendReq_succ, ih.pipeSend_succ⟩

/-- Ending counts nothing. -/
theorem stats_end (h : cliEnd s = .ok s') : s'.stats = s.stats := by
  rcases cliEnd_ok h with ⟨-, rfl⟩ | ⟨s₁, hclose, rfl⟩
  · rfl
  · exact (countsNothing_close hclose).1.1

/-- `cli_on_write` counts nothing. -/
theorem stats_onWrite (h : cliOnWrite args fuel s = .ok s') : s'.stats = s.stats := by
  obtain ⟨-, -, h⟩ := exec_bind_eq_ok.mp h
  obtain ⟨⟨ok, s₁⟩, hwrite, h⟩ := exec_bind_eq_ok.mp h
  have hone := (cliWrite_ok hwrite).countsNothing
  dsimp only at h
  split_ifs at h
  · cases h
    exact hone.1
  · exact (hone.trans ((statsKept args fuel).reconnect h).1).1

/-- `cli_on_connect` counts nothing. -/
theorem stats_onConnect {fd : Int} {writable : Bool}
    (h : cliOnConnect args fuel fd writable s = .ok s') : s'.stats = s.stats := by
  rw [cliOnConnect] at h
  split_ifs at h
  · obtain ⟨s₁, hdel, h⟩ := exec_bind_eq_ok.mp h
    obtain ⟨⟨ok, s₂⟩, hconn, hret⟩ := exec_bind_eq_ok.mp h
    cases hret
    obtain rfl := aeDeleteWritable_ok hdel
    have hone := ((statsKept args fuel).connected hconn).1
    exact hone
  · exact ((statsKept args fuel).reconnect h).1.1

end Counters

/-! ### Responses -/

/-- What a response does to the statistics: one that cannot be decoded (`none`) is accounted for, and
one that can be decoded is counted as a success, whatever its status. -/
def CliStats.answer (st : CliStats) : Option DubboRes → CliStats
  | none => { st with answered := st.answered + 1 }
  | some res =>
    { st with okN := st.okN + 1, answered := st.answered + 1, decoded := st.decoded ++ [res] }

/-- The event makes `cli_on_read` read, and what is in the receive buffer then, `b`, passes for a
complete packet, so that it is given to `dubbo_decode`. -/
inductive PacketAt (s : CliState) : AeEvent → Buffer → Prop
  /-- `readv` returns bytes. -/
  | read {fd data rs n errno b remaining} : s.stopped = false → s.readable fd = true →
      bufReadFd s.rcvBuf 0 (.got data) = .ok (n, errno, b) → 0 < n → isDubboPkt b = .ok true →
      isCompletedDubboPkt b = .ok (some remaining) → PacketAt s (.read fd (.got data :: rs)) b

section Responses

variable {args : CliArgs} {fuel : Nat} {s s' : CliState} {e : AeEvent} {b b' : Buffer}

/-- There is one such buffer at most. -/
theorem PacketAt.unique (h : PacketAt s e b) (h' : PacketAt s e b') : b = b' := by
  cases h with
  | read _ _ hread =>
    cases h' with
    | read _ _ hread' =>
      rw [hread] at hread'
      cases hread'
      rfl

/-- `cli_decode_resp` and the counters of `cli_on_read`. -/
theorem stats_decodeResp {ok : Bool}
    (h : cliDecodeResp fuel { s with pipeLeft := s.pipeLeft + 1, reqLeft := s.reqLeft - 1 }
      = .ok (ok, s')) :
    ∃ res b, dubboDecode fuel s.rcvBuf = .ok (res, b) ∧ s'.stats = s.stats.answer res := by
  obtain ⟨⟨res, b⟩, hdecode, h⟩ := exec_bind_eq_ok.mp h
  refine ⟨res, b, hdecode, ?_⟩
  have hanswered : s.reqN - (s.reqLeft - 1) = s.reqN - s.reqLeft + 1 := by omega
  cases res with
  | none =>
    cases h
    show CliStats.mk s.okN s.koN (s.reqN - (s.reqLeft - 1)) s.decoded = _
    rw [hanswered]
    rfl
  | some res =>
    cases h
    show CliStats.mk (s.okN + 1) s.koN (s.reqN - (s.reqLeft - 1)) (s.decoded ++ [res]) = _
    rw [hanswered]
    rfl

/-- `cli_on_read` behind the test of `is_dubbo_pkt`: there is no complete packet, or a response. -/
theorem stats_receivedPkt (h : cliReceivedPkt args fuel s = .ok s') :
    isCompletedDubboPkt s.rcvBuf = .ok none ∧ s'.stats = s.stats
      ∨ ∃ remaining res b, isCompletedDubboPkt s.rcvBuf = .ok (some remaining)
        ∧ dubboDecode fuel s.rcvBuf = .ok (res, b) ∧ s'.stats = s.stats.answer res := by
  obtain ⟨remaining, hcompl, h⟩ := exec_bind_eq_ok.mp h
  cases remaining with
  | none =>
    cases h
    exact .inl ⟨hcompl, rfl⟩
  | some remaining =>
    obtain ⟨⟨ok, s₁⟩, hresp, h⟩ := exec_bind_eq_ok.mp h
    obtain ⟨res, b, hdecode, hs₁⟩ := stats_decodeResp hresp
    refine .inr ⟨remaining, res, b, hcompl, hdecode, ?_⟩
    rw [← hs₁]
    dsimp only at h
    -- whatever comes next counts nothing: the end, more requests, or a reconnect
    split_ifs at h
    · exact stats_end h
    · exact ((statsKept args fuel).pipeSend h).1
    · exact ((statsKept args fuel).reconnect h).1.1

/-- An empty buffer has no packet. -/
theorem isCompletedDubboPkt_empty (h : bufReadable b = 0) : isCompletedDubboPkt b = .ok none := by
  have hlt : ¬ dubboHdrLen ≤ bufReadable b := by
    rw [h]
    decide
  rw [isCompletedDubboPkt, isDubboPkt, if_neg hlt, exec_pure, exec_ok_bind, if_neg Bool.false_ne_true]
  rfl

/-- `cli_on_read` behind its loop: what is in the buffer is no packet, or it is counted. -/
theorem stats_received (h : cliReceived args fuel s = .ok s') :
    (∀ remaining, isDubboPkt s.rcvBuf = .ok true →
        isCompletedDubboPkt s.rcvBuf ≠ .ok (some remaining)) ∧ s'.stats = s.stats
      ∨ ∃ remaining res b, isDubboPkt s.rcvBuf = .ok true
        ∧ isCompletedDubboPkt s.rcvBuf = .ok (some remaining)
        ∧ dubboDecode fuel s.rcvBuf = .ok (res, b) ∧ s'.stats = s.stats.answer res := by
  obtain ⟨pkt, hpkt, h⟩ := exec_bind_eq_ok.mp h
  cases pkt with
  | true =>
    rw [if_pos rfl] at h
    rcases stats_receivedPkt h with ⟨hnone, hsame⟩ | ⟨remaining, res, b, hsome, hdecode, hans⟩
    · refine .inl ⟨fun remaining _ hsome => ?_, hsame⟩
      cases hnone.symm.trans hsome
    · exact .inr ⟨remaining, res, b, hpkt, hsome, hdecode, hans⟩
  | false =>
    -- behind the reconnect there is nothing in the buffer
    rw [if_neg Bool.false_ne_true] at h
    obtain ⟨s₁, hre, h⟩ := exec_bind_eq_ok.mp h
    obtain ⟨hone, hempty⟩ := (statsKept args fuel).reconnect hre
    have hnone := isCompletedDubboPkt_empty hempty
    refine .inl ⟨fun remaining htrue => (nomatch hpkt.symm.trans htrue), ?_⟩
    rcases stats_receivedPkt h with ⟨-, hsame⟩ | ⟨remaining, res, b, hsome, -⟩
    · exact hsame.trans hone.1
    · cases hnone.symm.trans hsome

/-- `readv` returns no negative number of bytes. -/
theorem bufReadFd_got {data : List UInt8} {errno : Int} {r : Int × Int × Buffer}
    (h : bufReadFd b errno (.got data) = .ok r) : 0 ≤ r.1 := by
  obtain ⟨-, -, h⟩ := exec_bind_eq_ok.mp h
  obtain ⟨b₁, -, h⟩ := exec_bind_eq_ok.mp h
  split_ifs at h
  · cases h
    exact Int.natCast_nonneg _
  · obtain ⟨b₂, -, hret⟩ := exec_bind_eq_ok.mp h
    cases hret
    exact Int.natCast_nonneg _

/-- The loop of `cli_on_read` ends with the bytes of its first call of `readv`, or reconnects. -/
theorem stats_readLoop {rs : List ReadvRes} {go : Bool}
    (h : cliReadLoop args fuel rs s = .ok (go, s')) :
    (∃ data rs' n errno b, rs = .got data :: rs'
        ∧ bufReadFd s.rcvBuf 0 (.got data) = .ok (n, errno, b) ∧ 0 < n ∧ go = true
        ∧ s' = { s with rcvBuf := b })
      ∨ go = false ∧ s'.stats = s.stats
        ∧ ∀ data rs' n errno b, rs = .got data :: rs' →
          bufReadFd s.rcvBuf 0 (.got data) = .ok (n, errno, b) → ¬ 0 < n := by
  cases rs with
  | nil => cases h
  | cons r rs =>
    cases r with
    | fail e =>
      -- the loop reconnects, whatever `errno` was
      obtain ⟨rfl, -⟩ := reconnects_lt_of_fail h
      cases cliReadLoop_ok h with
      | lost rcvBuf hre =>
        have hone := ((statsKept args fuel).reconnect hre).1.1
        exact .inr ⟨rfl, hone, fun data rs' n errno b heq => nomatch heq⟩
    | got data =>
      rw [cliReadLoop] at h
      obtain ⟨⟨n, errno, b⟩, hread, h⟩ := exec_bind_eq_ok.mp h
      have hnonneg := bufReadFd_got hread
      dsimp only at h hnonneg
      rw [if_neg (not_lt_of_ge hnonneg)] at h
      split_ifs at h with hzero
      · -- the peer has closed the connection
        obtain ⟨s₁, hre, hret⟩ := exec_bind_eq_ok.mp h
        cases hret
        have hone := ((statsKept args fuel).reconnect hre).1.1
        refine .inr ⟨rfl, hone, fun data' rs' n' errno' b' heq hread' => ?_⟩
        cases heq
        cases hread.symm.trans hread'
        omega
      · cases h
        exact .inl ⟨data, rs, n, errno, b, rfl, hread, by omega, rfl, rfl⟩

/-- **`cli_on_read`** counts a response exactly when the event brings a packet. -/
theorem stats_onRead {fd : Int} {rs : List ReadvRes} (hlive : s.stopped = false)
    (hreg : s.readable fd = true) (h : cliOnRead args fuel rs s = .ok s') :
    (∀ b, ¬ PacketAt s (.read fd rs) b) ∧ s'.stats = s.stats
      ∨ ∃ b res b', PacketAt s (.read fd rs) b ∧ dubboDecode fuel b = .ok (res, b')
        ∧ s'.stats = s.stats.answer res := by
  obtain ⟨-, -, h⟩ := exec_bind_eq_ok.mp h
  obtain ⟨⟨go, s₁⟩, hloop, h⟩ := exec_bind_eq_ok.mp h
  rcases stats_readLoop hloop with ⟨data, rs, n, errno, b, rfl, hread, hpos, rfl, rfl⟩
    | ⟨rfl, hsame, hnone⟩
  · rcases stats_received h with ⟨hno, hsame⟩ | ⟨remaining, res, b', hpkt, hsome, hdecode, hans⟩
    · refine .inl ⟨fun b' hat => ?_, hsame⟩
      cases hat with
      | read _ _ hread' _ hpkt hsome =>
        cases hread.symm.trans hread'
        exact hno _ hpkt hsome
    · exact .inr ⟨b, res, b', .read hlive hreg hread hpos hpkt hsome, hdecode, hans⟩
  · cases h
    refine .inl ⟨fun b hat => ?_, hsame⟩
    cases hat with
    | read _ _ hread hpos _ _ => exact hnone _ _ _ _ _ rfl hread hpos

/-- **What an event does to the statistics**: nothing, or it brings a packet. -/
theorem stats_handle {u : Unit} (h : cliHandle args fuel s e = .ok (u, s')) :
    (∀ b, ¬ PacketAt s e b) ∧ s'.stats = s.stats
      ∨ ∃ b res b', PacketAt s e b ∧ dubboDecode fuel b = .ok (res, b')
        ∧ s'.stats = s.stats.answer res := by
  rw [cliHandle] at h
  split_ifs at h with hfires
  · obtain ⟨s₁, hhandler, hret⟩ := exec_bind_eq_ok.mp h
    cases hret
    cases e with
    | read fd rs => exact stats_onRead hfires.1 hfires.2 hhandler
    | write fd => exact .inl ⟨fun b hat => (by cases hat), stats_onWrite hhandler⟩
    | connect fd writable => exact .inl ⟨fun b hat => (by cases hat), stats_onConnect hhandler⟩
    | timeout =>
      exact .inl ⟨fun b hat => (by cases hat), ((statsKept args fuel).reconnect hhandler).1.1⟩
  · cases h
    refine .inl ⟨fun b hat => ?_, rfl⟩
    cases hat with
    | read hlive hreg _ _ _ _ => exact hfires ⟨hlive, hreg⟩

end Responses

/-! ### Adding up -/

/-- The statistics add up: `ok_n` is the number of responses with the status OK, and the responses
accounted for are the successes and the failures. -/
structure CliStats.AddUp (st : CliStats) : Prop where
  /-- The successes. -/
  okN : st.okN = (st.decoded.filter DubboRes.ok).length
  /-- The successes and the failures. -/
  total : st.okN + st.koN = st.answered

/-- The response the event brings, if any, is decoded and has the status OK. -/
def RespondsOk (fuel : Nat) (s : CliState) (e : AeEvent) : Prop :=
  ∀ b res b', PacketAt s e b → dubboDecode fuel b = .ok (res, b') →
    ∃ r, res = some r ∧ r.ok = true

/-- **A response keeps the statistics adding up exactly when it is a success.** -/
theorem CliStats.AddUp.answer_iff {st : CliStats} (h : st.AddUp) (res : Option DubboRes) :
    (st.answer res).AddUp ↔ ∃ r, res = some r ∧ r.ok = true := by
  have hok := h.okN
  have htotal := h.total
  cases res with
  | none =>
    -- accounted for, and neither a success nor a failure
    refine iff_of_false (fun hadd => ?_) fun ⟨r, hr, _⟩ => nomatch hr
    have htotal' : st.okN + st.koN = st.answered + 1 := hadd.total
    omega
  | some res =>
    -- counted as a success: the number is right only when it is one
    have hlen (hadd : (st.answer (some res)).okN
        = ((st.answer (some res)).decoded.filter DubboRes.ok).length) : res.ok = true := by
      by_contra hno
      change st.okN + 1 = ((st.decoded ++ [res]).filter DubboRes.ok).length at hadd
      rw [List.filter_append, List.filter_singleton, Bool.eq_false_of_not_eq_true hno, cond_false,
        List.append_nil] at hadd
      omega
    constructor
    · intro hadd
      exact ⟨res, rfl, hlen hadd.okN⟩
    · rintro ⟨r, hr, hrok⟩
      cases hr
      refine ⟨?_, ?_⟩
      · show st.okN + 1 = ((st.decoded ++ [res]).filter DubboRes.ok).length
        rw [List.filter_append, List.filter_singleton, hrok, cond_true, List.length_append,
          List.length_singleton]
        omega
      · show st.okN + 1 + st.koN = st.answered + 1
        omega

/-- **One event** keeps the statistics adding up exactly when the response it brings is a success. -/
theorem CliStats.AddUp.handle_iff {args : CliArgs} {fuel : Nat} {s s' : CliState} {e : AeEvent}
    {u : Unit} (h : s.stats.AddUp) (hok : cliHandle args fuel s e = .ok (u, s')) :
    s'.stats.AddUp ↔ RespondsOk fuel s e := by
  rcases stats_handle hok with ⟨hno, hsame⟩ | ⟨b, res, b', hat, hdecode, hans⟩
  · rw [hsame]
    exact iff_of_true h fun b res b' hat => absurd hat (hno b)
  · rw [hans, h.answer_iff]
    constructor
    · rintro hres b₁ res₁ b₁' hat₁ hdecode₁
      obtain rfl := hat.unique hat₁
      cases hdecode.symm.trans hdecode₁
      exact hres
    · intro hresp
      exact hresp b res b' hat hdecode

/-- Starting counts nothing. -/
theorem stats_bench {args : CliArgs} {fuel : Nat} {pipeN reqN : Int} {lastReqid : Int64} {net : Net}
    {ok : Bool} {s : CliState}
    (h : dubboBenchAsync args fuel pipeN reqN lastReqid net = .ok (ok, s)) : s.stats.AddUp := by
  obtain ⟨s₀, hcreate, hstart⟩ := exec_bind_eq_ok.mp h
  obtain ⟨rcvBuf, -, hcreate⟩ := exec_bind_eq_ok.mp hcreate
  obtain ⟨sndBuf, -, hcreate⟩ := exec_bind_eq_ok.mp hcreate
  cases hcreate
  have hone := ((statsKept args fuel).connect hstart).1
  rw [hone]
  refine ⟨rfl, ?_⟩
  show (0 : Int) + 0 = reqN - reqN
  omega

/-- **The statistics add up at every point of a run exactly when every response of the run is decoded
and has the status OK.** -/
theorem cli_stats_add_up_iff (args : CliArgs) (fuel : Nat) (pipeN reqN : Int) (lastReqid : Int64)
    (net : Net) (events : List AeEvent) :
    (∀ before after s, events = before ++ after →
        CliRun args fuel pipeN reqN lastReqid net before s → s.stats.AddUp) ↔
      ∀ before e after s u s', events = before ++ e :: after →
        CliRun args fuel pipeN reqN lastReqid net before s →
          cliHandle args fuel s e = .ok (u, s') → RespondsOk fuel s e := by
  cases hstart : dubboBenchAsync args fuel pipeN reqN lastReqid net with
  | error err =>
    -- the client does not start
    have hno (es : List AeEvent) (s : CliState) :
        ¬ CliRun args fuel pipeN reqN lastReqid net es s := by
      rintro ⟨ok, s₁, rs, hstart', -⟩
      cases hstart.symm.trans hstart'
    exact iff_of_true (fun before after s _ hrun => absurd hrun (hno before s))
      fun before e after s u s' _ hrun => absurd hrun (hno before s)
  | ok r =>
    -- every run continues the same start, from which the statistics are followed event by event
    obtain ⟨ok, s₁⟩ := r
    have hfrom {es : List AeEvent} {s : CliState}
        (hrun : CliRun args fuel pipeN reqN lastReqid net es s) :
        ∃ rs, runOps (cliHandle args fuel) s₁ es = .ok (rs, s) := by
      obtain ⟨ok', s₁', rs, hstart', hes⟩ := hrun
      cases hstart.symm.trans hstart'
      exact ⟨rs, hes⟩
    have hstep (s : CliState) (e : AeEvent) (u : Unit) (s' : CliState) (h : s.stats.AddUp)
        (hok : cliHandle args fuel s e = .ok (u, s')) : s'.stats.AddUp ↔ RespondsOk fuel s e :=
      h.handle_iff hok
    have hiff := runOps_points_iff (I := fun s => s.stats.AddUp) (C := RespondsOk fuel) hstep
      (stats_bench hstart) events
    constructor
    · intro hall before e after s u s' heq hrun hstep
      obtain ⟨rs, hes⟩ := hfrom hrun
      refine hiff.mp (fun before after rs t heq ht => ?_) before e after rs s u s' heq hes hstep
      exact hall before after t heq ⟨ok, s₁, rs, hstart, ht⟩
    · intro hall before after s heq hrun
      obtain ⟨rs, hes⟩ := hfrom hrun
      refine hiff.mpr (fun before e after rs t u t' heq ht hstep => ?_) before after rs s heq hes
      exact hall before e after t u t' heq ⟨ok, s₁, rs, hstart, ht⟩ hstep

/-- A response with the status 70 and the message `b`. -/
def failureFrame : ResFrame :=
  ⟨1, true, .failure ⟨70, by decide⟩ false ⟨[], .short, [asciiChar 0x62 (by decide)], by decide⟩ [],
    by decide, by decide⟩

/-- A client that is asked for one request reports one success and no failure for a response with an
error status, and neither for one whose body begins with the unknown type `0x93`. -/
theorem cli_stats_wrong :
    (∃ s, CliRun shortArgs 10 1 1 0 slowNet [.read 3 [.got failureFrame.bytes]] s
      ∧ s.stopped = true ∧ s.okN = 1 ∧ s.koN = 0 ∧ ¬ s.stats.AddUp) ∧
    ∃ s, CliRun shortArgs 10 1 1 0 slowNet [.read 3 [.got (nullFrame.bytes.dropLast ++ [0x93])]] s
      ∧ s.stopped = true ∧ s.okN = 0 ∧ s.koN = 0 ∧ ¬ s.stats.AddUp := by
  constructor
  · obtain ⟨s, hcli, hstop, hok, hko, hnone⟩ : ∃ s, CliRun shortArgs 10 1 1 0 slowNet
        [.read 3 [.got failureFrame.bytes]] s ∧ s.stopped = true ∧ s.okN = 1 ∧ s.koN = 0
          ∧ (s.decoded.filter DubboRes.ok).length = 0 :=
      CliRun.of_returns (by decide +kernel)
    refine ⟨s, hcli, hstop, hok, hko, fun hadd => ?_⟩
    have hone : s.okN = (s.decoded.filter DubboRes.ok).length := hadd.okN
    omega
  · obtain ⟨s, hcli, hstop, hok, hko, hone⟩ : ∃ s, CliRun shortArgs 10 1 1 0 slowNet
        [.read 3 [.got (nullFrame.bytes.dropLast ++ [0x93])]] s ∧ s.stopped = true ∧ s.okN = 0
          ∧ s.koN = 0 ∧ s.reqN - s.reqLeft = 1 :=
      CliRun.of_returns (by decide +kernel)
    refine ⟨s, hcli, hstop, hok, hko, fun hadd => ?_⟩
    have htotal : s.okN + s.koN = s.reqN - s.reqLeft := hadd.total
    omega

end Wee
