import Wee.Dubbo.Codec
import Mathlib.Logic.Function.Basic

/-! # The asynchronous Dubbo client (`dubbo_client/dubbo_client.c`)

The benchmark client keeps up to `pipe_n` requests in flight on one connection and reconnects when
something goes wrong. `CliState` is the `struct dubbo_client` together with what its handlers act
on: the registrations in the event loop (`3rd/ae/ae.c`), the static counter of `next_reqid`, and the
outcomes of the system calls to come. The last fields record what has happened, for statements about
runs; no function reads them.

`cli_connected`, `cli_connect`, `cli_reconnect`, `cli_send_req` and `cli_pipe_send` call each other
without a bound, so they take fuel. -/

namespace Wee

/-! ### State -/

/-- The result of a system call and the `errno` behind it. -/
structure SysRes where
  /-- The value returned. -/
  ret : Int
  /-- `errno` after the call. -/
  errno : Int
  deriving DecidableEq, Repr

/-- `EINTR`. -/
def eintr : Int := 4

/-- `EAGAIN`. -/
def eagain : Int := 11

/-- `EINPROGRESS`. -/
def einprogress : Int := 115

/-- The outcomes of the calls the client makes, in the order of the calls. -/
structure Net where
  /-- `socket_create`. -/
  sockets : Nat → Int
  /-- `socket_connect`. -/
  connects : Nat → SysRes
  /-- `write`. -/
  writes : Nat → SysRes
  /-- `aeApiAddEvent`: whether it succeeds. -/
  adds : Nat → Bool
  /-- The allocation in `aeCreateTimeEvent`. -/
  timers : Nat → Bool

/-- The handlers registered for `AE_WRITABLE`. -/
inductive WriteProc
  /-- `cli_on_connect`. -/
  | onConnect
  /-- `cli_on_write`. -/
  | onWrite
  deriving DecidableEq, Repr

/-- The arguments of the client, with the `rebuild_json_args` of the codec. -/
structure CliArgs where
  /-- `rebuild_json_args`. -/
  rebuildJsonArgs : CStr → Option CStr
  /-- `args->service`. -/
  service : CStr
  /-- `args->method`. -/
  method : CStr
  /-- `args->args`. -/
  args : CStr

/-- `struct dubbo_client` and its surroundings. -/
structure CliState where
  /-- `rcv_buf`. -/
  rcvBuf : Buffer
  /-- `snd_buf`. -/
  sndBuf : Buffer
  /-- `pipe_n`. -/
  pipeN : Int
  /-- `pipe_left`. -/
  pipeLeft : Int
  /-- `req_n`. -/
  reqN : Int
  /-- `req_left`. -/
  reqLeft : Int
  /-- `ok_n`. -/
  okN : Int
  /-- `ko_n`. -/
  koN : Int
  /-- `fd`. -/
  fd : Int
  /-- `connected`. -/
  connected : Bool
  /-- `run`. -/
  run : Bool
  /-- `timerid` is not `AE_NOMORE`. -/
  timer : Bool
  /-- The descriptors for which `cli_on_read` is registered. -/
  readable : Int → Bool
  /-- The handlers registered for writability. -/
  writable : Int → Option WriteProc
  /-- `aeStop` has been called. -/
  stopped : Bool
  /-- The static counter of `next_reqid`. -/
  lastReqid : Int64
  /-- The outcomes of the calls to come. -/
  net : Net
  /-- The responses decoded. -/
  decoded : List DubboRes
  /-- The number of calls of `cli_reconnect`. -/
  reconnects : Nat
  /-- The number of calls of `cli_send_req`. -/
  requests : Nat
  /-- The bytes `write` has accepted. -/
  written : List UInt8

/-- The state behind a call of `socket_create`, with the descriptor it returned. -/
def CliState.nextSocket (s : CliState) : CliState :=
  { s with fd := s.net.sockets 0,
           net := { s.net with sockets := fun n => s.net.sockets (n + 1) } }

/-- The state behind a call of `socket_connect`. -/
def CliState.nextConnect (s : CliState) : CliState :=
  { s with net := { s.net with connects := fun n => s.net.connects (n + 1) } }

/-- The state behind a call of `write`. -/
def CliState.nextWrite (s : CliState) : CliState :=
  { s with net := { s.net with writes := fun n => s.net.writes (n + 1) } }

/-- The state behind a call of `aeApiAddEvent`. -/
def CliState.nextAdd (s : CliState) : CliState :=
  { s with net := { s.net with adds := fun n => s.net.adds (n + 1) } }

/-- The state behind a call of `aeCreateTimeEvent`, with the timer it set. -/
def CliState.nextTimer (s : CliState) : CliState :=
  { s with timer := s.net.timers 0,
           net := { s.net with timers := fun n => s.net.timers (n + 1) } }

/-! ### The event loop -/

/-- The `setsize` of the event loop. -/
def aeSetSize : Int := 1024

/-- `aeCreateFileEvent` for `AE_READABLE` and `cli_on_read`; the array of events has no entry before
the first. -/
def aeCreateReadable (s : CliState) (fd : Int) : Exec (Bool × CliState) :=
  if aeSetSize ≤ fd then return (false, s)
  else if fd < 0 then .error .outOfBounds
  else if s.net.adds 0 then
    return (true, { s.nextAdd with readable := Function.update s.readable fd true })
  else return (false, s.nextAdd)

/-- `aeCreateFileEvent` for `AE_WRITABLE`. -/
def aeCreateWritable (s : CliState) (fd : Int) (proc : WriteProc) : Exec (Bool × CliState) :=
  if aeSetSize ≤ fd then return (false, s)
  else if fd < 0 then .error .outOfBounds
  else if s.net.adds 0 then
    return (true, { s.nextAdd with writable := Function.update s.writable fd (some proc) })
  else return (false, s.nextAdd)

/-- `aeDeleteFileEvent` for `AE_WRITABLE`. -/
def aeDeleteWritable (s : CliState) (fd : Int) : Exec CliState :=
  if fd < 0 then .error .outOfBounds
  else return { s with writable := Function.update s.writable fd none }

/-- `aeDeleteFileEvent` for `AE_READABLE | AE_WRITABLE`. -/
def aeDeleteReadWritable (s : CliState) (fd : Int) : Exec CliState :=
  if fd < 0 then .error .outOfBounds
  else return { s with readable := Function.update s.readable fd false,
                       writable := Function.update s.writable fd none }

/-! ### Closing -/

/-- `cli_clear_timer`. -/
def cliClearTimer (s : CliState) : CliState := { s with timer := false }

/-- `cli_reset`. -/
def cliReset (s : CliState) : CliState :=
  { cliClearTimer { s with connected := false } with
    fd := -1, pipeLeft := s.pipeN, rcvBuf := bufRetrieveAll s.rcvBuf,
    sndBuf := bufRetrieveAll s.sndBuf }

/-- `cli_close`. -/
def cliClose (s : CliState) : Exec CliState := do
  let s ← aeDeleteReadWritable s s.fd
  return cliReset s

/-- `cli_end`. -/
def cliEnd (s : CliState) : Exec CliState :=
  if s.run then do
    let s ← cliClose s
    return { cliClearTimer s with run := false, stopped := true }
  else return s

/-! ### Sending -/

/-- The loop of `cli_write`: the last `nwritten`, the last `errno` and the state. `write` accepts at
most the bytes it is given. -/
def cliWriteLoop : Nat → CliState → Int → Int → Exec (Int × Int × CliState)
  | 0, _, _, _ => .error .outOfFuel
  | fuel + 1, s, nwritten, errno =>
    if bufReadable s.sndBuf = 0 then return (nwritten, errno, s)
    else if (s.net.writes 0).ret ≤ 0 then
      -- `continue` when interrupted, else `break`
      if (s.net.writes 0).errno = eintr then
        cliWriteLoop fuel s.nextWrite (s.net.writes 0).ret (s.net.writes 0).errno
      else return ((s.net.writes 0).ret, (s.net.writes 0).errno, s.nextWrite)
    else do
      let n := min (s.net.writes 0).ret.toNat (bufReadable s.sndBuf)
      let accepted ← memLoad s.sndBuf.buf s.sndBuf.readIdx n
      let sndBuf ← bufRetrieve s.sndBuf n
      cliWriteLoop fuel { s.nextWrite with sndBuf := sndBuf, written := s.written ++ accepted } n
        (s.net.writes 0).errno

/-- `cli_write`. -/
def cliWrite (fuel : Nat) (s : CliState) : Exec (Bool × CliState) :=
  if bufReadable s.sndBuf = 0 then do
    let s ← aeDeleteWritable s s.fd
    return (true, s)
  else do
    let (nwritten, errno, s) ← cliWriteLoop fuel s 0 0
    if nwritten ≤ 0 then
      -- the rest is written when the connection is writable again
      if errno = eagain then aeCreateWritable s s.fd .onWrite
      else return (false, s)
    else if bufReadable s.sndBuf = 0 then do
      let s ← aeDeleteWritable s s.fd
      return (true, s)
    else return (true, s)

/-- `cli_encode_req`, with the `PANIC` of `cli_send_req` when there is no buffer: the readable bytes
of the buffer. -/
def cliEncodeReq (args : CliArgs) (s : CliState) : Exec (List UInt8 × CliState) :=
  match dubboReqCreate args.rebuildJsonArgs (nextReqid s.lastReqid) args.service args.method
    args.args with
  | none => .error .exited
  | some req => do
    match ← dubboEncode req with
    | none => .error .exited
    | some buf =>
      let frame ← memLoad buf.buf buf.readIdx (bufReadable buf)
      return (frame, { s with lastReqid := nextReqid s.lastReqid })

mutual

/-- `cli_connected`. -/
def cliConnected (args : CliArgs) : Nat → CliState → Exec (Bool × CliState)
  | 0, _ => .error .outOfFuel
  | fuel + 1, s => do
    let (ok, s) ← aeCreateReadable (cliClearTimer { s with connected := true }) s.fd
    if ok then
      let s ← cliPipeSend args fuel s
      return (true, s)
    else return (false, s)

/-- `cli_connect`. -/
def cliConnect (args : CliArgs) : Nat → CliState → Exec (Bool × CliState)
  | 0, _ => .error .outOfFuel
  | fuel + 1, s =>
    -- without a descriptor `fd` is left alone; every other failure is a `goto close`
    if s.net.sockets 0 < 0 then return (false, { s.nextSocket with fd := s.fd })
    else if (s.net.connects 0).ret = 0 then cliConnected args fuel s.nextSocket.nextConnect
    else if (s.net.connects 0).errno = einprogress then do
      let (ok, s) ← aeCreateWritable s.nextSocket.nextConnect (s.net.sockets 0) .onConnect
      if ok then return (s.net.timers 0, s.nextTimer) else return (false, s)
    else return (false, s.nextSocket.nextConnect)

/-- `cli_reconnect`. -/
def cliReconnect (args : CliArgs) : Nat → CliState → Exec CliState
  | 0, _ => .error .outOfFuel
  | fuel + 1, s => do
    let s ← cliClose { s with reconnects := s.reconnects + 1 }
    -- a failure to connect is only logged
    let (_, s) ← cliConnect args fuel s
    return s

/-- `cli_send_req`. -/
def cliSendReq (args : CliArgs) : Nat → CliState → Exec CliState
  | 0, _ => .error .outOfFuel
  | fuel + 1, s => do
    let (frame, s) ← cliEncodeReq args { s with requests := s.requests + 1 }
    let sndBuf ← bufAppend s.sndBuf frame
    let (ok, s) ← cliWrite fuel { s with sndBuf := sndBuf }
    if ok then return s else cliReconnect args fuel s

/-- `cli_pipe_send`. -/
def cliPipeSend (args : CliArgs) : Nat → CliState → Exec CliState
  | 0, _ => .error .outOfFuel
  | fuel + 1, s =>
    -- the condition is a post-decrement; behind the loop the counter is incremented again
    if s.pipeLeft = 0 then return { s with pipeLeft := s.pipeLeft - 1 + 1 }
    else do
      let s ← cliSendReq args fuel { s with pipeLeft := s.pipeLeft - 1 }
      cliPipeSend args fuel s

end

/-! ### Handlers -/

/-- `cli_decode_resp`. -/
def cliDecodeResp (fuel : Nat) (s : CliState) : Exec (Bool × CliState) := do
  match ← dubboDecode fuel s.rcvBuf with
  | (none, buf) => return (false, { s with rcvBuf := buf })
  | (some res, buf) =>
    -- both branches of the source count the response as a success
    return (true, { s with rcvBuf := buf, okN := s.okN + 1, decoded := s.decoded ++ [res] })

/-- The loop of `cli_on_read` over the outcomes of its calls of `readv`; `false` is the `return`
behind a reconnect. -/
def cliReadLoop (args : CliArgs) (fuel : Nat) : List ReadvRes → CliState → Exec (Bool × CliState)
  | [], _ => .error .outOfFuel
  | r :: rs, s => do
    -- `errno_` is set to `0` before each call
    let (n, errno, buf) ← bufReadFd s.rcvBuf 0 r
    let s := { s with rcvBuf := buf }
    if n < 0 then
      if errno = eintr then cliReadLoop args fuel rs s
      else if errno = eagain then return (true, s)
      else
        let s ← cliReconnect args fuel s
        return (false, s)
    else if n = 0 then
      let s ← cliReconnect args fuel s
      return (false, s)
    else return (true, s)

/-- `cli_on_read` behind the test of `is_dubbo_pkt`. -/
def cliReceivedPkt (args : CliArgs) (fuel : Nat) (s : CliState) : Exec CliState := do
  match ← isCompletedDubboPkt s.rcvBuf with
  -- `remaining` is not asked for
  | none => return s
  | some _ =>
    let (ok, s) ← cliDecodeResp fuel { s with pipeLeft := s.pipeLeft + 1, reqLeft := s.reqLeft - 1 }
    -- the last response ends the client even when it could not be decoded
    if s.reqLeft ≤ 0 then cliEnd s
    else if ok then cliPipeSend args fuel s
    else cliReconnect args fuel s

/-- `cli_on_read` behind its loop. -/
def cliReceived (args : CliArgs) (fuel : Nat) (s : CliState) : Exec CliState := do
  if ← isDubboPkt s.rcvBuf then cliReceivedPkt args fuel s
  else
    -- the source reconnects without a `return`
    let s ← cliReconnect args fuel s
    cliReceivedPkt args fuel s

/-- `cli_on_read`, given the outcomes of its calls of `readv`. -/
def cliOnRead (args : CliArgs) (fuel : Nat) (rs : List ReadvRes) (s : CliState) :
    Exec CliState := do
  cassert (s.connected = true)
  let (go, s) ← cliReadLoop args fuel rs s
  if go then cliReceived args fuel s else return s

/-- `cli_on_write`. -/
def cliOnWrite (args : CliArgs) (fuel : Nat) (s : CliState) : Exec CliState := do
  cassert (s.connected = true)
  let (ok, s) ← cliWrite fuel s
  if ok then return s else cliReconnect args fuel s

/-- `cli_on_connect` for the descriptor `fd`; `writable` is whether the mask has `AE_WRITABLE`. -/
def cliOnConnect (args : CliArgs) (fuel : Nat) (fd : Int) (writable : Bool) (s : CliState) :
    Exec CliState :=
  if writable then do
    let s ← aeDeleteWritable s fd
    let (_, s) ← cliConnected args fuel s
    return s
  else cliReconnect args fuel s

/-- `cli_connect_timeout`. -/
def cliConnectTimeout (args : CliArgs) (fuel : Nat) (s : CliState) : Exec CliState :=
  cliReconnect args fuel s

/-! ### Starting -/

/-- `CLI_INIT_BUF_SZ`. -/
def cliInitBufSz : Nat := 1024

/-- `cli_create`. -/
def cliCreate (pipeN reqN : Int) (lastReqid : Int64) (net : Net) : Exec CliState := do
  let rcvBuf ← bufCreate cliInitBufSz
  let sndBuf ← bufCreate cliInitBufSz
  return cliReset
    { rcvBuf := rcvBuf, sndBuf := sndBuf, pipeN := if reqN < pipeN then reqN else pipeN,
      pipeLeft := pipeN, reqN := reqN, reqLeft := reqN, okN := 0, koN := 0, fd := 0,
      connected := false, run := false, timer := false, readable := fun _ => false,
      writable := fun _ => none, stopped := false, lastReqid := lastReqid, net := net,
      decoded := [], reconnects := 0, requests := 0, written := [] }

/-- `cli_start`. -/
def cliStart (args : CliArgs) (fuel : Nat) (s : CliState) : Exec (Bool × CliState) :=
  if s.run then return (false, s) else cliConnect args fuel { s with run := true }

/-- `dubbo_bench_async`. -/
def dubboBenchAsync (args : CliArgs) (fuel : Nat) (pipeN reqN : Int) (lastReqid : Int64) (net : Net) :
    Exec (Bool × CliState) := do
  let s ← cliCreate pipeN reqN lastReqid net
  cliStart args fuel s

/-! ### The event loop at work -/

/-- What `aeMain` reports to the client. -/
inductive CliEvent
  /-- The connection is readable, and `readv` returns these bytes. -/
  | readable (chunk : List UInt8)
  /-- The connection is writable. -/
  | writable
  /-- The time set for connecting is over. -/
  | timeout
  deriving DecidableEq, Repr

/-- `aeProcessEvents` for one event: the handler that is registered is called, until the loop has
been stopped. -/
def cliStep (args : CliArgs) (fuel : Nat) (s : CliState) : CliEvent → Exec (Unit × CliState)
  | .readable chunk =>
    if s.stopped = false ∧ s.readable s.fd = true then do
      let s ← cliOnRead args fuel [.got chunk] s
      return ((), s)
    else return ((), s)
  | .writable =>
    if s.stopped then return ((), s)
    else
      match s.writable s.fd with
      | none => return ((), s)
      | some .onConnect => do
        let s ← cliOnConnect args fuel s.fd true s
        return ((), s)
      | some .onWrite => do
        let s ← cliOnWrite args fuel s
        return ((), s)
  | .timeout =>
    if s.stopped = false ∧ s.timer = true then do
      let s ← cliConnectTimeout args fuel s
      return ((), s)
    else return ((), s)

/-! ### Any outcome of the calls -/

/-- What the event loop reports: a descriptor or the timer, with the outcomes of the calls that the
handler makes on what it reads. -/
inductive AeEvent
  /-- `fd` is readable; `rs` are the outcomes of `readv`. -/
  | read (fd : Int) (rs : List ReadvRes)
  /-- `fd` is writable, and `cli_on_write` is registered. -/
  | write (fd : Int)
  /-- `fd` is writable, and `cli_on_connect` is registered; `writable` is whether the mask has
  `AE_WRITABLE`. -/
  | connect (fd : Int) (writable : Bool)
  /-- The time set for connecting is over. -/
  | timeout

/-- The handler of the event is registered. -/
def AeEvent.Registered (s : CliState) : AeEvent → Prop
  | .read fd _ => s.readable fd = true
  | .write fd => s.writable fd = some .onWrite
  | .connect fd _ => s.writable fd = some .onConnect
  | .timeout => s.timer = true

instance (s : CliState) : ∀ e : AeEvent, Decidable (e.Registered s)
  | .read fd _ => inferInstanceAs (Decidable (s.readable fd = true))
  | .write fd => inferInstanceAs (Decidable (s.writable fd = some .onWrite))
  | .connect fd _ => inferInstanceAs (Decidable (s.writable fd = some .onConnect))
  | .timeout => inferInstanceAs (Decidable (s.timer = true))

/-- The handler of the event. -/
def AeEvent.handler (args : CliArgs) (fuel : Nat) (s : CliState) : AeEvent → Exec CliState
  | .read _ rs => cliOnRead args fuel rs s
  | .write _ => cliOnWrite args fuel s
  | .connect fd writable => cliOnConnect args fuel fd writable s
  | .timeout => cliConnectTimeout args fuel s

/-- `aeProcessEvents` for one event: the handler is called if it is registered, until the loop has
been stopped. -/
def cliHandle (args : CliArgs) (fuel : Nat) (s : CliState) (e : AeEvent) : Exec (Unit × CliState) :=
  if s.stopped = false ∧ e.Registered s then do
    let s ← e.handler args fuel s
    return ((), s)
  else return ((), s)

end Wee
