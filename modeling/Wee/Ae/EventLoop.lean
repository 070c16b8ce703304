import Wee.Lib.Ring
import Wee.Lib.Script

/-! # The event loop (`3rd/ae/ae.c`, `3rd/ae/ae_epoll.c`)

The loop keeps the registered events in an array by descriptor, and the timers in a list; the kernel
has a table of its own, which `epoll_ctl` changes. Callbacks are scripts that call the functions of
the loop; nothing else is known of them. What the clock shows and which descriptors are ready comes
from outside. No allocation fails, and an address is not used twice. A descriptor is not negative. -/

namespace Wee

/-! ### Events -/

/-- `AE_READABLE` and `AE_WRITABLE`, or'ed. -/
structure AeMask where
  /-- `AE_READABLE`. -/
  readable : Bool
  /-- `AE_WRITABLE`. -/
  writable : Bool
  deriving DecidableEq

/-- `AE_NONE`. -/
def aeNone : AeMask := ⟨false, false⟩

/-- `a | b`. -/
def AeMask.or (a b : AeMask) : AeMask := ⟨a.readable || b.readable, a.writable || b.writable⟩

/-- `a & (~b)`. -/
def AeMask.without (a b : AeMask) : AeMask := ⟨a.readable && !b.readable, a.writable && !b.writable⟩

/-- `aeFileEvent`; a field that has not been stored is `none`. `κ` are the functions and `δ` the
pointers a client gives. -/
structure AeFileEvent (κ δ : Type) where
  /-- `mask`. -/
  mask : AeMask
  /-- `rfileProc`. -/
  rfileProc : Option κ
  /-- `wfileProc`. -/
  wfileProc : Option κ
  /-- `clientData`. -/
  clientData : Option δ

/-- `aeTimeEvent`. -/
structure AeTimeEvent (κ δ : Type) where
  /-- `id`. -/
  id : Int
  /-- `when_sec`. -/
  whenSec : Int
  /-- `when_ms`. -/
  whenMs : Int
  /-- `timeProc`. -/
  timeProc : κ
  /-- `finalizerProc`. -/
  finalizerProc : Option κ
  /-- `clientData`. -/
  clientData : δ
  /-- `next`. -/
  next : Option Nat

/-- `EPOLLIN`, `EPOLLOUT`, `EPOLLERR` and `EPOLLHUP`, or'ed. -/
structure EpollEvents where
  /-- `EPOLLIN`. -/
  pollin : Bool
  /-- `EPOLLOUT`. -/
  pollout : Bool
  /-- `EPOLLERR`. -/
  pollerr : Bool
  /-- `EPOLLHUP`. -/
  pollhup : Bool
  deriving DecidableEq

/-- The table of the kernel. -/
structure Epoll where
  /-- The open descriptors. -/
  opened : Nat → Bool
  /-- The descriptors that are watched, `EPOLLIN` as `readable` and `EPOLLOUT` as `writable`. -/
  interest : Nat → Option AeMask

/-- What the clock shows. -/
structure AeTime where
  /-- Seconds. -/
  sec : Int
  /-- Milliseconds. -/
  ms : Int
  deriving DecidableEq

/-- What is outside the program. -/
structure AeOutside where
  /-- Each reading of the clock. -/
  clock : Nat → AeTime
  /-- The descriptors that are ready at each call of `epoll_wait`. -/
  ready : Nat → List (Nat × EpollEvents)

/-- `aeEventLoop`, the kernel and the heap. -/
structure AeEventLoop (κ δ : Type) where
  /-- `maxfd`. -/
  maxfd : Int
  /-- `setsize`. -/
  setsize : Nat
  /-- `timeEventNextId`. -/
  timeEventNextId : Int
  /-- `lastTime`. -/
  lastTime : Int
  /-- `events`. -/
  events : List (AeFileEvent κ δ)
  /-- `timeEventHead`. -/
  timeEventHead : Option Nat
  /-- `stop`. -/
  stop : Bool
  /-- `beforesleep`. -/
  beforesleep : Option κ
  /-- `aftersleep`. -/
  aftersleep : Option κ
  /-- `apidata`. -/
  epoll : Epoll
  /-- The time events that are allocated. -/
  timers : Nat → Option (AeTimeEvent κ δ)
  /-- The first address that has not been used. -/
  fresh : Nat
  /-- How often the clock has been read. -/
  ticks : Nat
  /-- How often `epoll_wait` has been called. -/
  polls : Nat

variable {κ δ σ : Type}

/-! ### The registered events -/

/-- The event at an entry of which only the mask is known. -/
def unsetFileEvent : AeFileEvent κ δ := ⟨aeNone, none, none, none⟩

/-- `aeCreateEventLoop`. -/
def aeCreateEventLoop (out : AeOutside) (opened : Nat → Bool) (setsize : Nat) : AeEventLoop κ δ where
  maxfd := -1
  setsize := setsize
  timeEventNextId := 0
  lastTime := (out.clock 0).sec
  events := List.replicate setsize unsetFileEvent
  timeEventHead := none
  stop := false
  beforesleep := none
  aftersleep := none
  epoll := { opened := opened, interest := fun _ => none }
  timers := fun _ => none
  fresh := 0
  ticks := 1
  polls := 0

/-- The new entries of `events`, with the masks from `first` on as `AE_NONE`. -/
def resizeEvents (junk : Nat → AeFileEvent κ δ) (events : List (AeFileEvent κ δ)) (first setsize : Nat) :
    List (AeFileEvent κ δ) :=
  (List.range setsize).map fun i =>
    let fe := events[i]?.getD (junk i)
    if first ≤ i then { fe with mask := aeNone } else fe

/-- `aeApiAddEvent`: `none` if `epoll_ctl` fails. It fails to add a descriptor that is watched, and to
modify one that is not; `refused` is any other failure. -/
def aeApiAddEvent (epoll : Epoll) (old : AeMask) (fd : Nat) (mask : AeMask) (refused : Bool) :
    Option Epoll :=
  let watched := (epoll.interest fd).isSome
  let mask := mask.or old
  if refused || !epoll.opened fd || watched != (old != aeNone) then none
  else some { epoll with interest := fun d => if d = fd then some mask else epoll.interest d }

/-- `aeApiDelEvent`: a failure of `epoll_ctl` changes nothing. -/
def aeApiDelEvent (epoll : Epoll) (old : AeMask) (fd : Nat) (delmask : AeMask) : Epoll :=
  let mask := old.without delmask
  if (epoll.interest fd).isNone then epoll
  else { epoll with interest := fun d =>
           if d = fd then if mask ≠ aeNone then some mask else none else epoll.interest d }

/-- `aeCreateFileEvent`. -/
def aeCreateFileEvent (l : AeEventLoop κ δ) (fd : Nat) (mask : AeMask) (proc : κ) (clientData : δ)
    (refused : Bool) : Exec (Int × AeEventLoop κ δ) :=
  if l.setsize ≤ fd then .ok (-1, l)
  else do
    let fe ← cellLoad l.events fd
    match aeApiAddEvent l.epoll fe.mask fd mask refused with
    | none => return (-1, l)
    | some epoll => do
      -- nothing has been stored before `epoll_ctl` succeeds
      let events ← cellStore l.events fd
        { mask := fe.mask.or mask
          rfileProc := if mask.readable then some proc else fe.rfileProc
          wfileProc := if mask.writable then some proc else fe.wfileProc
          clientData := some clientData }
      return (0, { l with events := events, epoll := epoll, maxfd := max l.maxfd fd })

/-- The loop of `aeDeleteFileEvent` that looks for the new `maxfd` below `j`. -/
def lowerMaxfd (events : List (AeFileEvent κ δ)) : Nat → Exec Int
  | 0 => .ok (-1)
  | j + 1 => do
    let fe ← cellLoad events j
    if fe.mask ≠ aeNone then return (j : Int) else lowerMaxfd events j

/-- The end of `aeDeleteFileEvent`. -/
def updateMaxfd (l : AeEventLoop κ δ) (fd : Nat) (mask : AeMask) : Exec (AeEventLoop κ δ) :=
  if (fd : Int) = l.maxfd ∧ mask = aeNone then do
    let maxfd ← lowerMaxfd l.events fd
    return { l with maxfd := maxfd }
  else .ok l

/-- `aeDeleteFileEvent`. -/
def aeDeleteFileEvent (l : AeEventLoop κ δ) (fd : Nat) (mask : AeMask) : Exec (AeEventLoop κ δ) :=
  if l.setsize ≤ fd then .ok l
  else do
    let fe ← cellLoad l.events fd
    if fe.mask = aeNone then return l
    else do
      let events ← cellStore l.events fd { fe with mask := fe.mask.without mask }
      updateMaxfd { l with events := events, epoll := aeApiDelEvent l.epoll fe.mask fd mask } fd
        (fe.mask.without mask)

/-- The value of a mask. -/
def AeMask.toInt (m : AeMask) : Int := (if m.readable then 1 else 0) + if m.writable then 2 else 0

/-- `aeGetFileEvents`. -/
def aeGetFileEvents (l : AeEventLoop κ δ) (fd : Nat) : Exec Int :=
  if l.setsize ≤ fd then .ok 0
  else do
    let fe ← cellLoad l.events fd
    return fe.mask.toInt

/-- `socket` and the like, with the descriptor that the kernel chooses. -/
def openDescriptor (l : AeEventLoop κ δ) (fd : Nat) : Int × AeEventLoop κ δ :=
  if l.epoll.opened fd then (-1, l)
  else (fd, { l with epoll := { l.epoll with opened := fun d => d = fd || l.epoll.opened d } })

/-- `close`: a descriptor that is closed is no longer watched. -/
def closeDescriptor (l : AeEventLoop κ δ) (fd : Nat) : Int × AeEventLoop κ δ :=
  if l.epoll.opened fd then
    (0, { l with epoll := { opened := fun d => d ≠ fd && l.epoll.opened d
                            interest := fun d => if d = fd then none else l.epoll.interest d } })
  else (-1, l)

/-! ### Timers -/

/-- `aeGetTime`. -/
def aeGetTime (out : AeOutside) (l : AeEventLoop κ δ) : AeTime × AeEventLoop κ δ :=
  (out.clock l.ticks, { l with ticks := l.ticks + 1 })

/-- `aeAddMillisecondsToNow`, given what `aeGetTime` returns. -/
def aeAddMillisecondsToNow (cur : AeTime) (milliseconds : Int) : AeTime :=
  let whenSec := cur.sec + milliseconds.tdiv 1000
  let whenMs := cur.ms + milliseconds.tmod 1000
  if 1000 ≤ whenMs then { sec := whenSec + 1, ms := whenMs - 1000 } else { sec := whenSec, ms := whenMs }

/-- The time event at an address. -/
def loadTimer (l : AeEventLoop κ δ) (p : Nat) : Exec (AeTimeEvent κ δ) :=
  match l.timers p with
  | some te => .ok te
  | none => .error .outOfBounds

/-- Store the time event at an address. -/
def storeTimer (l : AeEventLoop κ δ) (p : Nat) (te : AeTimeEvent κ δ) : AeEventLoop κ δ :=
  { l with timers := fun q => if q = p then some te else l.timers q }

/-- `zfree`. -/
def freeTimer (l : AeEventLoop κ δ) (p : Nat) : AeEventLoop κ δ :=
  { l with timers := fun q => if q = p then none else l.timers q }

/-- `aeCreateTimeEvent`. -/
def aeCreateTimeEvent (out : AeOutside) (l : AeEventLoop κ δ) (milliseconds : Int) (proc : κ)
    (clientData : δ) (finalizerProc : Option κ) : Int × AeEventLoop κ δ :=
  let id := l.timeEventNextId
  let (now, l) := aeGetTime out { l with timeEventNextId := id + 1 }
  let when' := aeAddMillisecondsToNow now milliseconds
  let te : AeTimeEvent κ δ :=
    { id := id, whenSec := when'.sec, whenMs := when'.ms, timeProc := proc,
      finalizerProc := finalizerProc, clientData := clientData, next := l.timeEventHead }
  (id, { storeTimer l l.fresh te with timeEventHead := some l.fresh, fresh := l.fresh + 1 })

/-- The loop of `aeDeleteTimeEvent`. -/
def deleteTimeEventLoop (id : Int) : Nat → AeEventLoop κ δ → Option Nat → Exec (Int × AeEventLoop κ δ)
  | 0, _, _ => .error .outOfFuel
  | _ + 1, l, none => .ok (-1, l)
  | fuel + 1, l, some p => do
    let te ← loadTimer l p
    if te.id = id then return (0, storeTimer l p { te with id := -1 })
    else deleteTimeEventLoop id fuel l te.next

/-- `aeDeleteTimeEvent`; there are no more timers than addresses. -/
def aeDeleteTimeEvent (l : AeEventLoop κ δ) (id : Int) : Exec (Int × AeEventLoop κ δ) :=
  deleteTimeEventLoop id (l.fresh + 1) l l.timeEventHead

/-- The time `a` is before `b`. -/
def AeTime.Before (a b : AeTime) : Prop := a.sec < b.sec ∨ a.sec = b.sec ∧ a.ms < b.ms

instance (a b : AeTime) : Decidable (a.Before b) :=
  inferInstanceAs (Decidable (a.sec < b.sec ∨ a.sec = b.sec ∧ a.ms < b.ms))

/-- When a timer is due. -/
def AeTimeEvent.when (te : AeTimeEvent κ δ) : AeTime := { sec := te.whenSec, ms := te.whenMs }

/-- The loop of `aeSearchNearestTimer`. -/
def searchNearestLoop (l : AeEventLoop κ δ) :
    Nat → Option Nat → Option (AeTimeEvent κ δ) → Exec (Option (AeTimeEvent κ δ))
  | 0, _, _ => .error .outOfFuel
  | _ + 1, none, nearest => .ok nearest
  | fuel + 1, some p, nearest => do
    let te ← loadTimer l p
    searchNearestLoop l fuel te.next
      (match nearest with
      | none => some te
      | some n => if te.when.Before n.when then some te else some n)

/-- `aeSearchNearestTimer`. -/
def aeSearchNearestTimer (l : AeEventLoop κ δ) : Exec (Option (AeTimeEvent κ δ)) :=
  searchNearestLoop l (l.fresh + 1) l.timeEventHead none

/-! ### Callbacks -/

/-- The calls a callback can make. -/
inductive AeCall (κ δ : Type)
  /-- `aeCreateFileEvent`, with a mask that is not `AE_NONE`. -/
  | createFileEvent (fd : Nat) (mask : AeMask) (hmask : mask ≠ aeNone) (proc : κ) (clientData : δ)
      (refused : Bool)
  /-- `aeDeleteFileEvent`. -/
  | deleteFileEvent (fd : Nat) (mask : AeMask)
  /-- `aeGetFileEvents`. -/
  | getFileEvents (fd : Nat)
  /-- `aeCreateTimeEvent`. -/
  | createTimeEvent (milliseconds : Int) (proc : κ) (clientData : δ) (finalizerProc : Option κ)
  /-- `aeDeleteTimeEvent`. -/
  | deleteTimeEvent (id : Int)
  /-- `aeStop`. -/
  | stop
  /-- A descriptor is opened. -/
  | opens (fd : Nat)
  /-- A descriptor is closed. -/
  | closes (fd : Nat)

/-- Make a call. -/
def aeCall (out : AeOutside) (l : AeEventLoop κ δ) : AeCall κ δ → Exec (Int × AeEventLoop κ δ)
  | .createFileEvent fd mask _ proc clientData refused =>
    aeCreateFileEvent l fd mask proc clientData refused
  | .deleteFileEvent fd mask => do
    let l ← aeDeleteFileEvent l fd mask
    return (0, l)
  | .getFileEvents fd => do
    let mask ← aeGetFileEvents l fd
    return (mask, l)
  | .createTimeEvent milliseconds proc clientData finalizerProc =>
    .ok (aeCreateTimeEvent out l milliseconds proc clientData finalizerProc)
  | .deleteTimeEvent id => aeDeleteTimeEvent l id
  | .stop => .ok (0, { l with stop := true })
  | .opens fd => .ok (openDescriptor l fd)
  | .closes fd => .ok (closeDescriptor l fd)

/-- What happens, one after the other. -/
inductive AeEntry (κ δ : Type)
  /-- A callback makes a call. -/
  | call (c : AeCall κ δ) (r : Int)
  /-- `epoll_wait` is called with a timeout, and these events have fired. -/
  | poll (timeout : Int) (fired : List (Nat × AeMask))
  /-- `rfileProc` is called. -/
  | readable (fd : Nat) (proc : κ) (clientData : δ) (mask : AeMask)
  /-- `wfileProc` is called. -/
  | writable (fd : Nat) (proc : κ) (clientData : δ) (mask : AeMask)
  /-- `timeProc` is called. -/
  | timer (id : Int) (proc : κ) (clientData : δ)
  /-- `timeProc` has returned. -/
  | returned (id : Int) (retval : Int)
  /-- `finalizerProc` is called for the time event at an address. -/
  | finalizer (p : Nat) (proc : κ) (clientData : δ)
  /-- `beforesleep` or `aftersleep` is called. -/
  | sleep (proc : κ)

/-- The loop, the state of the client, and what has happened so far. -/
structure AeWorld (κ δ σ : Type) where
  /-- The loop. -/
  loop : AeEventLoop κ δ
  /-- What the callbacks keep. -/
  client : σ
  /-- What has happened. -/
  trace : List (AeEntry κ δ)

/-- What the functions of a client do. -/
structure AeProcs (κ δ σ : Type) where
  /-- As `aeFileProc`. -/
  file : κ → Nat → δ → AeMask → σ → Script (AeCall κ δ) Int σ
  /-- As `aeTimeProc`, with what it returns. -/
  time : κ → Int → δ → σ → Script (AeCall κ δ) Int (Int × σ)
  /-- As `aeEventFinalizerProc`. -/
  finalizer : κ → δ → σ → Script (AeCall κ δ) Int σ
  /-- As `aeBeforeSleepProc`. -/
  sleep : κ → σ → Script (AeCall κ δ) Int σ

/-- A call, as it is recorded. -/
def worldCall (out : AeOutside) (w : AeWorld κ δ σ) (c : AeCall κ δ) : Exec (Int × AeWorld κ δ σ) := do
  let (r, l) ← aeCall out w.loop c
  return (r, { w with loop := l, trace := w.trace ++ [.call c r] })

/-- Call a function of the client, recorded as `e`. -/
def callProc (out : AeOutside) (w : AeWorld κ δ σ) (e : AeEntry κ δ)
    (script : σ → Script (AeCall κ δ) Int σ) : Exec (AeWorld κ δ σ) := do
  let (client, w) ← (script w.client).run (worldCall out) { w with trace := w.trace ++ [e] }
  return { w with client := client }

/-- A pointer that has not been stored is not to be called or passed on. -/
def loadPointer {β : Type} : Option β → Exec β
  | some p => .ok p
  | none => .error .outOfBounds

/-! ### Processing events -/

/-- The call of `rfileProc`. -/
def callReadable (out : AeOutside) (procs : AeProcs κ δ σ) (w : AeWorld κ δ σ)
    (fe : AeFileEvent κ δ) (fd : Nat) (mask : AeMask) : Exec (AeWorld κ δ σ) := do
  let proc ← loadPointer fe.rfileProc
  let clientData ← loadPointer fe.clientData
  callProc out w (.readable fd proc clientData mask) (procs.file proc fd clientData mask)

/-- The call of `wfileProc`. -/
def callWritable (out : AeOutside) (procs : AeProcs κ δ σ) (w : AeWorld κ δ σ)
    (fe : AeFileEvent κ δ) (fd : Nat) (mask : AeMask) : Exec (AeWorld κ δ σ) := do
  let proc ← loadPointer fe.wfileProc
  let clientData ← loadPointer fe.clientData
  callProc out w (.writable fd proc clientData mask) (procs.file proc fd clientData mask)

/-- `fe->mask & mask & AE_READABLE`, and the call. -/
def serveReadable (out : AeOutside) (procs : AeProcs κ δ σ) (w : AeWorld κ δ σ) (fd : Nat)
    (mask : AeMask) : Exec (Bool × AeWorld κ δ σ) := do
  let fe ← cellLoad w.loop.events fd
  if fe.mask.readable && mask.readable then do
    let w ← callReadable out procs w fe fd mask
    return (true, w)
  else return (false, w)

/-- `fe->mask & mask & AE_WRITABLE`, and the call. -/
def serveWritable [DecidableEq κ] (out : AeOutside) (procs : AeProcs κ δ σ) (w : AeWorld κ δ σ)
    (fd : Nat) (mask : AeMask) (rfired : Bool) : Exec (AeWorld κ δ σ) := do
  -- the function for reading may have changed the registration
  let fe ← cellLoad w.loop.events fd
  if fe.mask.writable && mask.writable && (!rfired || fe.wfileProc != fe.rfileProc) then
    callWritable out procs w fe fd mask
  else return w

/-- The loop of `aeProcessEvents` over the fired events. -/
def serveFired [DecidableEq κ] (out : AeOutside) (procs : AeProcs κ δ σ) :
    List (Nat × AeMask) → AeWorld κ δ σ → Exec (AeWorld κ δ σ)
  | [], w => .ok w
  | (fd, mask) :: fired, w => do
    let (rfired, w) ← serveReadable out procs w fd mask
    let w ← serveWritable out procs w fd mask rfired
    serveFired out procs fired w

/-- What `epoll_wait` reports of a ready descriptor: what it is watched for, and errors always. -/
def epollReport (epoll : Epoll) (e : Nat × EpollEvents) : Option (Nat × EpollEvents) :=
  match epoll.interest e.1 with
  | none => none
  | some mask =>
    let events : EpollEvents :=
      { e.2 with pollin := e.2.pollin && mask.readable, pollout := e.2.pollout && mask.writable }
    if events = ⟨false, false, false, false⟩ then none else some (e.1, events)

/-- The mask of a fired event. -/
def firedMask (e : EpollEvents) : AeMask := ⟨e.pollin, e.pollout || e.pollerr || e.pollhup⟩

/-- `aeApiPoll`: the fired events. -/
def aeApiPoll (out : AeOutside) (w : AeWorld κ δ σ) (timeout : Int) :
    List (Nat × AeMask) × AeWorld κ δ σ :=
  let reported := ((out.ready w.loop.polls).filterMap (epollReport w.loop.epoll)).take w.loop.setsize
  let fired := reported.map fun e => (e.1, firedMask e.2)
  (fired, { w with loop := { w.loop with polls := w.loop.polls + 1 }
                   trace := w.trace ++ [.poll timeout fired] })

/-- The timeout `aeApiPoll` gives to `epoll_wait`, an `int`: `tvp` holds `milliseconds`. -/
def pollTimeout (milliseconds : Int) : Int :=
  let tvSec := if 0 < milliseconds then milliseconds.tdiv 1000 else 0
  let tvUsec := if 0 < milliseconds then milliseconds.tmod 1000 * 1000 else 0
  (tvSec * 1000 + tvUsec.tdiv 1000).bmod (2 ^ 32)

/-- `flags`. -/
structure AeFlags where
  /-- `AE_FILE_EVENTS`. -/
  fileEvents : Bool
  /-- `AE_TIME_EVENTS`. -/
  timeEvents : Bool
  /-- `AE_DONT_WAIT`. -/
  dontWait : Bool
  /-- `AE_CALL_AFTER_SLEEP`. -/
  callAfterSleep : Bool

/-- The timer `aeProcessEvents` waits for. -/
def shortestTimer (flags : AeFlags) (l : AeEventLoop κ δ) : Exec (Option (AeTimeEvent κ δ)) :=
  if flags.timeEvents && !flags.dontWait then aeSearchNearestTimer l else .ok none

/-- How long `aeProcessEvents` waits: the timeout for `epoll_wait`. -/
def waitTime (out : AeOutside) (flags : AeFlags) (w : AeWorld κ δ σ) :
    Exec (Int × AeWorld κ δ σ) := do
  let shortest ← shortestTimer flags w.loop
  match shortest with
  | some te =>
    let (now, l) := aeGetTime out w.loop
    return (pollTimeout ((te.whenSec - now.sec) * 1000 + te.whenMs - now.ms), { w with loop := l })
  | none => return (if flags.dontWait then 0 else -1, w)

/-- `beforesleep` or `aftersleep`, if it is set. -/
def callSleep (out : AeOutside) (procs : AeProcs κ δ σ) (w : AeWorld κ δ σ) :
    Option κ → Exec (AeWorld κ δ σ)
  | none => .ok w
  | some proc => callProc out w (.sleep proc) (procs.sleep proc)

/-- Waiting for file events, and serving them: the number of events. -/
def processFileEvents [DecidableEq κ] (out : AeOutside) (procs : AeProcs κ δ σ) (flags : AeFlags)
    (w : AeWorld κ δ σ) : Exec (Nat × AeWorld κ δ σ) := do
  let (timeout, w) ← waitTime out flags w
  let (fired, w) := aeApiPoll out w timeout
  let w ← callSleep out procs w (if flags.callAfterSleep then w.loop.aftersleep else none)
  let w ← serveFired out procs fired w
  return (fired.length, w)

/-- The loop of `processTimeEvents` that makes every timer due. -/
def skewLoop : Nat → AeEventLoop κ δ → Option Nat → Exec (AeEventLoop κ δ)
  | 0, _, _ => .error .outOfFuel
  | _ + 1, l, none => .ok l
  | fuel + 1, l, some p => do
    let te ← loadTimer l p
    skewLoop fuel (storeTimer l p { te with whenSec := 0 }) te.next

/-- Taking a time event out of the list. -/
def unlinkTimer (l : AeEventLoop κ δ) (prev next : Option Nat) : Exec (AeEventLoop κ δ) :=
  match prev with
  | none => .ok { l with timeEventHead := next }
  | some q => do
    -- `prev` may have been changed by its own callback: it is loaded again
    let te ← loadTimer l q
    return storeTimer l q { te with next := next }

/-- The call of a finalizer, if there is one. -/
def callFinalizer (out : AeOutside) (procs : AeProcs κ δ σ) (w : AeWorld κ δ σ) (p : Nat)
    (te : AeTimeEvent κ δ) : Exec (AeWorld κ δ σ) :=
  match te.finalizerProc with
  | none => .ok w
  | some proc =>
    callProc out w (.finalizer p proc te.clientData) (procs.finalizer proc te.clientData)

/-- What is done with what `timeProc` returns. -/
def afterTimer (out : AeOutside) (l : AeEventLoop κ δ) (p : Nat) (te : AeTimeEvent κ δ)
    (retval : Int) : AeEventLoop κ δ :=
  if retval = -1 then storeTimer l p { te with id := -1 }
  else
    let (now, l) := aeGetTime out l
    let next := aeAddMillisecondsToNow now retval
    storeTimer l p { te with whenSec := next.sec, whenMs := next.ms }

/-- The call of `timeProc` for the time event at `p`. -/
def callTimer (out : AeOutside) (procs : AeProcs κ δ σ) (w : AeWorld κ δ σ) (p : Nat)
    (te : AeTimeEvent κ δ) : Exec (AeWorld κ δ σ) := do
  let ((retval, client), w) ← (procs.time te.timeProc te.id te.clientData w.client).run
    (worldCall out) { w with trace := w.trace ++ [.timer te.id te.timeProc te.clientData] }
  let te' ← loadTimer w.loop p
  return { loop := afterTimer out w.loop p te' retval, client := client,
           trace := w.trace ++ [.returned te.id retval] }

/-- The loop of `processTimeEvents`: the number of timers called. -/
def timeEventsLoop (out : AeOutside) (procs : AeProcs κ δ σ) (maxId : Int) :
    Nat → Option Nat → Option Nat → AeWorld κ δ σ → Exec (Nat × AeWorld κ δ σ)
  | 0, _, _, _ => .error .outOfFuel
  | _ + 1, _, none, w => .ok (0, w)
  | fuel + 1, prev, some p, w => do
    let te ← loadTimer w.loop p
    if te.id = -1 then do
      -- scheduled for deletion: `prev` stays, and the time event is freed when its finalizer returns
      let l ← unlinkTimer w.loop prev te.next
      let w ← callFinalizer out procs { w with loop := l } p te
      timeEventsLoop out procs maxId fuel prev te.next { w with loop := freeTimer w.loop p }
    -- the check against what is created in the pass, which `prev` does not follow
    else if maxId < te.id then timeEventsLoop out procs maxId fuel prev te.next w
    else do
      let (now, l) := aeGetTime out w.loop
      if now.Before te.when then do
        timeEventsLoop out procs maxId fuel (some p) te.next { w with loop := l }
      else do
        let w ← callTimer out procs { w with loop := l } p te
        -- the link is read behind the call
        let te ← loadTimer w.loop p
        let (n, w) ← timeEventsLoop out procs maxId fuel (some p) te.next w
        return (n + 1, w)

/-- What `processTimeEvents` does about a clock that has gone back. -/
def skewTimers (l : AeEventLoop κ δ) (now : AeTime) : Exec (AeEventLoop κ δ) :=
  if now.sec < l.lastTime then skewLoop (l.fresh + 1) l l.timeEventHead else .ok l

/-- `processTimeEvents`. -/
def processTimeEvents (out : AeOutside) (procs : AeProcs κ δ σ) (w : AeWorld κ δ σ) :
    Exec (Nat × AeWorld κ δ σ) := do
  let (now, l) := aeGetTime out w.loop
  let l ← skewTimers l now
  let l := { l with lastTime := now.sec }
  timeEventsLoop out procs (l.timeEventNextId - 1) (l.fresh + 1) none l.timeEventHead
    { w with loop := l }

/-- The first part of `aeProcessEvents`. -/
def processFilePart [DecidableEq κ] (out : AeOutside) (procs : AeProcs κ δ σ) (flags : AeFlags)
    (w : AeWorld κ δ σ) : Exec (Nat × AeWorld κ δ σ) :=
  if w.loop.maxfd ≠ -1 ∨ flags.timeEvents = true ∧ flags.dontWait = false then
    processFileEvents out procs flags w
  else .ok (0, w)

/-- The second part of `aeProcessEvents`. -/
def processTimePart (out : AeOutside) (procs : AeProcs κ δ σ) (flags : AeFlags)
    (w : AeWorld κ δ σ) : Exec (Nat × AeWorld κ δ σ) :=
  if flags.timeEvents then processTimeEvents out procs w else .ok (0, w)

/-- `aeProcessEvents`: the number of events processed. -/
def aeProcessEvents [DecidableEq κ] (out : AeOutside) (procs : AeProcs κ δ σ) (flags : AeFlags)
    (w : AeWorld κ δ σ) : Exec (Nat × AeWorld κ δ σ) :=
  if !flags.timeEvents && !flags.fileEvents then .ok (0, w)
  else do
    let (n, w) ← processFilePart out procs flags w
    let (m, w) ← processTimePart out procs flags w
    return (n + m, w)

/-- `AE_ALL_EVENTS | AE_CALL_AFTER_SLEEP`. -/
def aeMainFlags : AeFlags := ⟨true, true, false, true⟩

/-- The body of the loop of `aeMain`. -/
def aeMainRound [DecidableEq κ] (out : AeOutside) (procs : AeProcs κ δ σ) (w : AeWorld κ δ σ) :
    Exec (AeWorld κ δ σ) := do
  let w ← callSleep out procs w w.loop.beforesleep
  let (_, w) ← aeProcessEvents out procs aeMainFlags w
  return w

/-- The loop of `aeMain`. -/
def aeMainLoop [DecidableEq κ] (out : AeOutside) (procs : AeProcs κ δ σ) :
    Nat → AeWorld κ δ σ → Exec (AeWorld κ δ σ)
  | 0, _ => .error .outOfFuel
  | fuel + 1, w =>
    if w.loop.stop then .ok w
    else do
      let w ← aeMainRound out procs w
      aeMainLoop out procs fuel w

/-- `eventLoop->stop = 0`. -/
def aeGo (w : AeWorld κ δ σ) : AeWorld κ δ σ := { w with loop := { w.loop with stop := false } }

/-- `aeMain`. -/
def aeMain [DecidableEq κ] (out : AeOutside) (procs : AeProcs κ δ σ) (fuel : Nat)
    (w : AeWorld κ δ σ) : Exec (AeWorld κ δ σ) := aeMainLoop out procs fuel (aeGo w)

/-- The state of the loop of `aeMain` after `n` rounds, or when it has ended. -/
def aeMainRounds [DecidableEq κ] (out : AeOutside) (procs : AeProcs κ δ σ) :
    Nat → AeWorld κ δ σ → Exec (AeWorld κ δ σ)
  | 0, w => .ok w
  | n + 1, w =>
    if w.loop.stop then .ok w
    else do
      let w ← aeMainRound out procs w
      aeMainRounds out procs n w

/-- What a program does before `aeMain`: it makes a loop, sets what is called around waiting, and makes
calls. -/
def aeStart (out : AeOutside) (opened : Nat → Bool) (setsize : Nat) (beforesleep aftersleep : Option κ)
    (setup : Script (AeCall κ δ) Int σ) (client : σ) : Exec (AeWorld κ δ σ) := do
  let l := { aeCreateEventLoop out opened setsize with
             beforesleep := beforesleep, aftersleep := aftersleep }
  let (client, w) ← setup.run (worldCall out) { loop := l, client := client, trace := [] }
  return { w with client := client }

end Wee
