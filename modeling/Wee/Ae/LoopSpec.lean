import Wee.Ae.EventLoop
import Mathlib.Logic.Function.Basic

/-! # What the event loop does

The loop in its own terms: to each descriptor what is registered for it, and the timers as a list with
the newest first. There is no array with a highest descriptor, no list with pointers and no entry that
is being unlinked, and nothing can fault. A pass over the timers goes through the numbers of those
there are at its start. -/

namespace Wee

variable {κ δ σ : Type}

/-! ### The state -/

/-- A timer. -/
structure AeTimer (κ δ : Type) where
  /-- How many timers have been created before. -/
  number : Nat
  /-- It has been deleted, but is still in the list. -/
  deleted : Bool
  /-- When it is due. -/
  due : AeTime
  /-- What is called when it is due. -/
  timeProc : κ
  /-- What is called when it is taken out of the list. -/
  finalizerProc : Option κ
  /-- What they are called with. -/
  clientData : δ

/-- The number of a timer, as long as it has not been deleted. -/
def AeTimer.id (t : AeTimer κ δ) : Int := if t.deleted then -1 else t.number

/-- The state of the loop. -/
structure AeSpec (κ δ : Type) where
  /-- There are that many descriptors. -/
  setsize : Nat
  /-- What is registered for a descriptor. -/
  file : Nat → AeFileEvent κ δ
  /-- The open descriptors. -/
  opened : Nat → Bool
  /-- The descriptors whose events are reported. -/
  watched : Nat → Bool
  /-- The timers, the newest first. -/
  timers : List (AeTimer κ δ)
  /-- How many timers have been created. -/
  created : Nat
  /-- The time of the last pass over the timers. -/
  lastTime : Int
  /-- The loop is to end. -/
  stop : Bool
  /-- What is called before each round. -/
  beforesleep : Option κ
  /-- What is called after waiting. -/
  aftersleep : Option κ
  /-- How often the clock has been read. -/
  ticks : Nat
  /-- How often the loop has waited. -/
  polls : Nat

/-- A new loop. -/
def AeSpec.new (out : AeOutside) (opened : Nat → Bool) (setsize : Nat) : AeSpec κ δ where
  setsize := setsize
  file := fun _ => unsetFileEvent
  opened := opened
  watched := fun _ => false
  timers := []
  created := 0
  lastTime := (out.clock 0).sec
  stop := false
  beforesleep := none
  aftersleep := none
  ticks := 1
  polls := 0

/-- The table of the kernel: what is watched is watched for what is registered. -/
def AeSpec.epoll (a : AeSpec κ δ) : Epoll where
  opened := a.opened
  interest := fun fd => if a.watched fd then some (a.file fd).mask else none

/-! ### Calls -/

/-- Register a function for more events. -/
def AeFileEvent.register (fe : AeFileEvent κ δ) (mask : AeMask) (proc : κ) (clientData : δ) :
    AeFileEvent κ δ where
  mask := fe.mask.or mask
  rfileProc := if mask.readable then some proc else fe.rfileProc
  wfileProc := if mask.writable then some proc else fe.wfileProc
  clientData := some clientData

/-- Take back the registration for some events. -/
def AeFileEvent.unregister (fe : AeFileEvent κ δ) (mask : AeMask) : AeFileEvent κ δ :=
  { fe with mask := fe.mask.without mask }

/-- Store what is registered for a descriptor, and whether it is watched. -/
def AeSpec.setFile (a : AeSpec κ δ) (fd : Nat) (fe : AeFileEvent κ δ) (watch : Bool) : AeSpec κ δ :=
  { a with file := Function.update a.file fd fe, watched := Function.update a.watched fd watch }

/-- A registration fails for a descriptor that is too large or not open, and for one that is registered
but has been closed since. -/
def AeSpec.createFileEvent (a : AeSpec κ δ) (fd : Nat) (mask : AeMask) (proc : κ) (clientData : δ)
    (refused : Bool) : Int × AeSpec κ δ :=
  if fd < a.setsize ∧ refused = false ∧ a.opened fd = true ∧
      a.watched fd = ((a.file fd).mask != aeNone) then
    (0, a.setFile fd ((a.file fd).register mask proc clientData) true)
  else (-1, a)

/-- Taking back a registration. -/
def AeSpec.deleteFileEvent (a : AeSpec κ δ) (fd : Nat) (mask : AeMask) : AeSpec κ δ :=
  a.setFile fd ((a.file fd).unregister mask)
    (a.watched fd && ((a.file fd).unregister mask).mask != aeNone)

/-- A descriptor is opened. -/
def AeSpec.opens (a : AeSpec κ δ) (fd : Nat) : Int × AeSpec κ δ :=
  if a.opened fd then (-1, a) else (fd, { a with opened := Function.update a.opened fd true })

/-- A descriptor is closed. What is registered for it stays registered, but is not watched. -/
def AeSpec.closes (a : AeSpec κ δ) (fd : Nat) : Int × AeSpec κ δ :=
  if a.opened fd then
    (0, { a with opened := Function.update a.opened fd false
                 watched := Function.update a.watched fd false })
  else (-1, a)

/-- The numbers of the timers. -/
def AeSpec.numbers (a : AeSpec κ δ) : List Nat := a.timers.map AeTimer.number

/-- A new timer. -/
def AeSpec.createTimeEvent (out : AeOutside) (a : AeSpec κ δ) (milliseconds : Int) (proc : κ)
    (clientData : δ) (finalizerProc : Option κ) : Int × AeSpec κ δ :=
  let t : AeTimer κ δ :=
    { number := a.created, deleted := false,
      due := aeAddMillisecondsToNow (out.clock a.ticks) milliseconds,
      timeProc := proc, finalizerProc := finalizerProc, clientData := clientData }
  (a.created, { a with timers := t :: a.timers, created := a.created + 1, ticks := a.ticks + 1 })

/-- Change the timer that has the number of `t` into `t`. -/
def AeSpec.store (a : AeSpec κ δ) (t : AeTimer κ δ) : AeSpec κ δ :=
  { a with timers := a.timers.map fun s => if s.number = t.number then t else s }

/-- Delete the timer with an id. -/
def AeSpec.deleteTimeEvent (a : AeSpec κ δ) (id : Int) : Int × AeSpec κ δ :=
  match a.timers.find? fun t => t.id = id with
  | none => (-1, a)
  | some t => (0, a.store { t with deleted := true })

/-- Make a call. -/
def AeSpec.call (out : AeOutside) (a : AeSpec κ δ) : AeCall κ δ → Int × AeSpec κ δ
  | .createFileEvent fd mask _ proc clientData refused =>
    a.createFileEvent fd mask proc clientData refused
  | .deleteFileEvent fd mask => (0, a.deleteFileEvent fd mask)
  | .getFileEvents fd => ((a.file fd).mask.toInt, a)
  | .createTimeEvent milliseconds proc clientData finalizerProc =>
    a.createTimeEvent out milliseconds proc clientData finalizerProc
  | .deleteTimeEvent id => a.deleteTimeEvent id
  | .stop => (0, { a with stop := true })
  | .opens fd => a.opens fd
  | .closes fd => a.closes fd

/-! ### Callbacks -/

/-- The loop, the state of the client, and what has happened so far. -/
structure AeSpecWorld (κ δ σ : Type) where
  /-- The loop. -/
  loop : AeSpec κ δ
  /-- What the callbacks keep. -/
  client : σ
  /-- What has happened. -/
  trace : List (AeEntry κ δ)

namespace AeSpecWorld

/-- A call, as it is recorded. -/
def call (out : AeOutside) (v : AeSpecWorld κ δ σ) (c : AeCall κ δ) : Int × AeSpecWorld κ δ σ :=
  ((v.loop.call out c).1,
    { v with loop := (v.loop.call out c).2, trace := v.trace ++ [.call c (v.loop.call out c).1] })

/-- Something has happened. -/
def record (v : AeSpecWorld κ δ σ) (e : AeEntry κ δ) : AeSpecWorld κ δ σ :=
  { v with trace := v.trace ++ [e] }

/-- The clock has been read. -/
def tick (v : AeSpecWorld κ δ σ) : AeSpecWorld κ δ σ :=
  { v with loop := { v.loop with ticks := v.loop.ticks + 1 } }

/-- Call a function of the client, recorded as `e`. -/
def proc (out : AeOutside) (v : AeSpecWorld κ δ σ) (e : AeEntry κ δ)
    (script : σ → Script (AeCall κ δ) Int σ) : AeSpecWorld κ δ σ :=
  let (client, v) := (script v.client).eval (call out) (v.record e)
  { v with client := client }

/-- `beforesleep` or `aftersleep`, if it is set. -/
def sleep (out : AeOutside) (procs : AeProcs κ δ σ) (v : AeSpecWorld κ δ σ) :
    Option κ → AeSpecWorld κ δ σ
  | none => v
  | some proc => v.proc out (.sleep proc) (procs.sleep proc)

/-! ### File events -/

/-- The function for reading, if one is registered and `mask` has it. -/
def reader (v : AeSpecWorld κ δ σ) (fd : Nat) (mask : AeMask) : Option (κ × δ) :=
  let fe := v.loop.file fd
  if fe.mask.readable && mask.readable then fe.rfileProc.bind fun p => fe.clientData.map (p, ·)
  else none

/-- The function for writing, if one is registered and `mask` has it. When a function for reading has
been called it is not called once more. -/
def writer [DecidableEq κ] (v : AeSpecWorld κ δ σ) (fd : Nat) (mask : AeMask) (rfired : Bool) :
    Option (κ × δ) :=
  let fe := v.loop.file fd
  if fe.mask.writable && mask.writable && (!rfired || fe.wfileProc != fe.rfileProc) then
    fe.wfileProc.bind fun p => fe.clientData.map (p, ·)
  else none

/-- Serving a descriptor that is readable. -/
def serveReadable (out : AeOutside) (procs : AeProcs κ δ σ) (v : AeSpecWorld κ δ σ) (fd : Nat)
    (mask : AeMask) : AeSpecWorld κ δ σ :=
  match v.reader fd mask with
  | some (p, d) => v.proc out (.readable fd p d mask) (procs.file p fd d mask)
  | none => v

/-- Serving a descriptor that is writable. -/
def serveWritable [DecidableEq κ] (out : AeOutside) (procs : AeProcs κ δ σ)
    (v : AeSpecWorld κ δ σ) (fd : Nat) (mask : AeMask) (rfired : Bool) : AeSpecWorld κ δ σ :=
  match v.writer fd mask rfired with
  | some (p, d) => v.proc out (.writable fd p d mask) (procs.file p fd d mask)
  | none => v

/-- Serving a descriptor. -/
def serve [DecidableEq κ] (out : AeOutside) (procs : AeProcs κ δ σ) (v : AeSpecWorld κ δ σ)
    (e : Nat × AeMask) : AeSpecWorld κ δ σ :=
  (v.serveReadable out procs e.1 e.2).serveWritable out procs e.1 e.2 (v.reader e.1 e.2).isSome

/-- Serving what has fired. -/
def serveFired [DecidableEq κ] (out : AeOutside) (procs : AeProcs κ δ σ)
    (v : AeSpecWorld κ δ σ) (fired : List (Nat × AeMask)) : AeSpecWorld κ δ σ :=
  fired.foldl (serve out procs) v

/-! ### Waiting -/

/-- The earlier one of two timers, the first if they are due at the same time. -/
def earlier : Option (AeTimer κ δ) → AeTimer κ δ → Option (AeTimer κ δ)
  | none, t => some t
  | some n, t => if t.due.Before n.due then some t else some n

/-- The timer that is due first. -/
def nearest (timers : List (AeTimer κ δ)) : Option (AeTimer κ δ) := timers.foldl earlier none

/-- The timer that is waited for. -/
def awaited (flags : AeFlags) (v : AeSpecWorld κ δ σ) : Option (AeTimer κ δ) :=
  if flags.timeEvents && !flags.dontWait then nearest v.loop.timers else none

/-- How long is waited: until the first timer is due, at once or forever. -/
def wait (out : AeOutside) (flags : AeFlags) (v : AeSpecWorld κ δ σ) : Int × AeSpecWorld κ δ σ :=
  match v.awaited flags with
  | some t =>
    (pollTimeout ((t.due.sec - (out.clock v.loop.ticks).sec) * 1000 + t.due.ms -
      (out.clock v.loop.ticks).ms), v.tick)
  | none => (if flags.dontWait then 0 else -1, v)

/-- What has fired. -/
def fired (out : AeOutside) (v : AeSpecWorld κ δ σ) : List (Nat × AeMask) :=
  (((out.ready v.loop.polls).filterMap (epollReport v.loop.epoll)).take v.loop.setsize).map
    fun e => (e.1, firedMask e.2)

/-- Waiting. -/
def poll (out : AeOutside) (v : AeSpecWorld κ δ σ) (timeout : Int) : AeSpecWorld κ δ σ :=
  { v.record (.poll timeout (v.fired out)) with loop := { v.loop with polls := v.loop.polls + 1 } }

/-- Waiting for events, and serving them. -/
def processFileEvents [DecidableEq κ] (out : AeOutside) (procs : AeProcs κ δ σ) (flags : AeFlags)
    (v : AeSpecWorld κ δ σ) : Nat × AeSpecWorld κ δ σ :=
  let (timeout, v) := v.wait out flags
  let fired := v.fired out
  let v := v.poll out timeout
  let v := v.sleep out procs (if flags.callAfterSleep then v.loop.aftersleep else none)
  (fired.length, v.serveFired out procs fired)

/-! ### Timers -/

/-- The timer with a number. -/
def timer (v : AeSpecWorld κ δ σ) (number : Nat) : Option (AeTimer κ δ) :=
  v.loop.timers.find? fun t => t.number = number

/-- What is done with what a timer has returned: it is deleted, or due again. -/
def afterTimer (out : AeOutside) (v : AeSpecWorld κ δ σ) (t : AeTimer κ δ) (retval : Int) :
    AeSpecWorld κ δ σ :=
  if retval = -1 then { v with loop := v.loop.store { t with deleted := true } }
  else
    { v.tick with
      loop := (v.tick.loop.store
        { t with due := aeAddMillisecondsToNow (out.clock v.loop.ticks) retval }) }

/-- A timer has returned, if it is still there. -/
def settleTimer (out : AeOutside) (v : AeSpecWorld κ δ σ) (number : Nat) (retval : Int) :
    AeSpecWorld κ δ σ :=
  match v.timer number with
  | some t => v.afterTimer out t retval
  | none => v

/-- Calling a timer. -/
def callTimer (out : AeOutside) (procs : AeProcs κ δ σ) (v : AeSpecWorld κ δ σ)
    (t : AeTimer κ δ) : AeSpecWorld κ δ σ :=
  let ((retval, client), v) := (procs.time t.timeProc t.id t.clientData v.client).eval (call out)
    (v.record (.timer t.id t.timeProc t.clientData))
  (record { v with client := client } (.returned t.id retval)).settleTimer out t.number retval

/-- Taking a timer out of the list. -/
def remove (v : AeSpecWorld κ δ σ) (number : Nat) : AeSpecWorld κ δ σ :=
  { v with loop := { v.loop with timers := v.loop.timers.filter fun s => s.number ≠ number } }

/-- Calling the finalizer of a timer. -/
def finalize (out : AeOutside) (procs : AeProcs κ δ σ) (v : AeSpecWorld κ δ σ)
    (t : AeTimer κ δ) : AeSpecWorld κ δ σ :=
  match t.finalizerProc with
  | some p => v.proc out (.finalizer t.number p t.clientData) (procs.finalizer p t.clientData)
  | none => v

/-- A timer that is looked at: it is taken out if it has been deleted, and called if it is due. -/
def visit (out : AeOutside) (procs : AeProcs κ δ σ) (v : AeSpecWorld κ δ σ) (t : AeTimer κ δ) :
    Nat × AeSpecWorld κ δ σ :=
  if t.deleted then (0, (v.remove t.number).finalize out procs t)
  else if (out.clock v.loop.ticks).Before t.due then (0, v.tick)
  else (1, v.tick.callTimer out procs t)

/-- A pass over timers: the number of those called. -/
def pass (out : AeOutside) (procs : AeProcs κ δ σ) :
    List Nat → AeSpecWorld κ δ σ → Nat × AeSpecWorld κ δ σ
  | [], v => (0, v)
  | number :: numbers, v =>
    match v.timer number with
    | some t =>
      let (n, v) := v.visit out procs t
      let (m, v) := pass out procs numbers v
      (n + m, v)
    | none => pass out procs numbers v

/-- When the clock has gone back every timer becomes due. -/
def skew (a : AeSpec κ δ) (now : AeTime) : AeSpec κ δ :=
  if now.sec < a.lastTime then
    { a with timers := a.timers.map fun t => { t with due := { t.due with sec := 0 } } }
  else a

/-- The beginning of a pass. -/
def startPass (out : AeOutside) (v : AeSpecWorld κ δ σ) : AeSpecWorld κ δ σ :=
  { v with loop := { skew v.tick.loop (out.clock v.loop.ticks) with
                     lastTime := (out.clock v.loop.ticks).sec } }

/-- A pass over the timers there are. -/
def processTimeEvents (out : AeOutside) (procs : AeProcs κ δ σ) (v : AeSpecWorld κ δ σ) :
    Nat × AeSpecWorld κ δ σ :=
  (v.startPass out).pass out procs (v.startPass out).loop.numbers

/-! ### The loop -/

/-- Something is registered for some descriptor. -/
def watches (v : AeSpecWorld κ δ σ) : Bool :=
  (List.range v.loop.setsize).any fun fd => (v.loop.file fd).mask != aeNone

/-- The file events of a round. -/
def processFilePart [DecidableEq κ] (out : AeOutside) (procs : AeProcs κ δ σ) (flags : AeFlags)
    (v : AeSpecWorld κ δ σ) : Nat × AeSpecWorld κ δ σ :=
  if v.watches = true ∨ flags.timeEvents = true ∧ flags.dontWait = false then
    v.processFileEvents out procs flags
  else (0, v)

/-- The timers of a round. -/
def processTimePart (out : AeOutside) (procs : AeProcs κ δ σ) (flags : AeFlags)
    (v : AeSpecWorld κ δ σ) : Nat × AeSpecWorld κ δ σ :=
  if flags.timeEvents then v.processTimeEvents out procs else (0, v)

/-- `aeProcessEvents`. -/
def processEvents [DecidableEq κ] (out : AeOutside) (procs : AeProcs κ δ σ) (flags : AeFlags)
    (v : AeSpecWorld κ δ σ) : Nat × AeSpecWorld κ δ σ :=
  if !flags.timeEvents && !flags.fileEvents then (0, v)
  else
    let (n, v) := v.processFilePart out procs flags
    let (m, v) := v.processTimePart out procs flags
    (n + m, v)

/-- A round of the loop. -/
def mainRound [DecidableEq κ] (out : AeOutside) (procs : AeProcs κ δ σ) (v : AeSpecWorld κ δ σ) :
    AeSpecWorld κ δ σ :=
  ((v.sleep out procs v.loop.beforesleep).processEvents out procs aeMainFlags).2

/-- The state after `n` rounds, or when the loop has ended. -/
def rounds [DecidableEq κ] (out : AeOutside) (procs : AeProcs κ δ σ) :
    Nat → AeSpecWorld κ δ σ → AeSpecWorld κ δ σ
  | 0, v => v
  | n + 1, v => if v.loop.stop then v else rounds out procs n (v.mainRound out procs)

/-- The loop is to run. -/
def go (v : AeSpecWorld κ δ σ) : AeSpecWorld κ δ σ := { v with loop := { v.loop with stop := false } }

/-- A program before it runs the loop. -/
def start (out : AeOutside) (opened : Nat → Bool) (setsize : Nat) (beforesleep aftersleep : Option κ)
    (setup : Script (AeCall κ δ) Int σ) (client : σ) : AeSpecWorld κ δ σ :=
  let a := { AeSpec.new out opened setsize with
             beforesleep := beforesleep, aftersleep := aftersleep }
  let (client, v) := setup.eval (call out) { loop := a, client := client, trace := [] }
  { v with client := client }

end AeSpecWorld

/-! ### Finalizers -/

/-- The call creates no timer. -/
def AeCall.CreatesNoTimer : AeCall κ δ → Prop
  | .createTimeEvent .. => False
  | _ => True

/-- No finalizer creates a timer. -/
def AeProcs.FinalizersCreateNothing (procs : AeProcs κ δ σ) : Prop :=
  ∀ proc clientData client, (procs.finalizer proc clientData client).Only AeCall.CreatesNoTimer

end Wee
