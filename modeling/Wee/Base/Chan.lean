import Wee.Base.Mq
import Wee.Lib.Monitor

/-! # The channel (`base/chan.c`)

A channel is a message queue behind a lock with a condition variable for each direction. A call is
cut where it gives the lock away: from `mtl_lock`, or the return of a `cond_wait`, to the next
`cond_wait` or `mtl_unlock` it is one atomic section. `ChanSys` is a channel with the calls that
wait on it, and `chanStep` makes one section, or one spurious wake-up, whichever the schedule asks
for. -/

namespace Wee

variable {τ : Type}

/-- `struct chan`, less the lock and the condition variables. -/
structure Chan where
  /-- `q`. -/
  q : Mq
  /-- `cap`, which is not negative. -/
  cap : Nat
  deriving DecidableEq, Repr

/-- `ch_create`. The sum `cap + 1` is an `int`. -/
def chCreate (cap : Int32) : Exec Chan := do
  cassert (0 ≤ cap.toInt)
  let q ← mqCreate (cap + 1).toInt
  return { q := q, cap := cap.toInt.toNat }

/-- A section of `ch_send`: `none` is `cond_wait(ch->snd_cond)`, else the message has been pushed,
`rcv_cond` is signalled and the call returns. -/
def chSend (ch : Chan) (msg : Msg) : Exec (Option Chan) :=
  if 0 < ch.cap ∧ ch.cap ≤ mqCount ch.q then return none
  else do
    cassert (0 < ch.cap → mqCount ch.q < ch.cap)
    let q ← mqPush ch.q msg
    return some { ch with q := q }

/-- A section of `ch_recv`: `none` is `cond_wait(ch->rcv_cond)`, else what `mq_pop` has returned;
`snd_cond` is signalled if there is a bound, and the call returns. -/
def chRecv (ch : Chan) : Exec (Option (Option Msg × Chan)) :=
  if mqCount ch.q = 0 then return none
  else do
    let (m, q) ← mqPop ch.q
    return some (m, { ch with q := q })

/-! ### Senders and receivers -/

/-- A channel and the calls waiting on it. A waiting `ch_send` keeps its message. -/
structure ChanSys (τ : Type) where
  /-- The channel. -/
  ch : Chan
  /-- `snd_cond`. -/
  snd : WaitSet (τ × Msg)
  /-- `rcv_cond`. -/
  rcv : WaitSet τ

/-- What the schedule can ask for. The number `pick` chooses the thread a signal wakes. -/
inductive ChanAct (τ : Type)
  /-- `t` calls `ch_send` and gets the lock. -/
  | send (t : τ) (msg : Msg) (pick : Nat)
  /-- `t` calls `ch_recv` and gets the lock. -/
  | recv (t : τ) (pick : Nat)
  /-- A sender that has been woken gets the lock. -/
  | sendWoken (i : Nat) (k : Wake) (pick : Nat)
  /-- A receiver that has been woken gets the lock. -/
  | recvWoken (i : Nat) (k : Wake) (pick : Nat)
  /-- A spurious wake-up of a sender. -/
  | spuriousSend (i : Nat)
  /-- A spurious wake-up of a receiver. -/
  | spuriousRecv (i : Nat)
  deriving DecidableEq, Repr

/-- What a step shows. -/
inductive ChanEvent
  /-- No call has returned. -/
  | none
  /-- A `ch_send` has pushed its message. -/
  | sent (msg : Msg)
  /-- A `ch_recv` has returned; `Option.none` is `false`. -/
  | received (msg : Option Msg)
  deriving DecidableEq, Repr

/-- A section of the `ch_send` of `t`. -/
def sendSection (s : ChanSys τ) (t : τ) (msg : Msg) (pick : Nat) : Exec (ChanEvent × ChanSys τ) := do
  match ← chSend s.ch msg with
  | none => return (.none, { s with snd := s.snd.wait (t, msg) })
  | some ch => return (.sent msg, { s with ch := ch, rcv := s.rcv.signal pick })

/-- A section of the `ch_recv` of `t`. -/
def recvSection (s : ChanSys τ) (t : τ) (pick : Nat) : Exec (ChanEvent × ChanSys τ) := do
  match ← chRecv s.ch with
  | none => return (.none, { s with rcv := s.rcv.wait t })
  | some (m, ch) =>
    return (.received m,
      { s with ch := ch, snd := if 0 < s.ch.cap then s.snd.signal pick else s.snd })

/-- One step of a schedule. One that asks for a thread that is not there changes nothing. -/
def chanStep (s : ChanSys τ) : ChanAct τ → Exec (ChanEvent × ChanSys τ)
  | .send t msg pick => sendSection s t msg pick
  | .recv t pick => recvSection s t pick
  | .sendWoken i k pick =>
    match s.snd.resume i k with
    | none => return (.none, s)
    | some ((t, msg), snd) => sendSection { s with snd := snd } t msg pick
  | .recvWoken i k pick =>
    match s.rcv.resume i k with
    | none => return (.none, s)
    | some (t, rcv) => recvSection { s with rcv := rcv } t pick
  | .spuriousSend i => return (.none, { s with snd := s.snd.wakeUp i })
  | .spuriousRecv i => return (.none, { s with rcv := s.rcv.wakeUp i })

/-- A new channel, on which nobody waits. -/
def chanStart (ch : Chan) : ChanSys τ := { ch := ch, snd := .empty, rcv := .empty }

end Wee
