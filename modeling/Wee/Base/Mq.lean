import Wee.Lib.Ring

/-! # The message queue (`base/mq.c`)

A ring of `cap` messages between the indices `head` and `tail`. `head = tail` is the empty queue, so
a push that makes them meet doubles the ring. The indices are never negative and are natural numbers
here; allocations are taken to succeed, except that of a capacity that is no longer an `int`. The
locks of `MQ_THREAD_SAFE` are left out. -/

namespace Wee

/-- `struct msg`. -/
structure Msg where
  /-- `ud`. -/
  ud : UInt64
  /-- `sz`. -/
  sz : UInt64
  deriving DecidableEq, Repr

/-- A message of zeros, as `calloc` leaves it. -/
def zeroMsg : Msg := ⟨0, 0⟩

/-- `struct mq`. -/
structure Mq where
  /-- The oldest message. -/
  head : Nat
  /-- The place of the next message. -/
  tail : Nat
  /-- The number of slots. -/
  cap : Nat
  /-- The slots. -/
  q : List Msg
  deriving DecidableEq, Repr

/-- `mq_create`. -/
def mqCreate (cap : Int) : Exec Mq := do
  cassert (0 < cap)
  return { head := 0, tail := 0, cap := cap.toNat, q := List.replicate cap.toNat zeroMsg }

/-- The loop of `mq_expand`: `n` more messages from index `i` on are copied to `nq`. -/
def mqExpandLoop (q : Mq) : Nat → Nat → List Msg → Exec (List Msg)
  | 0, _, nq => return nq
  | n + 1, i, nq => do
    let m ← cellLoad q.q ((q.head + i) % q.cap)
    let nq ← cellStore nq i m
    mqExpandLoop q n (i + 1) nq

/-- `mq_expand`. -/
def mqExpand (q : Mq) : Exec Mq := do
  cassert (q.head = q.tail)
  -- `assert(nq)`: `q->cap * 2` past the `int` range is no size that can be allocated
  cassert (q.cap * 2 < 2 ^ 31)
  let nq ← mqExpandLoop q q.cap 0 (List.replicate (q.cap * 2) zeroMsg)
  return { head := 0, tail := q.cap, cap := q.cap * 2, q := nq }

/-- `mq_count`. -/
def mqCount (q : Mq) : Nat := if q.head ≤ q.tail then q.tail - q.head else q.tail + q.cap - q.head

/-- `mq_push`. -/
def mqPush (q : Mq) (msg : Msg) : Exec Mq := do
  let cells ← cellStore q.q q.tail msg
  let q := { q with q := cells, tail := wrapSucc q.cap q.tail }
  if q.head = q.tail then mqExpand q else return q

/-- `mq_pop`: `none` is `false`, which leaves `*msg` alone. -/
def mqPop (q : Mq) : Exec (Option Msg × Mq) :=
  if q.head ≠ q.tail then do
    let msg ← cellLoad q.q q.head
    return (some msg, { q with head := wrapSucc q.cap q.head })
  else return (none, q)

end Wee
