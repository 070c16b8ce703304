import Wee.Base.Queue
import Wee.Lib.Monitor
import Wee.Lib.Refine

/-! # The thread pool (`base/threadpool.c`)

The pool is a queue of tasks behind a mutex with one condition variable. `threadpool_submit` and
`threadpool_release` post a node at the tail, the task's own or the pool's exit message, and signal
if a worker is idle. A worker takes the task at the head out of the queue and runs it without the
lock; the exit message stays at the head, and every worker that meets it passes the signal on and
ends.

As with the channel, a call is cut where it gives the lock away: `PoolSys` is a pool with its
workers, and `poolStep` makes one section, whichever the schedule asks for. -/

namespace Wee

variable {τ : Type} [DecidableEq τ]

/-- The `QUEUE`s: the anchor `wq`, the exit message, and the one in each task. -/
inductive PoolNode (τ : Type)
  /-- `&pool->wq`. -/
  | wq
  /-- `&pool->exit_message`. -/
  | exitMessage
  /-- `&task->wq`. -/
  | task (t : τ)
  deriving DecidableEq, Repr

/-- `struct threadpool`, less the mutex and the condition variable, with the tasks. -/
structure Threadpool (τ : Type) where
  /-- `idle_threads`. -/
  idleThreads : UInt32
  /-- `nthreads`. -/
  nthreads : Nat
  /-- The links of all nodes. -/
  links : Links (PoolNode τ)
  /-- `task->work != NULL`. -/
  work : τ → Bool

/-- `MAX_THREADPOOL_SIZE`. -/
def maxThreadpoolSize : Int := 128

/-- The number of workers that `threadpool_create` starts. -/
def threadpoolSize (size : Int) : Int :=
  let size := if size < 1 then 1 else size
  if maxThreadpoolSize < size then maxThreadpoolSize else size

/-- `threadpool_create`; `work` tells which tasks have a function. The links of the nodes are null
but for those of the anchor. -/
def threadpoolCreate (size : Int) (work : τ → Bool) : Threadpool τ :=
  { idleThreads := 0, nthreads := (threadpoolSize size).toNat,
    links := queueInit ⟨fun _ => none, fun _ => none⟩ .wq, work := work }

/-! ### Sections -/

/-- `post`, and whether it signals. -/
def post (pool : Threadpool τ) (q : PoolNode τ) : Exec (Bool × Threadpool τ) := do
  let links ← queueInsertTail pool.links .wq q
  return (decide (0 < pool.idleThreads), { pool with links := links })

/-- `threadpool_submit`. -/
def threadpoolSubmit (pool : Threadpool τ) (t : τ) : Exec (Bool × Threadpool τ) := do
  cassert (pool.work t = true)
  post pool (.task t)

/-- `threadpool_release`, up to the `thread_join`s. -/
def threadpoolRelease (pool : Threadpool τ) : Exec (Bool × Threadpool τ) := post pool .exitMessage

/-- `threadpool_cancel`. -/
def threadpoolCancel (pool : Threadpool τ) (t : τ) : Exec (Bool × Threadpool τ) := do
  let cancelled := !queueEmpty pool.links .wq && pool.work t
  if cancelled then
    let links ← queueRemove pool.links (.task t)
    return (true, { pool with links := links })
  else return (false, pool)

/-- What a worker does after its section. -/
inductive WorkerNext (τ : Type)
  /-- `cond_wait`. -/
  | wait
  /-- It has met the exit message, signals and ends. -/
  | stop
  /-- It runs the task. -/
  | run (t : τ)
  deriving DecidableEq, Repr

/-- A section of `worker`, from the test of the inner `while`. -/
def workerSection (pool : Threadpool τ) : Exec (WorkerNext τ × Threadpool τ) :=
  if queueEmpty pool.links .wq then
    return (.wait, { pool with idleThreads := pool.idleThreads + 1 })
  else
    match queueHead pool.links .wq with
    | some .exitMessage => return (.stop, pool)
    | some (.task t) => do
      let links ← queueRemove pool.links (.task t)
      return (.run t, { pool with links := queueInit links (.task t) })
    -- a null pointer, or a queue that is empty after all
    | _ => .error .outOfBounds

/-- `pool->idle_threads--`, behind `cond_wait`. -/
def workerWoken (pool : Threadpool τ) : Threadpool τ :=
  { pool with idleThreads := pool.idleThreads - 1 }

/-- `task->work = NULL`, when the task has been run. -/
def workerDone (pool : Threadpool τ) (t : τ) : Threadpool τ :=
  { pool with work := Function.update pool.work t false }

/-! ### Workers -/

/-- A pool and its workers. -/
structure PoolSys (τ : Type) where
  /-- The pool. -/
  pool : Threadpool τ
  /-- The workers about to lock the mutex at the top of their loop. -/
  ready : List Nat
  /-- The workers inside `cond_wait`. -/
  waiting : WaitSet Nat
  /-- The workers running a task. -/
  running : List (Nat × τ)
  /-- The workers that have ended. -/
  exited : List Nat

/-- What the schedule can ask for. The number `pick` chooses the worker a signal wakes. -/
inductive PoolAct (τ : Type)
  /-- A `threadpool_submit`. -/
  | submit (t : τ) (pick : Nat)
  /-- A `threadpool_release`. -/
  | release (pick : Nat)
  /-- A `threadpool_cancel`. -/
  | cancel (t : τ)
  /-- A worker at the top of its loop gets the lock. -/
  | enter (i : Nat) (pick : Nat)
  /-- A worker that has been woken gets the lock. -/
  | woken (i : Nat) (k : Wake) (pick : Nat)
  /-- A worker is done with its task. -/
  | done (i : Nat)
  /-- A spurious wake-up. -/
  | spurious (i : Nat)
  deriving DecidableEq, Repr

/-- What a step shows. -/
inductive PoolEvent (τ : Type)
  /-- Nothing. -/
  | none
  /-- A task has been dequeued by the worker `w`, who starts it. -/
  | dequeued (w : Nat) (t : τ)
  /-- `threadpool_cancel` has returned `ret`. -/
  | cancelled (t : τ) (ret : Bool)
  /-- The worker `w` has ended. -/
  | exited (w : Nat)
  deriving DecidableEq, Repr

/-- `post` seen from the workers. -/
def postSection (s : PoolSys τ) (pick : Nat) (r : Bool × Threadpool τ) : PoolSys τ :=
  { s with pool := r.2, waiting := if r.1 then s.waiting.signal pick else s.waiting }

/-- A section of the worker `w`. -/
def workSection (s : PoolSys τ) (w pick : Nat) : Exec (PoolEvent τ × PoolSys τ) := do
  match ← workerSection s.pool with
  | (.wait, pool) => return (.none, { s with pool := pool, waiting := s.waiting.wait w })
  | (.stop, pool) =>
    return (.exited w,
      { s with pool := pool, waiting := s.waiting.signal pick, exited := s.exited ++ [w] })
  | (.run t, pool) =>
    return (.dequeued w t, { s with pool := pool, running := s.running ++ [(w, t)] })

/-- One step of a schedule. One that asks for a worker that is not there changes nothing. -/
def poolStep (s : PoolSys τ) : PoolAct τ → Exec (PoolEvent τ × PoolSys τ)
  | .submit t pick => return (.none, postSection s pick (← threadpoolSubmit s.pool t))
  | .release pick => return (.none, postSection s pick (← threadpoolRelease s.pool))
  | .cancel t => do
    let (ret, pool) ← threadpoolCancel s.pool t
    return (.cancelled t ret, { s with pool := pool })
  | .enter i pick =>
    match s.ready[i]? with
    | none => return (.none, s)
    | some w => workSection { s with ready := s.ready.eraseIdx i } w pick
  | .woken i k pick =>
    match s.waiting.resume i k with
    | none => return (.none, s)
    | some (w, waiting) =>
      workSection { s with pool := workerWoken s.pool, waiting := waiting } w pick
  | .done i =>
    match s.running[i]? with
    | none => return (.none, s)
    | some (w, t) =>
      return (.none, { s with pool := workerDone s.pool t, running := s.running.eraseIdx i,
                              ready := s.ready ++ [w] })
  | .spurious i => return (.none, { s with waiting := s.waiting.wakeUp i })

/-- A new pool, whose workers have been started. -/
def poolStart (size : Int) (work : τ → Bool) : PoolSys τ :=
  { pool := threadpoolCreate size work, ready := List.range (threadpoolSize size).toNat,
    waiting := .empty, running := [], exited := [] }

end Wee
