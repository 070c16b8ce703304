import Wee.Lib.Monitor
import Mathlib.Logic.Function.Basic
import Mathlib.Data.List.Induction

/-! # The lock and its conditions (`base/mtxlock.c`, `base/cond.c`)

A `mtxlock` is a mutex with the thread that has locked it, a `cond` a condition variable on such a
lock. The functions are cut into the steps that other threads can see: the call of a blocking
function, its return, and each write of `lock->thread`. `LockSys` is a lock with its conditions and
the place of every thread, `lockStep` makes one step, whichever the schedule asks for.

`cond_wait` and `cond_timedwait` give the mutex away and take it back, but leave `lock->thread` as
it is. So the owner is right behind a wait exactly when nobody has locked in between. -/

namespace Wee

variable {τ κ : Type} [DecidableEq τ]

/-! ### The lock -/

/-- `struct mtxlock`. -/
structure MtxLock (τ : Type) where
  /-- `mtx`, as the thread that holds it. -/
  mtx : Option τ
  /-- `thread`. -/
  thread : Option τ
  deriving DecidableEq, Repr

/-- `mtl_create`. -/
def mtlCreate : MtxLock τ := { mtx := none, thread := none }

/-- `mtl_lockedbyself`, called by `self`. -/
def mtlLockedByself (lock : MtxLock τ) (self : τ) : Bool :=
  match lock.thread with
  | none => false
  | some t => decide (t = self)

/-! ### Threads -/

/-- Where a thread is. -/
inductive LockPc
  /-- Not in a function of the lock or of its conditions. -/
  | outside
  /-- In `mtl_lock`, waiting for the mutex. -/
  | locking
  /-- In `mtl_lock`, with the mutex. -/
  | owning
  /-- In `mtl_unlock`, behind the write of `lock->thread`. -/
  | unlocking
  /-- In `cond_wait` or `cond_timedwait`. -/
  | waiting
  deriving DecidableEq, Repr

/-- A lock, its conditions and the threads. -/
structure LockSys (τ κ : Type) where
  /-- The lock. -/
  lock : MtxLock τ
  /-- The conditions on the lock. Of a waiting thread they also know whether it is in
  `cond_timedwait`. -/
  conds : κ → WaitSet (τ × Bool)
  /-- The threads. -/
  pc : τ → LockPc
  /-- What the last `cond_timedwait` of a thread has returned. -/
  timedOut : τ → Bool

/-- What the schedule can ask for. -/
inductive LockAct (τ κ : Type)
  /-- `t` calls `mtl_lock`. -/
  | lock (t : τ)
  /-- `t` gets the mutex in `mtl_lock`. -/
  | acquire (t : τ)
  /-- `t` writes `lock->thread = pthread_self()` and returns from `mtl_lock`. -/
  | own (t : τ)
  /-- `t` calls `mtl_unlock` and writes `lock->thread = NULL`. -/
  | unlock (t : τ)
  /-- `t` gives the mutex back and returns from `mtl_unlock`. -/
  | release (t : τ)
  /-- `t` calls `cond_wait`. -/
  | wait (t : τ) (c : κ)
  /-- `t` calls `cond_timedwait`, with a time that is valid or not. -/
  | timedwait (t : τ) (c : κ) (valid : Bool)
  /-- `t` calls `cond_signal`, which wakes the thread that `pick` chooses. -/
  | signal (t : τ) (c : κ) (pick : Nat)
  /-- `t` calls `cond_broadcast`. -/
  | broadcast (t : τ) (c : κ)
  /-- A thread wakes up without a signal, or because its time is over. -/
  | wakeUp (c : κ) (i : Nat)
  /-- A thread that has been woken gets the mutex back and returns; `timedOut` tells whether its
  time was over, if it was not woken by a signal. -/
  | resume (c : κ) (i : Nat) (k : Wake) (timedOut : Bool)
  deriving DecidableEq, Repr

namespace LockSys

/-- The lock changes, and the thread `t` goes on to `pc`. -/
def move (s : LockSys τ κ) (lock : MtxLock τ) (t : τ) (pc : LockPc) : LockSys τ κ :=
  { s with lock := lock, pc := Function.update s.pc t pc }

variable [DecidableEq κ]

/-- The condition `c` changes. -/
def setCond (s : LockSys τ κ) (c : κ) (w : WaitSet (τ × Bool)) : LockSys τ κ :=
  { s with conds := Function.update s.conds c w }

/-- `pthread_cond_wait` and `pthread_cond_timedwait` give the mutex away and block, in one step. -/
def block (s : LockSys τ κ) (t : τ) (c : κ) (timed : Bool) : LockSys τ κ :=
  (s.setCond c ((s.conds c).wait (t, timed))).move { s.lock with mtx := none } t .waiting

/-- `pthread_cond_wait` and `pthread_cond_timedwait` take the mutex back and return. -/
def unblock (s : LockSys τ κ) (t : τ) (c : κ) (w : WaitSet (τ × Bool)) (timed timedOut : Bool) :
    LockSys τ κ :=
  let s := (s.setCond c w).move { s.lock with mtx := some t } t .outside
  if timed then { s with timedOut := Function.update s.timedOut t timedOut } else s

end LockSys

/-- A new lock, with nobody in its functions. -/
def lockStart : LockSys τ κ :=
  { lock := mtlCreate, conds := fun _ => .empty, pc := fun _ => .outside, timedOut := fun _ => false }

/-- The thread that takes the mutex back in a wait and returns, if the step is of this kind. -/
def resumedBy (s : LockSys τ κ) : LockAct τ κ → Option τ
  | .resume c i k _ =>
    if s.lock.mtx = none then ((s.conds c).resume i k).map fun r => r.1.1 else none
  | _ => none

section Steps

variable [DecidableEq κ]

/-- One step of a schedule. What a thread cannot do where it is changes nothing; the calls that
`pthread` leaves undefined, to unlock or to wait without holding the mutex, are not made. -/
def lockStep (s : LockSys τ κ) : LockAct τ κ → LockSys τ κ
  | .lock t => if s.pc t = .outside then s.move s.lock t .locking else s
  | .acquire t =>
    if s.pc t = .locking ∧ s.lock.mtx = none then
      s.move { s.lock with mtx := some t } t .owning
    else s
  | .own t =>
    if s.pc t = .owning then s.move { s.lock with thread := some t } t .outside else s
  | .unlock t =>
    if s.pc t = .outside ∧ s.lock.mtx = some t then
      s.move { s.lock with thread := none } t .unlocking
    else s
  | .release t =>
    if s.pc t = .unlocking then s.move { s.lock with mtx := none } t .outside else s
  | .wait t c => if s.pc t = .outside ∧ s.lock.mtx = some t then s.block t c false else s
  | .timedwait t c valid =>
    if s.pc t = .outside ∧ s.lock.mtx = some t then
      if valid then s.block t c true
      -- `EINVAL`, without giving the mutex away
      else { s with timedOut := Function.update s.timedOut t false }
    else s
  | .signal t c pick =>
    if s.pc t = .outside then s.setCond c ((s.conds c).signal pick) else s
  | .broadcast t c => if s.pc t = .outside then s.setCond c (s.conds c).broadcast else s
  | .wakeUp c i => s.setCond c ((s.conds c).wakeUp i)
  | .resume c i k timedOut =>
    if s.lock.mtx = none then
      match (s.conds c).resume i k with
      | none => s
      | some ((t, timed), w) => s.unblock t c w timed (timedOut && decide (k = .spurious))
    else s

/-- The state after a schedule. -/
def lockRun (acts : List (LockAct τ κ)) : LockSys τ κ := acts.foldl lockStep lockStart

/-- One more step. -/
theorem lockRun_snoc (acts : List (LockAct τ κ)) (a : LockAct τ κ) :
    lockRun (acts ++ [a]) = lockStep (lockRun acts) a := by
  rw [lockRun, List.foldl_append]
  rfl

end Steps

/-! ### What a step can do -/

/-- What a step does to the lock and to the threads. -/
inductive LockMove (s : LockSys τ κ) (a : LockAct τ κ) (s' : LockSys τ κ) : Prop
  /-- Nothing. -/
  | stay : resumedBy s a = none → s'.lock = s.lock → s'.pc = s.pc → LockMove s a s'
  /-- `mtl_lock` is called. -/
  | lock (t : τ) : resumedBy s a = none → s.pc t = .outside → s'.lock = s.lock →
      s'.pc = Function.update s.pc t .locking → LockMove s a s'
  /-- `mtl_lock` gets the mutex. -/
  | acquire (t : τ) : resumedBy s a = none → s.lock.mtx = none → s'.lock.mtx = some t →
      s'.lock.thread = s.lock.thread → s'.pc = Function.update s.pc t .owning → LockMove s a s'
  /-- `mtl_lock` returns. -/
  | own (t : τ) : resumedBy s a = none → s.pc t = .owning → s'.lock.mtx = s.lock.mtx →
      s'.lock.thread = some t → s'.pc = Function.update s.pc t .outside → LockMove s a s'
  /-- `mtl_unlock` is called. -/
  | unlock (t : τ) : resumedBy s a = none → s.lock.mtx = some t → s'.lock.mtx = s.lock.mtx →
      s'.lock.thread = none → s'.pc = Function.update s.pc t .unlocking → LockMove s a s'
  /-- `mtl_unlock` returns. -/
  | release (t : τ) : resumedBy s a = none → s.pc t = .unlocking → s'.lock.mtx = none →
      s'.lock.thread = s.lock.thread → s'.pc = Function.update s.pc t .outside → LockMove s a s'
  /-- A wait begins. -/
  | block (t : τ) : resumedBy s a = none → s.lock.mtx = some t → s'.lock.mtx = none →
      s'.lock.thread = s.lock.thread → s'.pc = Function.update s.pc t .waiting → LockMove s a s'
  /-- A wait returns. -/
  | unblock (t : τ) : resumedBy s a = some t → s.lock.mtx = none → s'.lock.mtx = some t →
      s'.lock.thread = s.lock.thread → s'.pc = Function.update s.pc t .outside → LockMove s a s'

/-- A step that changes nothing where its thread cannot make it. -/
theorem LockMove.ite {s s' : LockSys τ κ} {a : LockAct τ κ} {p : Prop} [Decidable p]
    (hby : resumedBy s a = none) (h : p → LockMove s a s') : LockMove s a (if p then s' else s) := by
  by_cases hp : p
  · rw [if_pos hp]
    exact h hp
  · rw [if_neg hp]
    exact .stay hby rfl rfl

/-- **Every step is one of the moves.** -/
theorem lockStep_move [DecidableEq κ] (s : LockSys τ κ) (a : LockAct τ κ) :
    LockMove s a (lockStep s a) := by
  cases a with
  | lock t => exact .ite rfl fun h => .lock t rfl h rfl rfl
  | acquire t => exact .ite rfl fun h => .acquire t rfl h.2 rfl rfl rfl
  | own t => exact .ite rfl fun h => .own t rfl h rfl rfl rfl
  | unlock t => exact .ite rfl fun h => .unlock t rfl h.2 rfl rfl rfl
  | release t => exact .ite rfl fun h => .release t rfl h rfl rfl rfl
  | wait t c => exact .ite rfl fun h => .block t rfl h.2 rfl rfl rfl
  | timedwait t c valid =>
    refine .ite rfl fun h => ?_
    cases valid with
    | true => exact .block t rfl h.2 rfl rfl rfl
    | false => exact .stay rfl rfl rfl
  | signal t c pick => exact .ite rfl fun _ => .stay rfl rfl rfl
  | broadcast t c => exact .ite rfl fun _ => .stay rfl rfl rfl
  | wakeUp c i => exact .stay rfl rfl rfl
  | resume c i k timedOut =>
    rw [lockStep]
    by_cases hfree : s.lock.mtx = none
    · rw [if_pos hfree]
      cases hres : (s.conds c).resume i k with
      | none =>
        refine .stay ?_ rfl rfl
        rw [resumedBy, if_pos hfree, hres, Option.map_none]
      | some r =>
        obtain ⟨⟨t, timed⟩, w⟩ := r
        have hby : resumedBy s (.resume c i k timedOut) = some t := by
          rw [resumedBy, if_pos hfree, hres, Option.map_some]
        cases timed with
        | true => exact .unblock t hby hfree rfl rfl rfl
        | false => exact .unblock t hby hfree rfl rfl rfl
    · rw [if_neg hfree]
      refine .stay ?_ rfl rfl
      rw [resumedBy, if_neg hfree]

/-- A step that returns from a wait. -/
theorem LockMove.resumed {s s' : LockSys τ κ} {a : LockAct τ κ} {t : τ} (h : LockMove s a s')
    (hby : resumedBy s a = some t) :
    s'.lock.mtx = some t ∧ s'.lock.thread = s.lock.thread ∧ s'.pc t = .outside := by
  cases h with
  | unblock u hby' _ hmtx hthread hpc =>
    obtain rfl : u = t := Option.some.inj (hby'.symm.trans hby)
    exact ⟨hmtx, hthread, by rw [hpc, Function.update_self]⟩
  | stay hby' => cases hby'.symm.trans hby
  | lock _ hby' => cases hby'.symm.trans hby
  | acquire _ hby' => cases hby'.symm.trans hby
  | own _ hby' => cases hby'.symm.trans hby
  | unlock _ hby' => cases hby'.symm.trans hby
  | release _ hby' => cases hby'.symm.trans hby
  | block _ hby' => cases hby'.symm.trans hby

/-- **Frame rule**: what holds of every thread still does after a move of `t`, if it holds of `t` at
its new place, and of the others with the new lock. -/
theorem forall_of_move {P : MtxLock τ → τ → LockPc → Prop} {s s' : LockSys τ κ} {t : τ} {pc : LockPc}
    (h : ∀ u, P s.lock u (s.pc u)) (hpc : s'.pc = Function.update s.pc t pc) (ht : P s'.lock t pc)
    (hother : ∀ u, u ≠ t → P s.lock u (s.pc u) → P s'.lock u (s.pc u)) :
    ∀ u, P s'.lock u (s'.pc u) := by
  intro u
  rw [hpc]
  by_cases hu : u = t
  · rw [hu, Function.update_self]
    exact ht
  · rw [Function.update_of_ne hu]
    exact hother u hu (h u)

/-! ### The owner holds the mutex -/

/-- What the place of the thread `u` tells about the lock. -/
def PlaceOk (lock : MtxLock τ) (u : τ) : LockPc → Prop
  | .outside => lock.thread = some u → lock.mtx = some u
  | .owning => lock.mtx = some u
  | .unlocking => lock.mtx = some u ∧ lock.thread = none
  | .locking => True
  | .waiting => True

omit [DecidableEq τ] in
/-- A thread that does not hold the mutex is where it can be without. -/
theorem PlaceOk.other {lock lock' : MtxLock τ} {u : τ} {pc : LockPc} (h : PlaceOk lock u pc)
    (hmtx : lock.mtx ≠ some u) (hthread : lock'.thread = some u → lock.thread = some u) :
    PlaceOk lock' u pc := by
  cases pc with
  | outside => exact fun howner => absurd (h (hthread howner)) hmtx
  | owning => exact absurd h hmtx
  | unlocking => exact absurd h.1 hmtx
  | locking => trivial
  | waiting => trivial

/-- **The invariant of every run**: a thread that writes `lock->thread` holds the mutex, and so does
a thread outside that finds itself there. -/
def OwnerInv (s : LockSys τ κ) : Prop := ∀ u, PlaceOk s.lock u (s.pc u)

omit [DecidableEq τ] in
/-- Nobody owns a new lock. -/
theorem lockStart_inv : OwnerInv (lockStart : LockSys τ κ) := fun _ howner => nomatch howner

/-- **One step keeps the invariant**: where the lock changes, the thread that moves holds the mutex,
or nobody does. -/
theorem OwnerInv.move {s s' : LockSys τ κ} {a : LockAct τ κ} (h : OwnerInv s)
    (hmove : LockMove s a s') : OwnerInv s' := by
  have hheld {t u : τ} (hmtx : s.lock.mtx = some t) (hu : u ≠ t) : s.lock.mtx ≠ some u := by
    rw [hmtx]
    exact fun heq => hu (Option.some.inj heq).symm
  have hfree {u : τ} (hmtx : s.lock.mtx = none) : s.lock.mtx ≠ some u := by
    rw [hmtx]
    exact nofun
  cases hmove with
  | stay _ hlock hpc =>
    unfold OwnerInv
    rw [hlock, hpc]
    exact h
  | lock t _ _ hlock hpc => exact forall_of_move h hpc trivial fun u _ hu => hlock ▸ hu
  | acquire t _ hmtx hmtx' hthread hpc =>
    exact forall_of_move h hpc hmtx' fun u _ hu => hu.other (hfree hmtx) (hthread ▸ id)
  | own t _ hown hmtx hthread hpc =>
    -- the thread in `mtl_lock` has the mutex
    have hplace := h t
    rw [hown] at hplace
    refine forall_of_move h hpc (fun _ => hmtx.trans hplace) fun u hu hu' => ?_
    refine hu'.other (hheld hplace hu) fun howner => ?_
    rw [hthread] at howner
    exact absurd (Option.some.inj howner).symm hu
  | unlock t _ hmtx hmtx' hthread hpc =>
    refine forall_of_move h hpc ⟨hmtx'.trans hmtx, hthread⟩ fun u hu hu' => ?_
    refine hu'.other (hheld hmtx hu) fun howner => ?_
    rw [hthread] at howner
    cases howner
  | release t _ hunlock hmtx hthread hpc =>
    -- the owner has been cleared before
    have hplace := h t
    rw [hunlock] at hplace
    obtain ⟨hholds, hcleared⟩ := hplace
    refine forall_of_move h hpc (fun howner => ?_) fun u hu hu' =>
      hu'.other (hheld hholds hu) (hthread ▸ id)
    rw [hthread, hcleared] at howner
    cases howner
  | block t _ hmtx _ hthread hpc =>
    exact forall_of_move h hpc trivial fun u hu hu' => hu'.other (hheld hmtx hu) (hthread ▸ id)
  | unblock t _ hmtx hmtx' hthread hpc =>
    exact forall_of_move h hpc (fun _ => hmtx') fun u _ hu => hu.other (hfree hmtx) (hthread ▸ id)

/-! ### What `mtl_lockedbyself` tells -/

/-- `mtl_lockedbyself` compares with the owner. -/
theorem mtlLockedByself_iff {lock : MtxLock τ} {self : τ} :
    mtlLockedByself lock self = true ↔ lock.thread = some self := by
  rw [mtlLockedByself]
  cases lock.thread with
  | none => exact ⟨nofun, nofun⟩
  | some t => rw [decide_eq_true_iff, Option.some_inj]

/-- **Ownership is tracked**: outside the functions of the lock, `mtl_lockedbyself` is true of a
thread exactly when it holds the mutex. -/
def OwnershipTracked (s : LockSys τ κ) : Prop :=
  ∀ t, s.pc t = .outside → (mtlLockedByself s.lock t = true ↔ s.lock.mtx = some t)

/-- The holder of the mutex is the owner, if it is outside. -/
def HolderOwns (lock : MtxLock τ) (u : τ) (pc : LockPc) : Prop :=
  pc = .outside → lock.mtx = some u → lock.thread = some u

/-- With the invariant, only the holder matters. -/
theorem OwnerInv.tracked_iff {s : LockSys τ κ} (h : OwnerInv s) :
    OwnershipTracked s ↔ ∀ u, HolderOwns s.lock u (s.pc u) := by
  constructor
  · intro htracked u hout hmtx
    exact mtlLockedByself_iff.mp ((htracked u hout).mpr hmtx)
  · intro howns t hout
    have hplace := h t
    rw [hout] at hplace
    exact mtlLockedByself_iff.trans ⟨hplace, howns t hout⟩

/-- **One step keeps the owner right**, unless it returns from a wait with another owner. -/
theorem OwnerInv.holderOwns_move {s s' : LockSys τ κ} {a : LockAct τ κ} (h : OwnerInv s)
    (howns : ∀ u, HolderOwns s.lock u (s.pc u)) (hmove : LockMove s a s')
    (hwait : ∀ t, resumedBy s a = some t → s.lock.thread = some t) :
    ∀ u, HolderOwns s'.lock u (s'.pc u) := by
  -- a thread that does not hold the mutex afterwards
  have hother {t u : τ} {pc : LockPc} (hu : u ≠ t)
      (hmtx : s'.lock.mtx = none ∨ s'.lock.mtx = some t) : HolderOwns s'.lock u pc := by
    intro _ hholds
    rcases hmtx with hmtx | hmtx <;> rw [hmtx] at hholds
    · cases hholds
    · exact absurd (Option.some.inj hholds).symm hu
  cases hmove with
  | stay _ hlock hpc =>
    rw [hlock, hpc]
    exact howns
  | lock t _ _ hlock hpc =>
    exact forall_of_move howns hpc (fun hout => nomatch hout) fun u _ hu => hlock ▸ hu
  | acquire t _ _ hmtx _ hpc =>
    exact forall_of_move howns hpc (fun hout => nomatch hout) fun u hu _ => hother hu (.inr hmtx)
  | own t _ hown hmtx hthread hpc =>
    have hplace := h t
    rw [hown] at hplace
    exact forall_of_move howns hpc (fun _ _ => hthread) fun u hu _ =>
      hother hu (.inr (hmtx.trans hplace))
  | unlock t _ hmtx hmtx' _ hpc =>
    exact forall_of_move howns hpc (fun hout => nomatch hout) fun u hu _ =>
      hother hu (.inr (hmtx'.trans hmtx))
  | release t _ _ hmtx _ hpc =>
    refine forall_of_move howns hpc (fun _ hholds => ?_) fun u hu _ => hother hu (.inl hmtx)
    rw [hmtx] at hholds
    cases hholds
  | block t _ _ hmtx _ hpc =>
    exact forall_of_move howns hpc (fun hout => nomatch hout) fun u hu _ => hother hu (.inl hmtx)
  | unblock t hby _ hmtx hthread hpc =>
    exact forall_of_move howns hpc (fun _ _ => hthread.trans (hwait t hby)) fun u hu _ =>
      hother hu (.inr hmtx)

/-! ### Runs -/

section Runs

variable [DecidableEq κ]

/-- **The invariant holds in every state.** -/
theorem lockRun_inv (acts : List (LockAct τ κ)) : OwnerInv (lockRun acts) := by
  induction acts using List.reverseRecOn with
  | nil => exact lockStart_inv
  | append_singleton acts a ih =>
    rw [lockRun_snoc]
    exact ih.move (lockStep_move _ a)

/-- **Ownership is tracked in every state** of a run if and only if whoever takes the mutex back in
a wait is still the owner: nobody has locked in between. -/
theorem lock_tracked_iff (acts : List (LockAct τ κ)) :
    (∀ done, done <+: acts → OwnershipTracked (lockRun done)) ↔
      ∀ done a, done ++ [a] <+: acts → ∀ t, resumedBy (lockRun done) a = some t →
        (lockRun done).lock.thread = some t := by
  constructor
  · intro htracked done a hprefix t hby
    obtain ⟨hmtx, hthread, hout⟩ := (lockStep_move (lockRun done) a).resumed hby
    have hafter := htracked (done ++ [a]) hprefix
    rw [lockRun_snoc] at hafter
    rw [← hthread]
    exact mtlLockedByself_iff.mp ((hafter t hout).mpr hmtx)
  · intro hwait done
    induction done using List.reverseRecOn with
    | nil => exact fun _ => (lockRun_inv []).tracked_iff.mpr fun _ _ hholds => nomatch hholds
    | append_singleton done a ih =>
      intro hprefix
      have hbefore := ih ((List.prefix_append done [a]).trans hprefix)
      rw [(lockRun_inv _).tracked_iff, lockRun_snoc]
      exact (lockRun_inv done).holderOwns_move ((lockRun_inv done).tracked_iff.mp hbefore)
        (lockStep_move _ a) (hwait done a hprefix)

/-- `0` waits, `1` locks, signals and unlocks, and `0` returns. -/
def waitOverLock : List (LockAct Nat Unit) :=
  [.lock 0, .acquire 0, .own 0, .wait 0 (), .lock 1, .acquire 1, .own 1, .signal 1 () 0, .unlock 1,
    .release 1, .resume () 0 .notified false]

/-- **The owner is lost** in a wait: the thread `0` holds the mutex, and `mtl_lockedbyself` is
false. -/
theorem cond_wait_loses_owner :
    ¬ ∀ acts : List (LockAct Nat Unit), OwnershipTracked (lockRun acts) := by
  intro h
  have hreport := (h waitOverLock 0 rfl).mpr rfl
  cases hreport

end Runs

end Wee
