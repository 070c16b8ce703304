import Mathlib.Data.Nat.Basic
import Mathlib.Data.List.Perm.Basic
import Mathlib.Tactic.Common

/-! # Condition variables

A `WaitSet` is what a condition variable knows about the threads inside `wait`: those that are
blocked, those that a signal has chosen, and those that have woken up without one. The last two
still have to get the lock back, and other threads may take it before them. Which thread a signal or
a spurious wake-up chooses is left to an argument, so that a statement about all arguments is one
about all schedules.

`Accounted n w` is the invariant behind one signal for each of `n` units of a resource: as long as a
thread is blocked, there are at least as many notified threads as units. -/

namespace Wee

variable {τ : Type}

/-- The threads waiting on a condition variable. -/
structure WaitSet (τ : Type) where
  /-- The threads blocked, not notified. -/
  blocked : List τ
  /-- The threads notified that have not run since. -/
  notified : List τ
  /-- The threads that woke up without a signal and have not run since. -/
  spurious : List τ
  deriving DecidableEq, Repr

/-- How a thread returns from `wait`. -/
inductive Wake
  /-- By a signal. -/
  | notified
  /-- Without one. -/
  | spurious
  deriving DecidableEq, Repr

namespace WaitSet

/-- Nobody waits. -/
def empty : WaitSet τ := ⟨[], [], []⟩

/-- The thread `t` blocks. -/
def wait (w : WaitSet τ) (t : τ) : WaitSet τ := { w with blocked := w.blocked ++ [t] }

/-- A signal wakes one of the blocked threads, if there is one; `pick` chooses it. -/
def signal (w : WaitSet τ) (pick : Nat) : WaitSet τ :=
  match w.blocked[pick % w.blocked.length]? with
  | none => w
  | some t => { w with blocked := w.blocked.eraseIdx (pick % w.blocked.length),
                       notified := w.notified ++ [t] }

/-- A broadcast wakes all blocked threads. -/
def broadcast (w : WaitSet τ) : WaitSet τ :=
  { w with blocked := [], notified := w.notified ++ w.blocked }

/-- The blocked thread at `i` wakes up without a signal. -/
def wakeUp (w : WaitSet τ) (i : Nat) : WaitSet τ :=
  match w.blocked[i]? with
  | none => w
  | some t => { w with blocked := w.blocked.eraseIdx i, spurious := w.spurious ++ [t] }

/-- The thread at `i` among those woken gets the lock and leaves `wait`. -/
def resume (w : WaitSet τ) (i : Nat) : Wake → Option (τ × WaitSet τ)
  | .notified => w.notified[i]?.map fun t => (t, { w with notified := w.notified.eraseIdx i })
  | .spurious => w.spurious[i]?.map fun t => (t, { w with spurious := w.spurious.eraseIdx i })

/-- The number of threads inside `wait`. -/
def size (w : WaitSet τ) : Nat := w.blocked.length + w.notified.length + w.spurious.length

/-! ### What the operations do -/

/-- A signal to nobody. -/
theorem signal_of_nil {w : WaitSet τ} (h : w.blocked = []) (pick : Nat) : w.signal pick = w := by
  simp [signal, h]

/-- A signal moves one blocked thread to the notified ones. -/
theorem signal_of_ne_nil {w : WaitSet τ} (h : w.blocked ≠ []) (pick : Nat) :
    ∃ i t, w.blocked[i]? = some t ∧ w.signal pick
      = { w with blocked := w.blocked.eraseIdx i, notified := w.notified ++ [t] } := by
  have hlt : pick % w.blocked.length < w.blocked.length :=
    Nat.mod_lt _ (List.length_pos_iff.mpr h)
  refine ⟨_, _, List.getElem?_eq_getElem hlt, ?_⟩
  rw [signal, List.getElem?_eq_getElem hlt]

/-- A signal that leaves somebody blocked has notified somebody. -/
theorem signal_blocked {W : WaitSet τ} {pick : Nat} (h : (W.signal pick).blocked ≠ []) :
    (W.signal pick).notified ≠ [] := by
  by_cases hb : W.blocked = []
  · rw [signal_of_nil hb] at h
    exact absurd hb h
  · obtain ⟨i, t, -, heq⟩ := signal_of_ne_nil hb pick
    rw [heq]
    exact List.append_ne_nil_of_right_ne_nil _ (List.cons_ne_nil t [])

/-- What is left when a thread resumes. -/
theorem resume_cases {w w' : WaitSet τ} {i : Nat} {k : Wake} {t : τ}
    (h : w.resume i k = some (t, w')) :
    w'.blocked = w.blocked ∧ ((w'.notified.length + 1 = w.notified.length ∧ w'.spurious = w.spurious)
      ∨ (w'.notified = w.notified ∧ w'.spurious.length + 1 = w.spurious.length)) := by
  cases k with
  | notified =>
    obtain ⟨x, hx, heq⟩ := Option.map_eq_some_iff.mp h
    cases heq
    obtain ⟨hlt, -⟩ := List.getElem?_eq_some_iff.mp hx
    refine ⟨rfl, .inl ⟨?_, rfl⟩⟩
    rw [List.length_eraseIdx_of_lt hlt]
    omega
  | spurious =>
    obtain ⟨x, hx, heq⟩ := Option.map_eq_some_iff.mp h
    cases heq
    obtain ⟨hlt, -⟩ := List.getElem?_eq_some_iff.mp hx
    refine ⟨rfl, .inr ⟨rfl, ?_⟩⟩
    rw [List.length_eraseIdx_of_lt hlt]
    omega

/-- A spurious wake-up notifies nobody, and blocks nobody. -/
theorem wakeUp_cases (w : WaitSet τ) (i : Nat) :
    w.wakeUp i = w ∨ ∃ t, w.blocked[i]? = some t ∧ w.wakeUp i
      = { w with blocked := w.blocked.eraseIdx i, spurious := w.spurious ++ [t] } := by
  cases ht : w.blocked[i]? with
  | none => exact .inl (by rw [wakeUp, ht])
  | some t => exact .inr ⟨t, rfl, by rw [wakeUp, ht]⟩

/-! ### Who is inside `wait` -/

/-- The threads inside `wait`. -/
def members (w : WaitSet τ) : List τ := w.blocked ++ w.notified ++ w.spurious

/-- Their number. -/
theorem length_members (w : WaitSet τ) : w.members.length = w.size := by
  rw [members, size, List.length_append, List.length_append]

/-- An element taken out at an index. -/
theorem perm_cons_eraseIdx {l : List τ} {i : Nat} {t : τ} (h : l[i]? = some t) :
    l.Perm (t :: l.eraseIdx i) := by
  obtain ⟨hlt, rfl⟩ := List.getElem?_eq_some_iff.mp h
  exact (List.getElem_cons_eraseIdx_perm hlt).symm

/-- A thread that blocks. -/
theorem wait_members (w : WaitSet τ) (t : τ) : (w.wait t).members.Perm (t :: w.members) := by
  rw [members, members, wait, List.append_assoc, List.append_assoc, List.append_assoc]
  exact List.perm_middle

/-- A signal moves a thread. -/
theorem signal_members (w : WaitSet τ) (pick : Nat) : (w.signal pick).members.Perm w.members := by
  by_cases hb : w.blocked = []
  · rw [signal_of_nil hb]
  · obtain ⟨i, t, ht, heq⟩ := signal_of_ne_nil hb pick
    rw [heq, members, members, List.append_assoc, List.append_assoc, List.append_assoc]
    have hout := (perm_cons_eraseIdx ht).append_right (w.notified ++ w.spurious)
    refine List.Perm.trans ?_ hout.symm
    rw [← List.append_assoc, List.singleton_append]
    refine List.perm_middle.trans ?_
    rw [List.append_assoc, List.cons_append]

/-- A spurious wake-up moves a thread. -/
theorem wakeUp_members (w : WaitSet τ) (i : Nat) : (w.wakeUp i).members.Perm w.members := by
  rcases w.wakeUp_cases i with heq | ⟨t, ht, heq⟩
  · rw [heq]
  · rw [heq, members, members, List.append_assoc, List.append_assoc]
    have hout := (perm_cons_eraseIdx ht).append_right (w.notified ++ w.spurious)
    refine List.Perm.trans ?_ hout.symm
    rw [← List.append_assoc w.notified, ← List.append_assoc, List.cons_append]
    exact List.perm_append_singleton t _

/-- The thread that resumes was inside. -/
theorem resume_members {w w' : WaitSet τ} {i : Nat} {k : Wake} {t : τ}
    (h : w.resume i k = some (t, w')) : w.members.Perm (t :: w'.members) := by
  cases k with
  | notified =>
    obtain ⟨x, hx, heq⟩ := Option.map_eq_some_iff.mp h
    cases heq
    rw [members, members, List.append_assoc, List.append_assoc]
    refine (((perm_cons_eraseIdx hx).append_right w.spurious).append_left w.blocked).trans ?_
    exact List.perm_middle
  | spurious =>
    obtain ⟨x, hx, heq⟩ := Option.map_eq_some_iff.mp h
    cases heq
    rw [members, members]
    exact ((perm_cons_eraseIdx hx).append_left (w.blocked ++ w.notified)).trans List.perm_middle

/-! ### One signal for each unit -/

/-- As long as a thread is blocked, there are at least `n` notified threads. -/
def Accounted (n : Nat) (w : WaitSet τ) : Prop := w.blocked ≠ [] → n ≤ w.notified.length

/-- Nobody is blocked at the start. -/
theorem accounted_empty (n : Nat) : Accounted n (empty : WaitSet τ) := fun h => absurd rfl h

/-- Nothing needs to be accounted for when there is no unit. -/
theorem accounted_zero (w : WaitSet τ) : Accounted 0 w := fun _ => Nat.zero_le _

/-- A unit that is used up needs no account. -/
theorem Accounted.mono {n m : Nat} {w : WaitSet τ} (h : Accounted n w) (hle : m ≤ n) :
    Accounted m w := fun hb => Nat.le_trans hle (h hb)

/-- **A signal accounts for one more unit.** -/
theorem Accounted.signal {n : Nat} {w : WaitSet τ} (h : Accounted n w) (pick : Nat) :
    Accounted (n + 1) (w.signal pick) := by
  by_cases hb : w.blocked = []
  · rw [signal_of_nil hb]
    exact fun hne => absurd hb hne
  · obtain ⟨i, t, -, heq⟩ := signal_of_ne_nil hb pick
    intro _
    rw [heq, List.length_append, List.length_singleton]
    exact Nat.succ_le_succ (h hb)

/-- **A woken thread uses at most the unit it was notified for.** -/
theorem Accounted.resume {n : Nat} {w w' : WaitSet τ} {i : Nat} {k : Wake} {t : τ}
    (h : Accounted n w) (hres : w.resume i k = some (t, w')) : Accounted (n - 1) w' := by
  obtain ⟨hblocked, hrest⟩ := resume_cases hres
  intro hb
  rw [hblocked] at hb
  have hle := h hb
  rcases hrest with ⟨hnot, -⟩ | ⟨hnot, -⟩
  · omega
  · rw [hnot]
    omega

/-- A spurious wake-up only takes away from the blocked threads. -/
theorem Accounted.wakeUp {n : Nat} {w : WaitSet τ} (h : Accounted n w) (i : Nat) :
    Accounted n (w.wakeUp i) := by
  rcases w.wakeUp_cases i with heq | ⟨t, ht, heq⟩
  · rwa [heq]
  · intro _
    rw [heq]
    refine h fun hnil => ?_
    rw [hnil] at ht
    cases ht

/-- **No wake-up is lost**: a unit is there and a thread is blocked, so a notified one is about to
run. -/
theorem Accounted.notified_ne_nil {n : Nat} {w : WaitSet τ} (h : Accounted n w) (hn : 0 < n)
    (hb : w.blocked ≠ []) : w.notified ≠ [] := by
  intro hnil
  have hle := h hb
  rw [hnil, List.length_nil] at hle
  omega

end WaitSet

end Wee
