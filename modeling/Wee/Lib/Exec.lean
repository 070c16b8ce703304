import Mathlib.Data.Nat.Basic
import Mathlib.Tactic.Common

/-! # Executions of C functions

A C function is modelled as a Lean function into `Except Fault`: an `.ok` value is a normal return
and a `Fault` names the way an execution fails to return (a failed `assert`, an access outside an
object, a process exit, or the end of the fuel given to a loop that the source does not bound).
This file has the faults, `assert`, and the rewriting rules for sequencing. -/

namespace Wee

/-- The ways an execution can fail to return normally. -/
inductive Fault
  /-- An `assert` whose condition is false. -/
  | assertFailed
  /-- A load or a store outside the object the pointer belongs to. -/
  | outOfBounds
  /-- A call of `exit`. -/
  | exited
  /-- The fuel of the model ended before the code returned. -/
  | outOfFuel
  deriving DecidableEq, Repr

/-- The result of running C code that returns an `α`. -/
abbrev Exec (α : Type) := Except Fault α

/-- `assert(p)`. -/
def cassert (p : Prop) [Decidable p] : Exec Unit :=
  if p then .ok () else .error .assertFailed

variable {α β : Type}

/-- Sequencing after a normal return runs the continuation. -/
@[simp] theorem exec_ok_bind (a : α) (f : α → Exec β) :
    ((Except.ok a : Exec α) >>= f) = f a := rfl

/-- Sequencing after a fault is that fault. -/
@[simp] theorem exec_error_bind (e : Fault) (f : α → Exec β) :
    ((Except.error e : Exec α) >>= f) = .error e := rfl

/-- `pure` is a normal return. -/
@[simp] theorem exec_pure (a : α) : (pure a : Exec α) = .ok a := rfl

/-- **Inversion of sequencing**: a sequence returns iff its first part returns and the continuation
returns on that value. -/
theorem exec_bind_eq_ok {x : Exec α} {f : α → Exec β} {b : β} :
    (x >>= f) = .ok b ↔ ∃ a, x = .ok a ∧ f a = .ok b := by
  cases x with
  | error e => simp
  | ok a => simp

/-- Running the first part of a sequence. -/
theorem exec_bind_of_eq {x : Exec α} {f : α → Exec β} {a : α} {r : Exec β} (hx : x = .ok a)
    (hf : f a = r) : (x >>= f) = r := by
  rw [hx, exec_ok_bind, hf]

/-- An assertion that holds is skipped. -/
theorem cassert_of {p : Prop} [Decidable p] (hp : p) : cassert p = .ok () := by
  rw [cassert, if_pos hp]

/-- An assertion that fails aborts. -/
theorem cassert_of_not {p : Prop} [Decidable p] (hp : ¬ p) : cassert p = .error .assertFailed := by
  rw [cassert, if_neg hp]

/-- An assertion that is passed holds. -/
theorem of_cassert {p : Prop} [Decidable p] {u : Unit} (h : cassert p = .ok u) : p := by
  by_contra hp
  rw [cassert_of_not hp] at h
  cases h

/-- A sequence behind an assertion that holds. -/
theorem cassert_bind_of {p : Prop} [Decidable p] (hp : p) (f : Unit → Exec β) :
    (cassert p >>= f) = f () := by
  rw [cassert_of hp, exec_ok_bind]

/-- A sequence behind an assertion that fails. -/
theorem cassert_bind_of_not {p : Prop} [Decidable p] (hp : ¬ p) (f : Unit → Exec β) :
    (cassert p >>= f) = .error .assertFailed := by
  rw [cassert_of_not hp, exec_error_bind]

/-! ### Total correctness

`Returns x P` says that `x` returns normally with a value that satisfies `P`. The rules below are
the ones for sequencing, so that a caller uses a callee through its postcondition. -/

/-- `x` returns, and its value satisfies `P`. -/
def Returns (x : Exec α) (P : α → Prop) : Prop := ∃ a, x = .ok a ∧ P a

/-- A concrete execution is decided by running it. -/
instance instDecidableReturns (x : Exec α) (P : α → Prop) [∀ a, Decidable (P a)] :
    Decidable (Returns x P) :=
  match x with
  | .error _ => .isFalse fun ⟨_, h, _⟩ => nomatch h
  | .ok a => decidable_of_iff (P a) ⟨fun h => ⟨a, rfl, h⟩, fun ⟨_, h, hP⟩ => by cases h; exact hP⟩

/-- A normal return satisfies what its value satisfies. -/
theorem returns_ok {a : α} {P : α → Prop} (h : P a) : Returns (.ok a) P := ⟨a, rfl, h⟩

/-- **Sequencing rule**. -/
theorem Returns.bind {x : Exec α} {f : α → Exec β} {P : α → Prop} {Q : β → Prop}
    (hx : Returns x P) (hf : ∀ a, P a → Returns (f a) Q) : Returns (x >>= f) Q := by
  obtain ⟨a, rfl, ha⟩ := hx
  exact hf a ha

/-- **Consequence rule**. -/
theorem Returns.imp {x : Exec α} {P Q : α → Prop} (hx : Returns x P) (h : ∀ a, P a → Q a) :
    Returns x Q := by
  obtain ⟨a, ha, hP⟩ := hx
  exact ⟨a, ha, h a hP⟩

/-- **Assertion rule**: an assertion before a computation is its precondition. -/
theorem returns_cassert_bind {p : Prop} [Decidable p] {f : Unit → Exec β} {Q : β → Prop}
    (hp : p) (hf : Returns (f ()) Q) : Returns (cassert p >>= f) Q := by
  rw [cassert_bind_of hp]
  exact hf

/-! ### Enough fuel

A function that the source does not bound takes fuel. `Settles x P` says that it returns: from some
amount of fuel on, `x` returns one and the same value, which satisfies `P`. -/

/-- With enough fuel `x` returns, always the same value, and it satisfies `P`. -/
def Settles (x : Nat → Exec α) (P : α → Prop) : Prop :=
  ∃ N a, (∀ fuel, N ≤ fuel → x fuel = .ok a) ∧ P a

/-- A computation that needs no fuel. -/
theorem Returns.settles {x : Exec α} {P : α → Prop} (hx : Returns x P) : Settles (fun _ => x) P := by
  obtain ⟨a, ha, hP⟩ := hx
  exact ⟨0, a, fun _ _ => ha, hP⟩

/-- A value settles on itself. -/
theorem settles_ok_iff {a : α} {P : α → Prop} : Settles (fun _ => .ok a) P ↔ P a := by
  constructor
  · rintro ⟨N, b, hb, hP⟩
    obtain rfl : a = b := Except.ok.inj (hb N (le_refl N))
    exact hP
  · intro h
    exact ⟨0, a, fun _ _ => rfl, h⟩

/-- What is returned from some fuel on is what is settled on. -/
theorem settles_iff_of_ok {x : Nat → Exec α} {P : α → Prop} {N : Nat} {a : α}
    (ha : ∀ fuel, N ≤ fuel → x fuel = .ok a) : Settles x P ↔ P a := by
  constructor
  · rintro ⟨M, b, hb, hP⟩
    have hok := hb (max N M) (le_max_right N M)
    rw [ha (max N M) (le_max_left N M)] at hok
    obtain rfl : a = b := Except.ok.inj hok
    exact hP
  · intro h
    exact ⟨N, a, ha, h⟩

/-- What faults with every fuel does not settle. -/
theorem not_settles_of_error {x : Nat → Exec α} {P : α → Prop}
    (h : ∀ fuel, ∃ e, x fuel = .error e) : ¬ Settles x P := by
  rintro ⟨N, a, ha, -⟩
  obtain ⟨e, he⟩ := h N
  rw [ha N (le_refl N)] at he
  cases he

/-- **Sequencing rule** with fuel: the parts get the same fuel. -/
theorem Settles.bind {x : Nat → Exec α} {f : Nat → α → Exec β} {P : α → Prop} {Q : β → Prop}
    (hx : Settles x P) (hf : ∀ a, P a → Settles (fun fuel => f fuel a) Q) :
    Settles (fun fuel => x fuel >>= f fuel) Q := by
  obtain ⟨N, a, ha, hP⟩ := hx
  obtain ⟨M, b, hb, hQ⟩ := hf a hP
  refine ⟨max N M, b, fun fuel hfuel => ?_, hQ⟩
  show (x fuel >>= f fuel) = .ok b
  rw [ha fuel (le_trans (le_max_left N M) hfuel), exec_ok_bind]
  exact hb fuel (le_trans (le_max_right N M) hfuel)

/-- **Consequence rule** with fuel. -/
theorem Settles.imp {x : Nat → Exec α} {P Q : α → Prop} (hx : Settles x P) (h : ∀ a, P a → Q a) :
    Settles x Q := by
  obtain ⟨N, a, ha, hP⟩ := hx
  exact ⟨N, a, ha, h a hP⟩

/-- **Unfolding rule**: a recursive function spends one unit of fuel on its body. -/
theorem Settles.of_succ {x y : Nat → Exec α} {P : α → Prop} (hx : Settles x P)
    (h : ∀ fuel, y (fuel + 1) = x fuel) : Settles y P := by
  obtain ⟨N, a, ha, hP⟩ := hx
  refine ⟨N + 1, a, fun fuel hfuel => ?_, hP⟩
  obtain ⟨fuel, rfl⟩ := Nat.exists_eq_add_of_le' (le_trans (Nat.le_add_left 1 N) hfuel)
  rw [h]
  exact ha fuel (Nat.le_of_succ_le_succ hfuel)

/-- More fuel does no harm. -/
theorem Settles.succ {x : Nat → Exec α} {P : α → Prop} (hx : Settles x P) :
    Settles (fun fuel => x (fuel + 1)) P := by
  obtain ⟨N, a, ha, hP⟩ := hx
  exact ⟨N, a, fun fuel hfuel => ha (fuel + 1) (Nat.le_succ_of_le hfuel), hP⟩

/-- When more fuel does not change what is returned, one return is enough. -/
theorem settles_of_ok {x : Nat → Exec α}
    (hmono : ∀ {fuel fuel' a}, fuel ≤ fuel' → x fuel = .ok a → x fuel' = .ok a) {fuel : Nat} {a : α}
    (h : x fuel = .ok a) : Settles x fun b => b = a :=
  ⟨fuel, a, fun _ hle => hmono hle h, rfl⟩

/-- When more fuel does not change what is returned, every return is the value settled on. -/
theorem Settles.of_eq_ok {x : Nat → Exec α} {P : α → Prop} (hx : Settles x P)
    (hmono : ∀ {fuel fuel' a}, fuel ≤ fuel' → x fuel = .ok a → x fuel' = .ok a) {fuel : Nat} {a : α}
    (h : x fuel = .ok a) : P a := by
  obtain ⟨N, b, hb, hP⟩ := hx
  have hmax := hmono (le_max_left fuel N) h
  rw [hb (max fuel N) (le_max_right fuel N)] at hmax
  cases hmax
  exact hP

/-- What holds of the returns from some fuel on is known of the value settled on. -/
theorem Settles.and_of_forall {x : Nat → Exec α} {P : α → Prop} {Q : Nat → α → Prop} {M : Nat}
    (hx : Settles x P) (h : ∀ fuel, M ≤ fuel → ∀ a, x fuel = .ok a → Q fuel a) :
    Settles x fun a => P a ∧ ∃ K, ∀ fuel, K ≤ fuel → Q fuel a := by
  obtain ⟨N, a, ha, hP⟩ := hx
  refine ⟨N, a, ha, hP, max N M, fun fuel hfuel => ?_⟩
  have hok := ha fuel (le_trans (le_max_left N M) hfuel)
  exact h fuel (le_trans (le_max_right N M) hfuel) a hok

/-! ### More fuel

`Extends x y` says that `y` returns whatever `x` returns. A function that is given more fuel extends
itself, which is proved along its sequences. -/

/-- `y` returns what `x` returns. -/
def Extends (x y : Exec α) : Prop := ∀ a, x = .ok a → y = .ok a

/-- An execution extends itself. -/
theorem Extends.refl (x : Exec α) : Extends x x := fun _ h => h

/-- Anything extends a fault. -/
theorem extends_error (e : Fault) (x : Exec α) : Extends (.error e) x := fun _ h => nomatch h

/-- **Sequencing rule** for extensions. -/
theorem Extends.bind {x y : Exec α} {f g : α → Exec β} (hx : Extends x y)
    (hf : ∀ a, Extends (f a) (g a)) : Extends (x >>= f) (y >>= g) := by
  intro b hb
  obtain ⟨a, ha, hfa⟩ := exec_bind_eq_ok.mp hb
  rw [hx a ha, exec_ok_bind]
  exact hf a b hfa

/-- A function that returns from some fuel on and extends itself settles. -/
theorem settles_of_returns {x : Nat → Exec α} {P : α → Prop} {N : Nat}
    (hx : ∀ fuel, N ≤ fuel → Returns (x fuel) P) (hmore : ∀ fuel, Extends (x fuel) (x (fuel + 1))) :
    Settles x P := by
  obtain ⟨a, ha, hP⟩ := hx N (le_refl N)
  refine ⟨N, a, fun fuel hle => ?_, hP⟩
  induction fuel, hle using Nat.le_induction with
  | base => exact ha
  | succ fuel _ ih => exact hmore fuel a ih

end Wee
