import Wee.Lib.Exec

/-! # Programs that call an interface

A `Script` makes calls of an interface and goes on by what they return. It stands for a callback of
which nothing is known but the interface it has. `Script.run` runs it on a component whose calls can
fault, and `Script.eval` on a specification, whose calls cannot. What every call keeps, every script
keeps; where every call simulates its specification, every script does. -/

namespace Wee

variable {σ τ call ret α : Type}

/-- A program that makes calls and returns an `α`. -/
inductive Script (call ret α : Type)
  /-- The end. -/
  | done (a : α)
  /-- A call, and what is done with its result. -/
  | step (c : call) (k : ret → Script call ret α)

/-- Run a script on the calls of an interface. -/
def Script.run (interface : σ → call → Exec (ret × σ)) : Script call ret α → σ → Exec (α × σ)
  | .done a, s => .ok (a, s)
  | .step c k, s => do
    let (r, s) ← interface s c
    (k r).run interface s

/-- Run a script on calls that cannot fault. -/
def Script.eval (interface : σ → call → ret × σ) : Script call ret α → σ → α × σ
  | .done a, s => (a, s)
  | .step c k, s => (k (interface s c).1).eval interface (interface s c).2

/-- All the calls a script can make are among `P`. -/
def Script.Only (P : call → Prop) : Script call ret α → Prop
  | .done _ => True
  | .step c k => P c ∧ ∀ r, (k r).Only P

/-- Nothing is asked of the calls. -/
theorem Script.only_true (x : Script call ret α) : x.Only fun _ => True := by
  induction x with
  | done a => trivial
  | step c k ih => exact ⟨trivial, ih⟩

/-- **Invariant rule** for a specification: a script keeps what every call it can make keeps. -/
theorem Script.eval_invariant {interface : σ → call → ret × σ} {I : σ → Prop} {P : call → Prop}
    (hcall : ∀ s c, P c → I s → I (interface s c).2) {x : Script call ret α} (hx : x.Only P) {s : σ}
    (h : I s) : I (x.eval interface s).2 := by
  induction x generalizing s with
  | done a => exact h
  | step c k ih => exact ih (interface s c).1 (hx.2 _) (hcall s c hx.1 h)

/-- **Simulation rule**: where every call of a component simulates the call of the specification, a
script does not fault, returns what it returns on the specification, and ends in related states. -/
theorem Script.run_simulates {interface : σ → call → Exec (ret × σ)} {spec : τ → call → ret × τ}
    {R : σ → τ → Prop} (hcall : ∀ s t c, R s t →
      Returns (interface s c) fun p => p.1 = (spec t c).1 ∧ R p.2 (spec t c).2)
    (x : Script call ret α) {s : σ} {t : τ} (h : R s t) :
    Returns (x.run interface s) fun p => p.1 = (x.eval spec t).1 ∧ R p.2 (x.eval spec t).2 := by
  induction x generalizing s t with
  | done a => exact returns_ok ⟨rfl, h⟩
  | step c k ih =>
    rw [Script.run, Script.eval]
    apply (hcall s t c h).bind
    rintro ⟨r, s'⟩ ⟨rfl, hs'⟩
    exact ih _ hs'

end Wee
