import Mathlib.Data.List.Basic
import Mathlib.Tactic.Common

/-! # Histories

A history is the list of what has happened. `EachAfter P` says of a history that each of its entries
has the property `P` with respect to what has happened before it. -/

namespace Wee

variable {ε : Type}

/-- Each entry has `P` with respect to those before it. -/
def EachAfter (P : List ε → ε → Prop) (history : List ε) : Prop :=
  ∀ before e after, history = before ++ e :: after → P before e

variable {P : List ε → ε → Prop} {history : List ε} {e : ε}

/-- Nothing has happened. -/
theorem eachAfter_nil : EachAfter P [] := fun before e after h => by
  cases before <;> exact nomatch h

/-- **Step rule**: one more entry. -/
theorem EachAfter.concat (h : EachAfter P history) (he : P history e) :
    EachAfter P (history ++ [e]) := by
  intro before e' after heq
  rcases List.eq_nil_or_concat after with rfl | ⟨after', x, rfl⟩
  · obtain ⟨rfl, hsingle⟩ := List.append_inj' heq rfl
    obtain rfl : e = e' := (List.cons.inj hsingle).1
    exact he
  · rw [List.concat_eq_append, ← List.cons_append, ← List.append_assoc] at heq
    exact h before e' after' (List.append_inj' heq rfl).1

end Wee
