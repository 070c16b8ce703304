import Mathlib.Data.List.Basic
import Mathlib.Tactic.Common

/-! # Singly linked lists

A heap gives each node that is allocated its link, which is the node behind it or `none`. `Path`
follows the links. It depends on the links of its own nodes alone, so that a store elsewhere leaves it
as it is, and a store in its last node turns it to where that node then points. -/

namespace Wee

variable {α : Type}

/-- From `o` the links lead through the nodes `ps`, in their order, to `o'`. -/
def Path (link : α → Option (Option α)) : Option α → List α → Option α → Prop
  | o, [], o' => o = o'
  | o, p :: ps, o' => o = some p ∧ ∃ next, link p = some next ∧ Path link next ps o'

variable {link link' : α → Option (Option α)} {o o' o'' : Option α} {p : α} {ps qs : List α}

/-- A path that has a node in front. -/
theorem path_cons_iff : Path link o (p :: ps) o' ↔
    o = some p ∧ ∃ next, link p = some next ∧ Path link next ps o' := Iff.rfl

/-- A path leads on where another ends. -/
theorem path_append_iff : Path link o (ps ++ qs) o' ↔ ∃ m, Path link o ps m ∧ Path link m qs o' := by
  induction ps generalizing o with
  | nil =>
    constructor
    · intro h
      exact ⟨o, rfl, h⟩
    · rintro ⟨m, rfl, h⟩
      exact h
  | cons p ps ih =>
    simp only [List.cons_append, path_cons_iff, ih]
    constructor
    · rintro ⟨ho, next, hnext, m, hps, hqs⟩
      exact ⟨m, ⟨ho, next, hnext, hps⟩, hqs⟩
    · rintro ⟨m, ⟨ho, next, hnext, hps⟩, hqs⟩
      exact ⟨ho, next, hnext, m, hps, hqs⟩

/-- **Frame**: a path depends on the links of its nodes. -/
theorem Path.congr (h : Path link o ps o') (hlink : ∀ p ∈ ps, link' p = link p) :
    Path link' o ps o' := by
  induction ps generalizing o with
  | nil => exact h
  | cons p ps ih =>
    obtain ⟨ho, next, hnext, hps⟩ := h
    exact ⟨ho, next, (hlink p List.mem_cons_self).trans hnext,
      ih hps fun q hq => hlink q (List.mem_cons_of_mem p hq)⟩

/-- Where a path begins. -/
theorem Path.head_eq (h : Path link o ps none) : o = ps.head? := by
  cases ps with
  | nil => exact h
  | cons p ps => exact h.1

/-- **Unlinking**: the last node of a path is linked to something else. -/
theorem Path.relink (h : Path link o (ps ++ [p]) o') (hp : p ∉ ps) (hlink : link' p = some o'')
    (hframe : ∀ q, q ≠ p → link' q = link q) : Path link' o (ps ++ [p]) o'' := by
  obtain ⟨m, hps, hm, -⟩ := path_append_iff.mp h
  refine path_append_iff.mpr ⟨m, hps.congr fun q hq => hframe q ?_, hm, o'', hlink, rfl⟩
  rintro rfl
  exact hp hq

end Wee
