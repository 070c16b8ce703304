import Wee.Ae.PassTrace

/-! # What a round serves

A round waits until the first timer is due, and then serves what has fired in turn. A descriptor is
served at most once for reading and once for writing each time it has fired. Where no callback changes
what is registered for it, it is served by what was registered before the wait. -/

namespace Wee

variable {κ δ σ : Type}

/-! ### Parts of a trace -/

/-- The entry is a call that can change what is registered for `fd`. -/
def AeEntry.Touches (fd : Nat) : AeEntry κ δ → Prop
  | .call (.createFileEvent fd' ..) _ => fd' = fd
  | .call (.deleteFileEvent fd' _) _ => fd' = fd
  | _ => False

/-- No callback changes what is registered for `fd`. -/
def NotTouched (fd : Nat) (part : List (AeEntry κ δ)) : Prop := ∀ e ∈ part, ¬ e.Touches fd

/-- The first of two parts. -/
theorem NotTouched.left {fd : Nat} {a b : List (AeEntry κ δ)} (h : NotTouched fd (a ++ b)) :
    NotTouched fd a := fun e he => h e (List.mem_append_left _ he)

/-- The second of two parts. -/
theorem NotTouched.right {fd : Nat} {a b : List (AeEntry κ δ)} (h : NotTouched fd (a ++ b)) :
    NotTouched fd b := fun e he => h e (List.mem_append_right _ he)

/-! ### Serving -/

/-- From `v` to `u` the entries `part` happen, and they tell what is registered. -/
structure Moves (v u : AeSpecWorld κ δ σ) (part : List (AeEntry κ δ)) : Prop where
  /-- What happens. -/
  trace : u.trace = v.trace ++ part
  /-- The registrations. -/
  file : u.loop.file = part.foldl AeEntry.replayFile v.loop.file

section
variable {v u x : AeSpecWorld κ δ σ} {part part' : List (AeEntry κ δ)} {out : AeOutside}
  {procs : AeProcs κ δ σ}

/-- Nothing happens. -/
theorem Moves.refl (v : AeSpecWorld κ δ σ) : Moves v v [] := ⟨(List.append_nil _).symm, rfl⟩

/-- One thing after the other. -/
theorem Moves.trans (h : Moves v u part) (h' : Moves u x part') : Moves v x (part ++ part') where
  trace := by rw [h'.trace, h.trace, List.append_assoc]
  file := by rw [h'.file, h.file, List.foldl_append]

variable [DecidableEq κ]

end

/-! ### Waiting -/

section
variable {v : AeSpecWorld κ δ σ} {w : AeWorld κ δ σ} {out : AeOutside} {procs : AeProcs κ δ σ}

variable [DecidableEq κ]

end

/-- The parts of a round: what is called before it, its file events and its timers. -/
theorem aeMainRound_eq [DecidableEq κ] (out : AeOutside) (procs : AeProcs κ δ σ)
    (w : AeWorld κ δ σ) :
    aeMainRound out procs w = do
      let w ← callSleep out procs w w.loop.beforesleep
      let (_, w) ← processFilePart out procs aeMainFlags w
      let (_, w) ← processTimeEvents out procs w
      return w := by
  rw [aeMainRound]
  cases callSleep out procs w w.loop.beforesleep with
  | error e => rfl
  | ok w₁ =>
    rw [exec_ok_bind, exec_ok_bind, aeProcessEvents, if_neg (by decide)]
    cases processFilePart out procs aeMainFlags w₁ with
    | error e => rfl
    | ok p =>
      obtain ⟨n, w₂⟩ := p
      have hpart : processTimePart out procs aeMainFlags w₂ = processTimeEvents out procs w₂ := rfl
      simp only [exec_ok_bind, hpart]
      cases processTimeEvents out procs w₂ with
      | error e => rfl
      | ok q => rfl

end Wee
