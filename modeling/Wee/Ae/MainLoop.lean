import Wee.Ae.TimerPass

/-! # The main loop

Rounds of the loop, and whole programs: whatever the callbacks of a client do, the loop goes through
the same calls of the client as its description, and none of its own steps faults. -/

namespace Wee

variable {κ δ σ : Type} {w : AeWorld κ δ σ} {v : AeSpecWorld κ δ σ} {out : AeOutside}
  {procs : AeProcs κ δ σ}

/-- `maxfd` tells whether anything is registered. -/
theorem Mirrors.watches (h : Mirrors [] w v) : w.loop.maxfd ≠ -1 ↔ v.watches = true := by
  rw [ne_eq, h.loop.files.maxfd.eq_neg_one_iff, not_forall, AeSpecWorld.watches, List.any_eq_true]
  constructor
  · rintro ⟨fd, hfd⟩
    rw [not_not] at hfd
    exact ⟨fd, List.mem_range.mpr (h.loop.files.wf.lt_of_mask hfd), bne_iff_ne.mpr hfd⟩
  · rintro ⟨fd, -, hfd⟩
    exact ⟨fd, not_not.mpr (bne_iff_ne.mp hfd)⟩

variable [DecidableEq κ]

/-- The file events of a round. -/
theorem Mirrors.processFilePart (h : Mirrors [] w v) (flags : AeFlags) :
    Returns (processFilePart out procs flags w) fun p =>
      p.1 = (v.processFilePart out procs flags).1 ∧
        Mirrors [] p.2 (v.processFilePart out procs flags).2 := by
  rw [Wee.processFilePart, AeSpecWorld.processFilePart]
  simp only [h.watches]
  split
  · exact h.processFileEvents flags
  · exact returns_ok ⟨rfl, h⟩

omit [DecidableEq κ] in
/-- The timers of a round. -/
theorem Mirrors.processTimePart (hfin : procs.FinalizersCreateNothing) (h : Mirrors [] w v)
    (flags : AeFlags) :
    Returns (processTimePart out procs flags w) fun p =>
      p.1 = (v.processTimePart out procs flags).1 ∧
        Mirrors [] p.2 (v.processTimePart out procs flags).2 := by
  rw [Wee.processTimePart, AeSpecWorld.processTimePart]
  split
  · exact h.processTimeEvents hfin
  · exact returns_ok ⟨rfl, h⟩

/-- **`aeProcessEvents`**. -/
theorem Mirrors.processEvents (hfin : procs.FinalizersCreateNothing) (h : Mirrors [] w v)
    (flags : AeFlags) :
    Returns (aeProcessEvents out procs flags w) fun p =>
      p.1 = (v.processEvents out procs flags).1 ∧
        Mirrors [] p.2 (v.processEvents out procs flags).2 := by
  rw [aeProcessEvents, AeSpecWorld.processEvents]
  split
  · exact returns_ok ⟨rfl, h⟩
  · apply (h.processFilePart flags).bind
    rintro ⟨n, w₁⟩ ⟨rfl, hw₁⟩
    apply (hw₁.processTimePart hfin flags).bind
    rintro ⟨m, w₂⟩ ⟨rfl, hw₂⟩
    exact returns_ok ⟨rfl, hw₂⟩

/-- **A round**. -/
theorem Mirrors.mainRound (hfin : procs.FinalizersCreateNothing) (h : Mirrors [] w v) :
    Returns (aeMainRound out procs w) fun w' => Mirrors [] w' (v.mainRound out procs) := by
  rw [aeMainRound, h.loop.beforesleep]
  apply (h.sleep v.loop.beforesleep).bind
  intro w₁ hw₁
  apply (hw₁.processEvents hfin aeMainFlags).bind
  rintro ⟨n, w₂⟩ ⟨-, hw₂⟩
  exact returns_ok hw₂

/-- **Rounds** of the loop. -/
theorem Mirrors.rounds (hfin : procs.FinalizersCreateNothing) (h : Mirrors [] w v) (n : Nat) :
    Returns (aeMainRounds out procs n w) fun w' => Mirrors [] w' (v.rounds out procs n) := by
  induction n generalizing w v with
  | zero => exact returns_ok h
  | succ n ih =>
    rw [aeMainRounds, AeSpecWorld.rounds, h.loop.stop]
    split
    · exact returns_ok h
    · exact (h.mainRound hfin).bind fun w' hw' => ih hw'

/-- The loop returns when it is stopped in one of its rounds. -/
theorem Mirrors.mainLoop (hfin : procs.FinalizersCreateNothing) (h : Mirrors [] w v) {n : Nat}
    (hstop : (v.rounds out procs n).loop.stop = true) :
    Returns (aeMainLoop out procs (n + 1) w) fun w' => Mirrors [] w' (v.rounds out procs n) := by
  induction n generalizing w v with
  | zero =>
    rw [AeSpecWorld.rounds] at hstop ⊢
    rw [aeMainLoop, h.loop.stop, if_pos hstop]
    exact returns_ok h
  | succ n ih =>
    rw [AeSpecWorld.rounds] at hstop ⊢
    rw [aeMainLoop, h.loop.stop]
    by_cases hstopped : v.loop.stop = true
    · rw [if_pos hstopped, if_pos hstopped]
      exact returns_ok h
    · rw [if_neg hstopped] at hstop ⊢
      rw [if_neg hstopped]
      exact (h.mainRound hfin).bind fun w' hw' => ih hw' hstop

omit [DecidableEq κ] in
/-- The loop is to run. -/
theorem Mirrors.go (h : Mirrors [] w v) : Mirrors [] (aeGo w) v.go :=
  { h with loop := { h.loop with files := h.loop.files.of_timers rfl rfl, stop := rfl } }

omit [DecidableEq κ] in
/-- The state a program runs the loop in. -/
theorem aeStart_mirrors (out : AeOutside) (opened : Nat → Bool) (setsize : Nat)
    (beforesleep aftersleep : Option κ) (setup : Script (AeCall κ δ) Int σ) (client : σ) :
    Returns (aeStart out opened setsize beforesleep aftersleep setup client) fun w =>
      Mirrors [] w (.start out opened setsize beforesleep aftersleep setup client) := by
  have hnew : Implements [] { (aeCreateEventLoop out opened setsize : AeEventLoop κ δ) with
        beforesleep := beforesleep, aftersleep := aftersleep }
      { (AeSpec.new out opened setsize : AeSpec κ δ) with
        beforesleep := beforesleep, aftersleep := aftersleep } :=
    { implements_new out opened setsize with
      files := (filesHeld_new out opened setsize).of_timers rfl rfl
      beforesleep := rfl
      aftersleep := rfl }
  have hworld : Mirrors [] (AeWorld.mk _ client []) (AeSpecWorld.mk _ client []) := ⟨hnew, rfl, rfl⟩
  apply (hworld.run setup).bind
  rintro ⟨client', w⟩ ⟨rfl, hw⟩
  exact returns_ok { hw with client := rfl }

/-- **The event loop refines its description.** Whatever a client sets up and its callbacks do, as long
as no finalizer creates a timer: no number of rounds faults, the client is called in just the same way
and comes to the same state, and array, table of the kernel and list of timers hold what they should.
`aeMain` returns as soon as the loop has been stopped. -/
theorem aeMain_refines (procs : AeProcs κ δ σ) (hfin : procs.FinalizersCreateNothing)
    (out : AeOutside) (opened : Nat → Bool) (setsize : Nat) (beforesleep aftersleep : Option κ)
    (setup : Script (AeCall κ δ) Int σ) (client : σ) :
    Returns (aeStart out opened setsize beforesleep aftersleep setup client) fun w =>
      let v := (AeSpecWorld.start out opened setsize beforesleep aftersleep setup client).go
      ∀ n, Returns (aeMainRounds out procs n (aeGo w)) (Mirrors [] · (v.rounds out procs n)) ∧
        ((v.rounds out procs n).loop.stop = true →
          Returns (aeMain out procs (n + 1) w) (Mirrors [] · (v.rounds out procs n))) := by
  refine (aeStart_mirrors out opened setsize beforesleep aftersleep setup client).imp ?_
  intro w hw v n
  exact ⟨hw.go.rounds hfin n, hw.go.mainLoop hfin⟩

/-- A client with a timer that counts, stops the loop and is not called again. -/
def tickProcs : AeProcs Unit Unit Nat where
  file _ _ _ _ client := .done client
  time _ _ _ client := .step .stop fun _ => .done (-1, client + 1)
  finalizer _ _ client := .done client
  sleep _ client := .done client

/-- Its finalizer does nothing. -/
theorem tickProcs_finalizers : tickProcs.FinalizersCreateNothing := fun _ _ _ => trivial

/-- A clock that goes on by a second at each reading, with nothing ready. -/
def tickOutside : AeOutside where
  clock k := ⟨k, 0⟩
  ready _ := []

/-- The timer is created. -/
def tickSetup : Script (AeCall Unit Unit) Int Nat :=
  .step (.createTimeEvent 5 () () (some ())) fun _ => .done 0

/-- The timer is called in the first round, and `aeMain` returns. -/
theorem aeMain_refines_tick :
    Returns (do
      let w ← aeStart tickOutside (fun _ => false) 2 none none tickSetup 0
      aeMain tickOutside tickProcs 2 w) fun w => w.client = 1 :=
  (aeMain_refines tickProcs tickProcs_finalizers tickOutside (fun _ => false) 2 none none tickSetup
    0).bind fun _ h => ((h 1).2 rfl).imp fun _ hw => hw.client

/-- A client whose timers are not called again, and whose finalizer creates a timer. -/
def lossProcs : AeProcs Unit Unit Unit where
  file _ _ _ _ client := .done client
  time _ _ _ client := .done (-1, client)
  finalizer _ _ client := .step (.createTimeEvent 5 () () none) fun _ => .done client
  sleep _ client := .done client

/-- It has two timers, of which the second has the finalizer. -/
def lossSetup : Script (AeCall Unit Unit) Int Unit :=
  .step (.createTimeEvent 5 () () none) fun _ =>
    .step (.createTimeEvent 5 () () (some ())) fun _ => .done ()

-- Why finalizers must not create timers: the one created here is put in front of the list, and lost
-- when the head of the list is set behind the next timer that has been deleted.
example :
    (match aeStart tickOutside (fun _ => false) 1 none none lossSetup () >>= fun w =>
        aeMainRounds tickOutside lossProcs 2 (aeGo w) with
      | .ok w => w.loop.timeEventHead.isNone && (w.loop.timers 2).isSome
      | .error _ => false) = true := by
  decide +kernel

end Wee
