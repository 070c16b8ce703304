import Wee.Ae.LoopRefine

/-! # The pass over the timers

`processTimeEvents` goes through the list with a pointer to the time event before, takes out what has
been deleted, and calls what is due. Callbacks create and delete timers meanwhile: what they create is
in front of what has been passed, so that the rest of the list stays the rest. -/

namespace Wee

variable {κ δ σ : Type} {extra : List Nat} {w : AeWorld κ δ σ} {v : AeSpecWorld κ δ σ}
  {out : AeOutside} {procs : AeProcs κ δ σ}

/-! ### One timer -/

/-- The timer with a number. -/
theorem Mirrors.timer (h : Mirrors extra w v) (number : Nat) (hnumber : number ∈ v.loop.numbers) :
    ∃ t, t ∈ v.loop.timers ∧ t.number = number ∧ v.timer number = some t ∧
      ∃ next, w.loop.timers number = some (t.event next) := by
  obtain ⟨t, ht, rfl⟩ := List.mem_map.mp hnumber
  exact ⟨t, ht, rfl, find?_number h.loop.timers.nodup ht, h.loop.timers.stored t ht⟩

/-- The link of a timer leads to the timer behind it. -/
theorem Mirrors.next_eq (h : Mirrors extra w v) (kept : List Nat) {rest : List Nat} {number : Nat}
    (hnum : v.loop.numbers = kept ++ number :: rest) {te : AeTimeEvent κ δ}
    (hload : w.loop.timers number = some te) : te.next = rest.head? := by
  have hpath := h.loop.timers.path
  rw [← AeSpec.numbers, hnum] at hpath
  obtain ⟨m, -, -, next, hlink, hrest⟩ := path_append_iff.mp hpath
  rw [timerLinks, hload] at hlink
  obtain rfl : te.next = next := Option.some.inj hlink
  exact hrest.head_eq

/-- What is done with what a timer has returned. -/
theorem Mirrors.afterTimer (h : Mirrors extra w v) {t : AeTimer κ δ} {next : Option Nat}
    (hload : w.loop.timers t.number = some (t.event next)) (retval : Int) :
    Mirrors extra { w with loop := Wee.afterTimer out w.loop t.number (t.event next) retval }
      (v.afterTimer out t retval) := by
  rw [Wee.afterTimer, AeSpecWorld.afterTimer]
  split
  · exact { h with loop := h.loop.store { t with deleted := true } hload rfl }
  · have htick := h.loop.tick.store
      { t with due := aeAddMillisecondsToNow (out.clock v.loop.ticks) retval } hload rfl
    rw [← h.loop.clock] at htick ⊢
    exact { h with loop := htick }

/-- A script creates timers at most in front of the others. -/
theorem AeSpecWorld.eval_numbers_suffix {α : Type} (v : AeSpecWorld κ δ σ) (out : AeOutside)
    (x : Script (AeCall κ δ) Int α) (e : AeEntry κ δ) :
    v.loop.numbers <:+ (x.eval (AeSpecWorld.call out) (v.record e)).2.loop.numbers := by
  have hstep (u : AeSpecWorld κ δ σ) (c : AeCall κ δ) (_ : True)
      (hu : v.loop.numbers <:+ u.loop.numbers) : v.loop.numbers <:+ (u.call out c).2.loop.numbers :=
    hu.trans (AeSpec.call_numbers_suffix c)
  exact Script.eval_invariant hstep x.only_true (List.suffix_refl v.loop.numbers)

/-- **Calling a timer**: its callback may have created and deleted timers, also the timer itself. -/
theorem Mirrors.callTimer (h : Mirrors extra w v) {t : AeTimer κ δ} (ht : t ∈ v.loop.timers)
    (next : Option Nat) :
    Returns (callTimer out procs w t.number (t.event next)) fun w' =>
      Mirrors extra w' (v.callTimer out procs t) := by
  rw [Wee.callTimer, AeSpecWorld.callTimer]
  have hrecord := h.record (.timer t.id t.timeProc t.clientData)
  rw [h.client] at hrecord ⊢
  apply (hrecord.run (procs.time t.timeProc t.id t.clientData v.client)).bind
  rintro ⟨⟨retval, client⟩, w'⟩ ⟨heq, hw'⟩
  have hsuffix := v.eval_numbers_suffix out (procs.time t.timeProc t.id t.clientData v.client)
    (.timer t.id t.timeProc t.clientData)
  -- the state the callback leaves
  generalize (procs.time t.timeProc t.id t.clientData v.client).eval (AeSpecWorld.call out)
    (v.record (.timer t.id t.timeProc t.clientData)) = p at heq hw' hsuffix ⊢
  obtain ⟨⟨retval', client'⟩, u⟩ := p
  obtain ⟨rfl, rfl⟩ := Prod.mk.inj heq
  have hreturned : Mirrors extra
      { w' with client := client, trace := w'.trace ++ [.returned t.id retval] }
      (AeSpecWorld.record { u with client := client } (.returned t.id retval)) :=
    ⟨hw'.loop, rfl, congrArg (· ++ [.returned t.id retval]) hw'.trace⟩
  obtain ⟨t', -, hnumber, hfind, next', hload⟩ :=
    hreturned.timer t.number (hsuffix.mem (List.mem_map_of_mem ht))
  have hload' : w'.loop.timers t'.number = some (t'.event next') := hnumber ▸ hload
  dsimp only
  rw [AeSpecWorld.settleTimer, hfind, loadTimer_of_some hload, exec_ok_bind, ← hnumber]
  exact returns_ok (hreturned.afterTimer hload' retval)

/-- A timer that has returned stays in the list. -/
theorem AeSpecWorld.settleTimer_numbers (v : AeSpecWorld κ δ σ) (number : Nat) (retval : Int) :
    (v.settleTimer out number retval).loop.numbers = v.loop.numbers := by
  rw [AeSpecWorld.settleTimer]
  split
  · rw [AeSpecWorld.afterTimer]
    split
    · exact AeSpec.store_numbers _
    · exact AeSpec.store_numbers _
  · rfl

/-- Calling a timer creates timers at most in front of the others. -/
theorem AeSpecWorld.callTimer_numbers_suffix (v : AeSpecWorld κ δ σ) (out : AeOutside)
    (procs : AeProcs κ δ σ) (t : AeTimer κ δ) :
    v.loop.numbers <:+ (v.callTimer out procs t).loop.numbers := by
  refine (v.eval_numbers_suffix out (procs.time t.timeProc t.id t.clientData v.client)
    (.timer t.id t.timeProc t.clientData)).trans ?_
  rw [AeSpecWorld.callTimer]
  split
  next retval client u heq =>
  rw [heq, AeSpecWorld.settleTimer_numbers]
  exact List.suffix_refl u.loop.numbers

/-! ### The pass -/

/-- The finalizer of a time event. -/
theorem Mirrors.finalize (h : Mirrors extra w v) (t : AeTimer κ δ) (next : Option Nat) :
    Returns (callFinalizer out procs w t.number (t.event next)) fun w' =>
      Mirrors extra w' (v.finalize out procs t) := by
  rw [callFinalizer, AeTimer.event, AeSpecWorld.finalize]
  cases t.finalizerProc with
  | none => exact returns_ok h
  | some f => exact h.proc _ _

/-- A finalizer leaves the numbers as they are. -/
theorem AeSpecWorld.finalize_numbers (hfin : procs.FinalizersCreateNothing) (out : AeOutside)
    (t : AeTimer κ δ) :
    (v.finalize out procs t).loop.numbers = v.loop.numbers := by
  rw [AeSpecWorld.finalize]
  split
  · exact AeSpecWorld.proc_loop (I := fun a => a.numbers = v.loop.numbers)
      (fun a c hc ha => (AeSpec.call_numbers hc).trans ha) (hfin _ _ _) rfl _
  · rfl

/-- A time event that is out of the list is freed. -/
theorem Mirrors.free {p : Nat} (h : Mirrors [p] w v) (hp : p ∉ v.loop.numbers) :
    Mirrors [] { w with loop := freeTimer w.loop p } v :=
  { h with loop := { h.loop with
      files := h.loop.files.of_timers rfl rfl
      timers := h.loop.timers.free hp } }

/-- **Taking out** a timer that has been deleted: it is unlinked, finalized and freed. -/
theorem Mirrors.takeOut (h : Mirrors [] w v) (hfin : procs.FinalizersCreateNothing)
    {kept rest : List Nat} {t : AeTimer κ δ}
    (hnum : v.loop.numbers = kept ++ t.number :: rest) :
    Returns (do
      let l ← unlinkTimer w.loop kept.getLast? rest.head?
      callFinalizer out procs { w with loop := l } t.number (t.event rest.head?)) fun w' =>
        Mirrors [] { w' with loop := freeTimer w'.loop t.number }
            ((v.remove t.number).finalize out procs t) ∧
          ((v.remove t.number).finalize out procs t).loop.numbers = kept ++ rest := by
  have hnum' : (v.remove t.number).loop.numbers = kept ++ rest :=
    map_number_filter h.loop.timers.nodup hnum
  apply (unlinkTimer_returns h.loop.timers hnum).bind
  rintro _ ⟨timers, head, rfl, htimers⟩
  have hunlinked : Mirrors [t.number]
      { w with loop := { w.loop with timers := timers, timeEventHead := head } }
      (v.remove t.number) :=
    { h with loop := { h.loop with files := h.loop.files.of_timers rfl rfl, timers := htimers } }
  refine (hunlinked.finalize t rest.head?).imp fun w' hw' => ?_
  have hnumbers := (AeSpecWorld.finalize_numbers hfin out t).trans hnum'
  refine ⟨hw'.free ?_, hnumbers⟩
  rw [hnumbers]
  have hnodup : (kept ++ t.number :: rest).Nodup := hnum ▸ h.loop.timers.nodup
  exact (List.nodup_cons.mp (List.nodup_middle.mp hnodup)).1

/-- **The pass**: `kept` has been passed, with the last of it before the pointer, and `rest` is still
to be looked at. -/
theorem Mirrors.timeEventsLoop (hfin : procs.FinalizersCreateNothing) {maxId : Int} {fuel : Nat}
    {kept rest : List Nat} (h : Mirrors [] w v) (hnum : v.loop.numbers = kept ++ rest)
    (hmax : ∀ n ∈ rest, (n : Int) ≤ maxId) (hfuel : rest.length < fuel) :
    Returns (timeEventsLoop out procs maxId fuel kept.getLast? rest.head? w) fun r =>
      r.1 = (v.pass out procs rest).1 ∧ Mirrors [] r.2 (v.pass out procs rest).2 := by
  induction fuel generalizing kept rest w v with
  | zero => exact absurd hfuel (Nat.not_lt_zero _)
  | succ fuel ih =>
    cases rest with
    | nil => exact returns_ok ⟨rfl, h⟩
    | cons number rest =>
      have hfuel' : rest.length < fuel := Nat.lt_of_succ_lt_succ hfuel
      have hmax' : ∀ n ∈ rest, (n : Int) ≤ maxId := fun n hn => hmax n (List.mem_cons_of_mem _ hn)
      obtain ⟨t, ht, rfl, hfind, next, hload⟩ :=
        h.timer number (by rw [hnum]; simp)
      obtain rfl : next = rest.head? := h.next_eq kept hnum hload
      have hkept : v.loop.numbers = (kept ++ [t.number]) ++ rest := by
        rw [hnum, List.append_assoc]
        rfl
      rw [List.head?_cons, Wee.timeEventsLoop, loadTimer_of_some hload, exec_ok_bind,
        AeSpecWorld.pass, hfind]
      simp only [AeSpecWorld.visit]
      have hid : (t.event rest.head?).id = t.id := rfl
      cases hdeleted : t.deleted with
      | true =>
        -- it is taken out, and the pointer to the time event before stays
        rw [hid, if_pos (by rw [AeTimer.id, hdeleted]; rfl), ← bind_assoc]
        apply (h.takeOut hfin hnum).bind
        rintro w' ⟨hw', hnum'⟩
        refine (ih hw' hnum' hmax' hfuel').imp ?_
        rintro r ⟨hr, hmirrors⟩
        exact ⟨hr.trans (Nat.zero_add _).symm, hmirrors⟩
      | false =>
        have hnumber : t.id = t.number := by rw [AeTimer.id, hdeleted]; rfl
        have hwhen : (t.event rest.head?).when = t.due := rfl
        have hlast : (kept ++ [t.number]).getLast? = some t.number := List.getLast?_concat
        rw [hid, hnumber, if_neg (by omega), if_neg (not_lt.mpr (hmax t.number List.mem_cons_self))]
        simp only [aeGetTime, h.loop.ticks, hwhen, Bool.false_eq_true, if_false]
        have htick : Mirrors [] { w with loop := { w.loop with ticks := v.loop.ticks + 1 } } v.tick :=
          h.loop.ticks ▸ h.tick
        split
        · -- it is not due
          have hnum' : v.tick.loop.numbers = (kept ++ [t.number]) ++ rest := hkept
          have hwait := ih htick hnum' hmax' hfuel'
          rw [hlast] at hwait
          refine hwait.imp ?_
          rintro r ⟨hr, hmirrors⟩
          exact ⟨hr.trans (Nat.zero_add _).symm, hmirrors⟩
        · apply (htick.callTimer ht rest.head?).bind
          intro w' hw'
          -- what it has created is in front of what has been passed
          obtain ⟨created, hcreated⟩ := v.tick.callTimer_numbers_suffix out procs t
          have hnum' : (v.tick.callTimer out procs t).loop.numbers =
              ((created ++ kept) ++ [t.number]) ++ rest := by
            have hnumbers : v.tick.loop.numbers = (kept ++ [t.number]) ++ rest := hkept
            rw [← hcreated, hnumbers]
            simp only [List.append_assoc]
          obtain ⟨t', -, -, -, next', hload'⟩ := hw'.timer t.number (by rw [hnum']; simp)
          have hnext : (t'.event next').next = rest.head? :=
            hw'.next_eq (created ++ kept) (by rw [hnum', List.append_assoc]; rfl) hload'
          have hcall := ih hw' hnum' hmax' hfuel'
          rw [List.getLast?_concat] at hcall
          rw [loadTimer_of_some hload', exec_ok_bind, hnext]
          apply hcall.bind
          rintro ⟨n, w''⟩ ⟨rfl, hmirrors⟩
          exact returns_ok ⟨Nat.add_comm _ _, hmirrors⟩

/-- **Making every timer due** when the clock has gone back. -/
theorem Implements.skew {l : AeEventLoop κ δ} {a : AeSpec κ δ} (h : Implements [] l a)
    (now : AeTime) :
    Returns (skewTimers l now) fun l' => Implements [] l' (AeSpecWorld.skew a now) := by
  rw [skewTimers, AeSpecWorld.skew, h.lastTime]
  split
  · refine (skewLoop_returns h.timers.timersFrom h.timers.nodup
      (Nat.lt_succ_of_le h.timers.length_le)).imp ?_
    rintro _ ⟨timers, rfl, hframe, hskewed⟩
    exact { h with
      files := h.files.of_timers rfl rfl
      timers := h.timers.skew hframe hskewed }
  · exact returns_ok h

/-- **`processTimeEvents`** passes over the timers there are. -/
theorem Mirrors.processTimeEvents (hfin : procs.FinalizersCreateNothing) (h : Mirrors [] w v) :
    Returns (processTimeEvents out procs w) fun r =>
      r.1 = (v.processTimeEvents out procs).1 ∧
        Mirrors [] r.2 (v.processTimeEvents out procs).2 := by
  rw [Wee.processTimeEvents, AeSpecWorld.processTimeEvents]
  simp only [aeGetTime, h.loop.ticks]
  have htick : Mirrors [] { w with loop := { w.loop with ticks := v.loop.ticks + 1 } } v.tick :=
    h.loop.ticks ▸ h.tick
  apply (htick.loop.skew (out.clock v.loop.ticks)).bind
  intro l hl
  have hstart : Mirrors [] { w with loop := { l with lastTime := (out.clock v.loop.ticks).sec } }
      (v.startPass out) :=
    { h with loop := { hl with files := hl.files.of_timers rfl rfl, lastTime := rfl } }
  have hmax (n : Nat) (hn : n ∈ (v.startPass out).loop.numbers) : (n : Int) ≤ l.timeEventNextId - 1 := by
    have := hl.timers.lt_fresh hn
    rw [hl.fresh] at this
    rw [hl.nextId]
    omega
  have hfuel : (v.startPass out).loop.numbers.length < l.fresh + 1 := by
    rw [AeSpec.numbers, List.length_map]
    exact Nat.lt_succ_of_le hl.timers.length_le
  -- nothing has been passed
  have hpass (o : Option Nat) (ho : o = (v.startPass out).loop.numbers.head?) :
      Returns (Wee.timeEventsLoop out procs (l.timeEventNextId - 1) (l.fresh + 1) none o _) _ :=
    ho ▸ hstart.timeEventsLoop hfin (List.nil_append _).symm hmax hfuel
  exact hpass l.timeEventHead hl.timers.path.head_eq

end Wee
