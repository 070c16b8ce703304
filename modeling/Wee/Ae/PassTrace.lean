import Wee.Ae.LoopTrace

/-! # What a pass over the timers calls

Each pass calls a timer at most once, the newest first and none that is created in it, and it misses no
timer that is due and is not deleted meanwhile. A visit of one timer leaves every other timer that its
callbacks do not delete as it is, which the pass keeps by induction. -/

namespace Wee

variable {κ δ σ : Type}

/-! ### Parts of a trace -/

/-- The timer an entry calls. -/
def AeEntry.calledTimer : AeEntry κ δ → Option Int
  | .timer id _ _ => some id
  | _ => none

/-- The ids of the timers that are called. -/
def timersCalled (part : List (AeEntry κ δ)) : List Int := part.filterMap AeEntry.calledTimer

/-- All entries are calls that a callback makes. -/
def OnlyCalls (part : List (AeEntry κ δ)) : Prop := ∀ e ∈ part, ∃ c r, e = .call c r

/-- No callback deletes the timer `n`. -/
def NotDeleted (n : Nat) (part : List (AeEntry κ δ)) : Prop :=
  ∀ r, AeEntry.call (.deleteTimeEvent n) r ∉ part

/-- A callback calls no timer. -/
theorem OnlyCalls.timersCalled {part : List (AeEntry κ δ)} (h : OnlyCalls part) :
    timersCalled part = [] := by
  refine List.filterMap_eq_nil_iff.mpr fun e he => ?_
  obtain ⟨c, r, rfl⟩ := h e he
  rfl

/-- The timers of two parts. -/
theorem timersCalled_append (a b : List (AeEntry κ δ)) :
    timersCalled (a ++ b) = timersCalled a ++ timersCalled b := List.filterMap_append ..

/-- From `v` to `u` the entries `part` happen. Of the timers that no callback deletes only `n` can be
another one then. -/
structure Passes (n : Nat) (v u : AeSpecWorld κ δ σ) (part : List (AeEntry κ δ)) : Prop where
  /-- What happens. -/
  trace : u.trace = v.trace ++ part
  /-- The clock is not read backwards. -/
  ticks : v.loop.ticks ≤ u.loop.ticks
  /-- The numbers of the timers. -/
  wf : v.loop.TimersWf → u.loop.TimersWf
  /-- The other timers. -/
  keeps : v.loop.TimersWf → ∀ t : AeTimer κ δ, t.number ≠ n → t.deleted = false →
    NotDeleted t.number part → v.timer t.number = some t → u.timer t.number = some t

section
variable {n : Nat} {v u x : AeSpecWorld κ δ σ} {part part' : List (AeEntry κ δ)} {out : AeOutside}
  {procs : AeProcs κ δ σ}

/-- Nothing happens. -/
theorem Passes.refl (n : Nat) (v : AeSpecWorld κ δ σ) : Passes n v v [] :=
  ⟨(List.append_nil _).symm, le_refl _, fun h => h, fun _ _ _ _ _ h => h⟩

/-- One thing after the other. -/
theorem Passes.trans (h : Passes n v u part) (h' : Passes n u x part') :
    Passes n v x (part ++ part') where
  trace := by rw [h'.trace, h.trace, List.append_assoc]
  ticks := h.ticks.trans h'.ticks
  wf hwf := h'.wf (h.wf hwf)
  keeps hwf t hn hlive hdel ht :=
    h'.keeps (h.wf hwf) t hn hlive (fun r hr => hdel r (List.mem_append_right _ hr))
      (h.keeps hwf t hn hlive (fun r hr => hdel r (List.mem_append_left _ hr)) ht)

/-- The clock is not read backwards in a call. -/
theorem AeSpec.call_ticks (a : AeSpec κ δ) (out : AeOutside) (c : AeCall κ δ) :
    a.ticks ≤ (a.call out c).2.ticks := by
  cases c with
  | createTimeEvent milliseconds proc clientData finalizerProc => exact Nat.le_succ _
  | createFileEvent fd mask hmask proc clientData refused =>
    rw [AeSpec.call, AeSpec.createFileEvent]
    split <;> exact le_refl _
  | deleteTimeEvent id =>
    rw [AeSpec.call, AeSpec.deleteTimeEvent]
    split <;> exact le_refl _
  | opens fd =>
    rw [AeSpec.call, AeSpec.opens]
    split <;> exact le_refl _
  | closes fd =>
    rw [AeSpec.call, AeSpec.closes]
    split <;> exact le_refl _
  | deleteFileEvent fd mask => exact le_refl _
  | getFileEvents fd => exact le_refl _
  | stop => exact le_refl _

/-- A call that does not delete a timer leaves it as it is. -/
theorem AeSpec.TimersWf.call_find {a : AeSpec κ δ} (h : a.TimersWf) {t : AeTimer κ δ}
    (hlive : t.deleted = false) (ht : (a.timers.find? fun s => s.number = t.number) = some t)
    {c : AeCall κ δ} (hc : c ≠ .deleteTimeEvent t.number) :
    ((a.call out c).2.timers.find? fun s => s.number = t.number) = some t := by
  cases c with
  | createTimeEvent milliseconds proc clientData finalizerProc =>
    have hlt := h.old t.number (List.mem_map_of_mem (List.mem_of_find?_eq_some ht))
    refine (List.find?_cons_of_neg ?_).trans ht
    rw [decide_eq_true_eq]
    exact hlt.ne'
  | deleteTimeEvent id =>
    rw [AeSpec.call, AeSpec.deleteTimeEvent]
    cases hfind : a.timers.find? fun s => s.id = id with
    | none => exact ht
    | some s =>
      have hs := List.find?_some hfind
      rw [decide_eq_true_eq] at hs
      -- the timer that is deleted is another one
      have hne : t.number ≠ s.number := by
        intro heq
        have hsame := List.inj_on_of_nodup_map h.nodup (List.mem_of_find?_eq_some hfind)
          (List.mem_of_find?_eq_some ht) heq.symm
        rw [hsame, AeTimer.id_eq_iff.mpr ⟨hlive, rfl⟩] at hs
        exact hc (by rw [← hs])
      refine (find?_store _ _ _).trans ?_
      rw [ht, Option.map_some, if_neg hne]
  | createFileEvent fd mask hmask proc clientData refused =>
    rw [AeSpec.call, AeSpec.createFileEvent]
    split <;> exact ht
  | opens fd =>
    rw [AeSpec.call, AeSpec.opens]
    split <;> exact ht
  | closes fd =>
    rw [AeSpec.call, AeSpec.closes]
    split <;> exact ht
  | deleteFileEvent fd mask => exact ht
  | getFileEvents fd => exact ht
  | stop => exact ht

/-- A call. -/
theorem passes_call (n : Nat) (v : AeSpecWorld κ δ σ) (out : AeOutside) (c : AeCall κ δ) :
    Passes n v (v.call out c).2 [.call c (v.loop.call out c).1] where
  trace := rfl
  ticks := v.loop.call_ticks out c
  wf h := h.call c
  keeps h t _ hlive hdel ht := by
    refine h.call_find hlive ht ?_
    rintro rfl
    exact hdel _ (List.mem_singleton_self _)

/-- A script: what holds of its calls, and of one thing after the other. -/
theorem AeSpecWorld.eval_parts {R : AeSpecWorld κ δ σ → AeSpecWorld κ δ σ → List (AeEntry κ δ) → Prop}
    (hrefl : ∀ v, R v v []) (htrans : ∀ {v u x p q}, R v u p → R u x q → R v x (p ++ q))
    (hcall : ∀ v c, R v (v.call out c).2 [.call c (v.loop.call out c).1]) {α : Type}
    (script : Script (AeCall κ δ) Int α) (v : AeSpecWorld κ δ σ) :
    ∃ part, OnlyCalls part ∧ R v (script.eval (AeSpecWorld.call out) v).2 part := by
  have hstep (u : AeSpecWorld κ δ σ) (c : AeCall κ δ) (_ : True)
      (hu : ∃ part, OnlyCalls part ∧ R v u part) :
      ∃ part, OnlyCalls part ∧ R v (u.call out c).2 part := by
    obtain ⟨part, honly, hpart⟩ := hu
    refine ⟨_, fun e he => ?_, htrans hpart (hcall u c)⟩
    rcases List.mem_append.mp he with he | he
    · exact honly e he
    · exact ⟨_, _, List.mem_singleton.mp he⟩
  have hnil : ∃ part, OnlyCalls part ∧ R v v part :=
    ⟨[], fun _ h => absurd h List.not_mem_nil, hrefl v⟩
  exact Script.eval_invariant hstep script.only_true hnil

/-- Something happens. -/
theorem passes_record (n : Nat) (v : AeSpecWorld κ δ σ) (e : AeEntry κ δ) :
    Passes n v (v.record e) [e] := ⟨rfl, le_refl _, fun h => h, fun _ _ _ _ _ h => h⟩

/-- Reading the clock. -/
theorem passes_tick (n : Nat) (v : AeSpecWorld κ δ σ) : Passes n v v.tick [] :=
  ⟨(List.append_nil _).symm, Nat.le_succ _, fun h => ⟨h.ordered, h.old⟩, fun _ _ _ _ _ h => h⟩

/-- The state of the client does not matter. -/
theorem Passes.setClient (h : Passes n v u part) (client : σ) :
    Passes n v { u with client := client } part := ⟨h.trace, h.ticks, h.wf, h.keeps⟩

/-- Taking out a timer. -/
theorem passes_remove (n : Nat) (v : AeSpecWorld κ δ σ) : Passes n v (v.remove n) [] where
  trace := (List.append_nil _).symm
  ticks := le_refl _
  wf h := h.remove n
  keeps _ t hn _ _ ht := by
    refine (find?_filter_number _ _ _).trans ?_
    rw [if_neg hn]
    exact ht

/-- A function of the client. -/
theorem passes_proc (n : Nat) (v : AeSpecWorld κ δ σ) (out : AeOutside) (e : AeEntry κ δ)
    (script : σ → Script (AeCall κ δ) Int σ) :
    ∃ part, OnlyCalls part ∧ Passes n v (v.proc out e script) ([e] ++ part) := by
  obtain ⟨part, honly, hpasses⟩ := AeSpecWorld.eval_parts (Passes.refl n) Passes.trans
    (fun u c => passes_call n u out c) (script v.client) (v.record e)
  exact ⟨part, honly, ((passes_record n v e).trans hpasses).setClient
    ((script v.client).eval (AeSpecWorld.call out) (v.record e)).1⟩

/-- A finalizer. -/
theorem passes_finalize (n : Nat) (v : AeSpecWorld κ δ σ) (out : AeOutside) (procs : AeProcs κ δ σ)
    (t : AeTimer κ δ) :
    ∃ part, timersCalled part = [] ∧ Passes n v (v.finalize out procs t) part := by
  rw [AeSpecWorld.finalize]
  split
  · next p hp =>
    obtain ⟨part, honly, hpasses⟩ := passes_proc n v out (.finalizer t.number p t.clientData)
      (procs.finalizer p t.clientData)
    refine ⟨_, ?_, hpasses⟩
    rw [timersCalled_append, honly.timersCalled]
    rfl
  · exact ⟨[], rfl, .refl n v⟩

/-- A timer that has been changed. -/
theorem passes_store (v : AeSpecWorld κ δ σ) (t : AeTimer κ δ) :
    Passes t.number v { v with loop := v.loop.store t } [] where
  trace := (List.append_nil _).symm
  ticks := le_refl _
  wf h := h.store t
  keeps _ s hn _ _ hs := by
    refine (find?_store _ _ _).trans ?_
    have hfind : (v.loop.timers.find? fun r => r.number = s.number) = some s := hs
    rw [hfind, Option.map_some, if_neg hn]

/-- A timer has returned. -/
theorem passes_settleTimer (n : Nat) (v : AeSpecWorld κ δ σ) (out : AeOutside) (retval : Int) :
    Passes n v (v.settleTimer out n retval) [] := by
  rw [AeSpecWorld.settleTimer]
  cases hfind : v.timer n with
  | none => exact .refl n v
  | some t =>
    have ht := List.find?_some hfind
    rw [decide_eq_true_eq] at ht
    subst ht
    dsimp only
    rw [AeSpecWorld.afterTimer]
    split
    · exact passes_store v { t with deleted := true }
    · exact (passes_tick t.number v).trans (passes_store v.tick
        { t with due := aeAddMillisecondsToNow (out.clock v.loop.ticks) retval })

/-- Calling a timer. -/
theorem passes_callTimer (v : AeSpecWorld κ δ σ) (out : AeOutside) (procs : AeProcs κ δ σ)
    (t : AeTimer κ δ) :
    ∃ part, timersCalled part = [t.id] ∧ Passes t.number v (v.callTimer out procs t) part := by
  obtain ⟨calls, honly, hpasses⟩ := AeSpecWorld.eval_parts (Passes.refl t.number)
    Passes.trans (fun u c => passes_call t.number u out c)
    (procs.time t.timeProc t.id t.clientData v.client)
    (v.record (.timer t.id t.timeProc t.clientData))
  rw [AeSpecWorld.callTimer]
  generalize (procs.time t.timeProc t.id t.clientData v.client).eval (AeSpecWorld.call out)
    (v.record (.timer t.id t.timeProc t.clientData)) = p at hpasses ⊢
  obtain ⟨⟨retval, client⟩, u⟩ := p
  have hcall := ((passes_record t.number v (.timer t.id t.timeProc t.clientData)).trans
    hpasses).setClient client
  have hreturned := (hcall.trans (passes_record t.number _ (.returned t.id retval))).trans
    (passes_settleTimer t.number _ out retval)
  refine ⟨_, ?_, hreturned⟩
  rw [timersCalled_append, timersCalled_append, timersCalled_append, honly.timersCalled]
  rfl

/-- **A visit** of a timer: it is called once if it is there and due. -/
theorem passes_visit (v : AeSpecWorld κ δ σ) (out : AeOutside) (procs : AeProcs κ δ σ)
    (t : AeTimer κ δ) :
    ∃ part, Passes t.number v (v.visit out procs t).2 part ∧
      (timersCalled part = [] ∧ (v.visit out procs t).1 = 0 ∧
          (t.deleted = true ∨ (out.clock v.loop.ticks).Before t.due) ∨
        timersCalled part = [(t.number : Int)] ∧ (v.visit out procs t).1 = 1) := by
  rw [AeSpecWorld.visit]
  cases hdeleted : t.deleted with
  | true =>
    obtain ⟨part, hnone, hpasses⟩ :=
      passes_finalize t.number (v.remove t.number) out procs t
    exact ⟨_, (passes_remove t.number v).trans hpasses, .inl ⟨hnone, rfl, .inl rfl⟩⟩
  | false =>
    rw [if_neg Bool.false_ne_true]
    split
    · next hbefore => exact ⟨_, passes_tick t.number v, .inl ⟨rfl, rfl, .inr hbefore⟩⟩
    · obtain ⟨part, hcalled, hpasses⟩ := passes_callTimer v.tick out procs t
      refine ⟨_, (passes_tick t.number v).trans hpasses, .inr ⟨?_, rfl⟩⟩
      rw [List.nil_append, hcalled, AeTimer.id_eq_iff.mpr ⟨hdeleted, rfl⟩]

/-- A pass that begins with a timer that is there. -/
theorem AeSpecWorld.pass_of_timer {t : AeTimer κ δ} (h : v.timer n = some t) (numbers : List Nat) :
    v.pass out procs (n :: numbers) =
      ((v.visit out procs t).1 + ((v.visit out procs t).2.pass out procs numbers).1,
        ((v.visit out procs t).2.pass out procs numbers).2) := by
  rw [AeSpecWorld.pass, h]

/-- A pass that begins with a timer that is not there. -/
theorem AeSpecWorld.pass_of_not_timer (h : v.timer n = none) (numbers : List Nat) :
    v.pass out procs (n :: numbers) = v.pass out procs numbers := by
  rw [AeSpecWorld.pass, h]

/-- **A pass**: by induction on what is still to be visited. -/
theorem pass_calls (out : AeOutside) (procs : AeProcs κ δ σ) (numbers : List Nat)
    (v : AeSpecWorld κ δ σ) (hwf : v.loop.TimersWf) :
    ∃ part, (v.pass out procs numbers).2.trace = v.trace ++ part ∧
      (timersCalled part).Sublist (numbers.map fun m : Nat => (m : Int)) ∧
      (v.pass out procs numbers).1 = (timersCalled part).length ∧
      ∀ t : AeTimer κ δ, t.number ∈ numbers → t.deleted = false → v.timer t.number = some t →
        NotDeleted t.number part → (∀ k, v.loop.ticks ≤ k → ¬ (out.clock k).Before t.due) →
        (t.number : Int) ∈ timersCalled part := by
  induction numbers generalizing v with
  | nil =>
    exact ⟨[], (List.append_nil _).symm, List.Sublist.refl _, rfl,
      fun _ h => absurd h List.not_mem_nil⟩
  | cons n numbers ih =>
    cases hfind : v.timer n with
    | none =>
      rw [AeSpecWorld.pass_of_not_timer hfind]
      obtain ⟨part, htrace, hsub, hcount, hdue⟩ := ih v hwf
      refine ⟨part, htrace, hsub.cons _, hcount, fun t ht hlive htimer => ?_⟩
      rcases List.mem_cons.mp ht with rfl | ht
      · cases hfind.symm.trans htimer
      · exact hdue t ht hlive htimer
    | some s =>
      have hs := List.find?_some hfind
      rw [decide_eq_true_eq] at hs
      subst hs
      rw [AeSpecWorld.pass_of_timer hfind]
      obtain ⟨part₁, hpasses, hcalled⟩ := passes_visit v out procs s
      obtain ⟨part₂, htrace, hsub, hcount, hdue⟩ := ih (v.visit out procs s).2 (hpasses.wf hwf)
      refine ⟨part₁ ++ part₂, ?_, ?_, ?_, ?_⟩
      · rw [htrace, hpasses.trace, List.append_assoc]
      · rw [timersCalled_append]
        rcases hcalled with ⟨hnone, -, -⟩ | ⟨hone, -⟩
        · rw [hnone]
          exact hsub.cons _
        · rw [hone]
          exact hsub.cons_cons _
      · rw [timersCalled_append, List.length_append, ← hcount]
        rcases hcalled with ⟨hnone, hzero, -⟩ | ⟨hone, hsucc⟩
        · rw [hnone, hzero]
          rfl
        · rw [hone, hsucc]
          rfl
      · intro t ht hlive htimer hdel hclock
        rw [timersCalled_append, List.mem_append]
        by_cases hst : t.number = s.number
        · -- it is visited now
          obtain rfl : s = t := Option.some.inj (hfind.symm.trans (hst ▸ htimer))
          rcases hcalled with ⟨-, -, hdeleted | hbefore⟩ | ⟨hone, -⟩
          · cases hdeleted.symm.trans hlive
          · exact absurd hbefore (hclock _ (le_refl _))
          · rw [hone]
            exact .inl (List.mem_singleton_self _)
        · -- it stays what it is until it is visited
          right
          refine hdue t ((List.mem_cons.mp ht).resolve_left hst) hlive ?_ ?_ ?_
          · exact hpasses.keeps hwf t hst hlive
              (fun r hr => hdel r (List.mem_append_left _ hr)) htimer
          · exact fun r hr => hdel r (List.mem_append_right _ hr)
          · exact fun k hk => hclock k (hpasses.ticks.trans hk)

end

/-! ### Programs -/

section
variable {v : AeSpecWorld κ δ σ} {w : AeWorld κ δ σ} {out : AeOutside} {procs : AeProcs κ δ σ}

/-- A timer at the beginning of a pass. -/
def AeSpecWorld.inPass (out : AeOutside) (v : AeSpecWorld κ δ σ) (t : AeTimer κ δ) : AeTimer κ δ :=
  if (out.clock v.loop.ticks).sec < v.loop.lastTime then t.skewed else t

/-- It has its number, and is deleted or not as before. -/
theorem AeSpecWorld.inPass_number (out : AeOutside) (v : AeSpecWorld κ δ σ) (t : AeTimer κ δ) :
    (v.inPass out t).number = t.number ∧ (v.inPass out t).deleted = t.deleted := by
  rw [AeSpecWorld.inPass]
  split <;> exact ⟨rfl, rfl⟩

/-- The timers at the beginning of a pass. -/
theorem AeSpecWorld.startPass_timers (out : AeOutside) (v : AeSpecWorld κ δ σ) :
    (v.startPass out).loop.timers = v.loop.timers.map (v.inPass out) := by
  rw [AeSpecWorld.startPass, AeSpecWorld.skew]
  by_cases hback : (out.clock v.loop.ticks).sec < v.loop.lastTime
  · have hskewed : v.inPass out = AeTimer.skewed := by
      funext t
      exact if_pos hback
    rw [hskewed, AeSpecWorld.tick, if_pos hback]
    rfl
  · have hsame : v.inPass out = id := by
      funext t
      exact if_neg hback
    rw [hsame, List.map_id, AeSpecWorld.tick, if_neg hback]

/-- Their numbers. -/
theorem AeSpecWorld.startPass_numbers (out : AeOutside) (v : AeSpecWorld κ δ σ) :
    (v.startPass out).loop.numbers = v.loop.numbers := by
  rw [AeSpec.numbers, AeSpecWorld.startPass_timers, List.map_map, AeSpec.numbers]
  apply List.map_congr_left
  intro t _
  exact (v.inPass_number out t).1

/-- The clock has been read once. -/
theorem AeSpecWorld.startPass_ticks (out : AeOutside) (v : AeSpecWorld κ δ σ) :
    (v.startPass out).loop.ticks = v.loop.ticks + 1 := by
  rw [AeSpecWorld.startPass, AeSpecWorld.skew]
  split <;> rfl

/-- When a pass takes a timer to be due: a clock that has gone back makes all of them due. -/
def dueInPass (out : AeOutside) (l : AeEventLoop κ δ) (te : AeTimeEvent κ δ) : AeTime :=
  if (out.clock l.ticks).sec < l.lastTime then { te.when with sec := 0 } else te.when

/-- What a pass over the list of time events calls: each at most once, in the order of the list, and
all that are due and that no callback deletes in the pass. -/
def PassServes (out : AeOutside) (w : AeWorld κ δ σ) (r : Nat × AeWorld κ δ σ) : Prop :=
  ∃ ns part, Path (timerLinks w.loop.timers) w.loop.timeEventHead ns none ∧
    ns.Pairwise (· > ·) ∧
    r.2.trace = w.trace ++ part ∧
    (timersCalled part).Sublist (ns.map fun m : Nat => (m : Int)) ∧
    r.1 = (timersCalled part).length ∧
    ∀ n te, w.loop.timers n = some te → te.id = (n : Int) → NotDeleted n part →
      (∀ k, w.loop.ticks < k → ¬ (out.clock k).Before (dueInPass out w.loop te)) →
      (n : Int) ∈ timersCalled part

/-- **`processTimeEvents`** in a state that is what its trace tells. -/
theorem Mirrors.serves (hfin : procs.FinalizersCreateNothing) (h : Mirrors [] w v)
    (hwf : (v.startPass out).loop.TimersWf) :
    Returns (Wee.processTimeEvents out procs w) (PassServes out w) := by
  refine (h.processTimeEvents hfin).imp fun r hr => ?_
  obtain ⟨hcount, hmirrors⟩ := hr
  obtain ⟨part, htrace, hsub, hlength, hdue⟩ :=
    pass_calls out procs (v.startPass out).loop.numbers (v.startPass out) hwf
  rw [AeSpecWorld.startPass_numbers] at hsub hdue
  refine ⟨v.loop.numbers, part, h.loop.timers.path, h.loop.timers.ordered, ?_, hsub,
    hcount.trans hlength, ?_⟩
  · rw [hmirrors.trace, h.trace]
    exact htrace
  · intro n te hload hid hdel hclock
    obtain ⟨t, ht, rfl, hlive, next, rfl⟩ := h.live_timer hload hid
    obtain ⟨hnumber, hdeleted⟩ := v.inPass_number out t
    have hfind : (v.startPass out).timer (v.inPass out t).number = some (v.inPass out t) :=
      find?_number hwf.nodup (v.startPass_timers out ▸ List.mem_map_of_mem ht)
    have hserved := hdue (v.inPass out t) (hnumber ▸ List.mem_map_of_mem ht)
      (hdeleted.trans hlive) hfind (hnumber ▸ hdel)
    rw [hnumber] at hserved
    refine hserved fun k hk => ?_
    have hwhen : (v.inPass out t).due = dueInPass out w.loop (t.event next) := by
      rw [AeSpecWorld.inPass, dueInPass, h.loop.ticks, h.loop.lastTime]
      split <;> rfl
    rw [hwhen]
    apply hclock
    rw [AeSpecWorld.startPass_ticks] at hk
    rw [h.loop.ticks]
    exact hk

end

/-- **What a round does about the timers.** After any number of rounds of any program, and after the
file events of the next one, `processTimeEvents` calls timers of the list there is then, each at most
once, and misses none that is due throughout the pass and that no callback deletes. It returns the
number of those it has called. -/
theorem processTimeEvents_calls [DecidableEq κ] (procs : AeProcs κ δ σ)
    (hfin : procs.FinalizersCreateNothing) (out : AeOutside) (opened : Nat → Bool) (setsize : Nat)
    (beforesleep aftersleep : Option κ) (setup : Script (AeCall κ δ) Int σ) (client : σ) (n : Nat) :
    Returns (do
      let w ← aeStart out opened setsize beforesleep aftersleep setup client
      let w ← aeMainRounds out procs n (aeGo w)
      let w ← callSleep out procs w w.loop.beforesleep
      let (_, w) ← processFilePart out procs aeMainFlags w
      let r ← processTimeEvents out procs w
      return (w, r)) fun p => PassServes out p.1 p.2 := by
  apply (aeStart_mirrors out opened setsize beforesleep aftersleep setup client).bind
  intro w hw
  apply (hw.go.rounds hfin n).bind
  intro w₁ hw₁
  obtain ⟨fired, hsound⟩ :=
    (sound_start out opened setsize beforesleep aftersleep setup client).go.rounds out procs n
  rw [hw₁.loop.beforesleep]
  apply (hw₁.sleep _).bind
  intro w₂ hw₂
  apply (hw₂.processFilePart aeMainFlags).bind
  rintro ⟨m, w₃⟩ ⟨-, hw₃⟩
  obtain ⟨fired', hfile⟩ := (hsound.sleep _).processFilePart out procs aeMainFlags
  apply (hw₃.serves hfin hfile.startPass.wf).bind
  intro r hr
  exact returns_ok hr

/-- The pass of a program with one timer, in its second round. -/
theorem processTimeEvents_calls_tick :
    Returns (do
      let w ← aeStart tickOutside (fun _ => false) 2 none none tickSetup 0
      let w ← aeMainRounds tickOutside tickProcs 1 (aeGo w)
      let w ← callSleep tickOutside tickProcs w w.loop.beforesleep
      let (_, w) ← processFilePart tickOutside tickProcs aeMainFlags w
      let r ← processTimeEvents tickOutside tickProcs w
      return (w, r)) fun p => PassServes tickOutside p.1 p.2 :=
  processTimeEvents_calls tickProcs tickProcs_finalizers tickOutside (fun _ => false) 2 none none
    tickSetup 0 1

end Wee
