import Wee.Ae.FileEvents
import Wee.Ae.TimeEvents

/-! # The event loop does what it is for

Each function of the loop against its counterpart in the terms of `AeSpec`: calls, callbacks (which
make any calls they like), the file events of a round, and the pass over the list of timers with its
pointer to the time event before. Finalizers may do anything but create timers. -/

namespace Wee

variable {κ δ σ : Type}

/-! ### Calls -/

/-- The loop holds what `a` says; the time events `extra` are out of the list but not freed. -/
structure Implements (extra : List Nat) (l : AeEventLoop κ δ) (a : AeSpec κ δ) : Prop where
  /-- The registered events. -/
  files : FilesHeld l a
  /-- The timers. -/
  timers : TimersHeld extra l.timers l.timeEventHead l.fresh a.timers
  /-- The next address. -/
  fresh : l.fresh = a.created
  /-- The next id. -/
  nextId : l.timeEventNextId = a.created
  /-- The time of the last pass. -/
  lastTime : l.lastTime = a.lastTime
  /-- The loop is to end. -/
  stop : l.stop = a.stop
  /-- What is called before each round. -/
  beforesleep : l.beforesleep = a.beforesleep
  /-- What is called after waiting. -/
  aftersleep : l.aftersleep = a.aftersleep
  /-- Readings of the clock. -/
  ticks : l.ticks = a.ticks
  /-- Calls of `epoll_wait`. -/
  polls : l.polls = a.polls

/-- A new loop. -/
theorem implements_new (out : AeOutside) (opened : Nat → Bool) (setsize : Nat) :
    Implements [] (aeCreateEventLoop out opened setsize : AeEventLoop κ δ)
      (.new out opened setsize) where
  files := filesHeld_new out opened setsize
  timers := timersHeld_nil
  fresh := rfl
  nextId := rfl
  lastTime := rfl
  stop := rfl
  beforesleep := rfl
  aftersleep := rfl
  ticks := rfl
  polls := rfl

section
variable {extra : List Nat} {l : AeEventLoop κ δ} {a : AeSpec κ δ} {out : AeOutside}

/-- What the registered events do not touch. -/
theorem FilesHeld.of_timers (h : FilesHeld l a) {l' : AeEventLoop κ δ} {a' : AeSpec κ δ}
    (hl : l' = { l with timeEventNextId := l'.timeEventNextId, lastTime := l'.lastTime,
                        timeEventHead := l'.timeEventHead, stop := l'.stop, timers := l'.timers,
                        fresh := l'.fresh, ticks := l'.ticks, polls := l'.polls,
                        beforesleep := l'.beforesleep, aftersleep := l'.aftersleep })
    (ha : a' = { a with timers := a'.timers, created := a'.created, lastTime := a'.lastTime,
                        stop := a'.stop, ticks := a'.ticks, polls := a'.polls,
                        beforesleep := a'.beforesleep, aftersleep := a'.aftersleep }) :
    FilesHeld l' a' := by
  rw [hl, ha]
  exact ⟨⟨h.wf.usable, h.wf.watched, h.wf.outside⟩, h.setsize, h.length, h.file, h.epoll, h.maxfd⟩

/-- Reading the clock. -/
theorem Implements.tick (h : Implements extra l a) :
    Implements extra { l with ticks := l.ticks + 1 } { a with ticks := a.ticks + 1 } :=
  { h with
    files := h.files.of_timers rfl rfl
    ticks := congrArg (· + 1) h.ticks }

/-- The clock shows the same. -/
theorem Implements.clock (h : Implements extra l a) : out.clock l.ticks = out.clock a.ticks := by
  rw [h.ticks]

/-- A registration or a descriptor has changed. -/
theorem Implements.of_files (h : Implements extra l a) {a' : AeSpec κ δ}
    (events : List (AeFileEvent κ δ)) (epoll : Epoll) (maxfd : Int)
    (hfiles : FilesHeld { l with events := events, epoll := epoll, maxfd := maxfd } a')
    (ha : a' = { a with file := a'.file, opened := a'.opened, watched := a'.watched }) :
    Implements extra { l with events := events, epoll := epoll, maxfd := maxfd } a' := by
  rw [ha] at hfiles ⊢
  exact { h with files := hfiles }

/-- A new timer. -/
theorem Implements.createTimeEvent (h : Implements extra l a) (milliseconds : Int) (proc : κ)
    (clientData : δ) (finalizerProc : Option κ) :
    (aeCreateTimeEvent out l milliseconds proc clientData finalizerProc).1 =
        (a.createTimeEvent out milliseconds proc clientData finalizerProc).1 ∧
      Implements extra (aeCreateTimeEvent out l milliseconds proc clientData finalizerProc).2
        (a.createTimeEvent out milliseconds proc clientData finalizerProc).2 := by
  refine ⟨h.nextId, ?_⟩
  rw [aeCreateTimeEvent, AeSpec.createTimeEvent]
  dsimp only [aeGetTime, storeTimer]
  refine { h with
    files := h.files.of_timers rfl rfl
    timers := ?_
    fresh := congrArg (· + 1) h.fresh
    nextId := by rw [h.nextId]; rfl
    ticks := congrArg (· + 1) h.ticks }
  have hnext := h.timers.cons (t := {
    number := a.created, deleted := false,
    due := aeAddMillisecondsToNow (out.clock a.ticks) milliseconds, timeProc := proc,
    finalizerProc := finalizerProc, clientData := clientData }) h.fresh.symm
  rw [AeTimer.event] at hnext
  rw [h.clock, h.nextId]
  exact hnext

/-- A timer that is changed. -/
theorem Implements.store (h : Implements extra l a) {t : AeTimer κ δ} (t' : AeTimer κ δ)
    {next : Option Nat} (hload : l.timers t.number = some (t.event next)) (hnumber : t'.number = t.number) :
    Implements extra (storeTimer l t.number (t'.event next)) (a.store t') :=
  { h with
    files := h.files.of_timers rfl rfl
    timers := h.timers.store hload hnumber }

/-- Deleting a timer. -/
theorem Implements.deleteTimeEvent (h : Implements extra l a) (id : Int) :
    Returns (aeDeleteTimeEvent l id) fun p =>
      p.1 = (a.deleteTimeEvent id).1 ∧ Implements extra p.2 (a.deleteTimeEvent id).2 := by
  rw [aeDeleteTimeEvent, AeSpec.deleteTimeEvent]
  refine (deleteTimeEventLoop_returns h.timers.timersFrom id
    (Nat.lt_succ_of_le h.timers.length_le)).imp fun p hp => ?_
  cases hfind : a.timers.find? fun t => t.id = id with
  | none =>
    rw [hfind] at hp
    rw [hp]
    exact ⟨rfl, h⟩
  | some t =>
    rw [hfind] at hp
    obtain ⟨next, hload, rfl⟩ := hp
    exact ⟨rfl, h.store _ hload rfl⟩

/-- **Every call** does what it is for. -/
theorem Implements.call (h : Implements extra l a) (c : AeCall κ δ) :
    Returns (aeCall out l c) fun p =>
      p.1 = (a.call out c).1 ∧ Implements extra p.2 (a.call out c).2 := by
  cases c with
  | createFileEvent fd mask hmask proc clientData refused =>
    refine (aeCreateFileEvent_filesHeld h.files hmask refused).imp ?_
    rintro ⟨r, _⟩ ⟨hr, hfiles, events, epoll, maxfd, rfl⟩
    refine ⟨hr, h.of_files events epoll maxfd hfiles ?_⟩
    rw [AeSpec.call, AeSpec.createFileEvent]
    split <;> rfl
  | deleteFileEvent fd mask =>
    apply (aeDeleteFileEvent_filesHeld h.files).bind
    rintro _ ⟨hfiles, events, epoll, maxfd, rfl⟩
    exact returns_ok ⟨rfl, h.of_files events epoll maxfd hfiles rfl⟩
  | getFileEvents fd =>
    simp only [aeCall, aeGetFileEvents, AeSpec.call]
    by_cases hfd : l.setsize ≤ fd
    · rw [if_pos hfd, exec_ok_bind, h.files.wf.outside fd (h.files.setsize ▸ hfd)]
      exact returns_ok ⟨rfl, h⟩
    · rw [if_neg hfd, h.files.load (not_le.mp hfd)]
      exact returns_ok ⟨rfl, h⟩
  | createTimeEvent milliseconds proc clientData finalizerProc =>
    exact returns_ok (h.createTimeEvent milliseconds proc clientData finalizerProc)
  | deleteTimeEvent id => exact h.deleteTimeEvent id
  | stop => exact returns_ok ⟨rfl, { h with files := h.files.of_timers rfl rfl, stop := rfl }⟩
  | opens fd =>
    obtain ⟨hr, hfiles, epoll, heq⟩ := openDescriptor_filesHeld h.files fd
    refine returns_ok ⟨hr, ?_⟩
    rw [heq] at hfiles ⊢
    refine h.of_files l.events epoll l.maxfd hfiles ?_
    rw [AeSpec.call, AeSpec.opens]
    split <;> rfl
  | closes fd =>
    obtain ⟨hr, hfiles, epoll, heq⟩ := closeDescriptor_filesHeld h.files fd
    refine returns_ok ⟨hr, ?_⟩
    rw [heq] at hfiles ⊢
    refine h.of_files l.events epoll l.maxfd hfiles ?_
    rw [AeSpec.call, AeSpec.closes]
    split <;> rfl

end

/-! ### What calls keep -/

section
variable {out : AeOutside} {a : AeSpec κ δ}

/-- No call changes the number of descriptors. -/
theorem AeSpec.call_setsize (c : AeCall κ δ) : (a.call out c).2.setsize = a.setsize := by
  cases c with
  | createFileEvent fd mask hmask proc clientData refused =>
    rw [AeSpec.call, AeSpec.createFileEvent]
    split <;> rfl
  | deleteTimeEvent id =>
    rw [AeSpec.call, AeSpec.deleteTimeEvent]
    split <;> rfl
  | opens fd =>
    rw [AeSpec.call, AeSpec.opens]
    split <;> rfl
  | closes fd =>
    rw [AeSpec.call, AeSpec.closes]
    split <;> rfl
  | deleteFileEvent fd mask => rfl
  | getFileEvents fd => rfl
  | createTimeEvent milliseconds proc clientData finalizerProc => rfl
  | stop => rfl

/-- A timer that is changed keeps its number. -/
theorem AeSpec.store_numbers (t : AeTimer κ δ) : (a.store t).numbers = a.numbers :=
  map_number_store a.timers t

/-- A call that creates no timer leaves the numbers as they are. -/
theorem AeSpec.call_numbers {c : AeCall κ δ} (hc : c.CreatesNoTimer) :
    (a.call out c).2.numbers = a.numbers := by
  cases c with
  | createTimeEvent milliseconds proc clientData finalizerProc => exact hc.elim
  | createFileEvent fd mask hmask proc clientData refused =>
    rw [AeSpec.call, AeSpec.createFileEvent]
    split <;> rfl
  | deleteTimeEvent id =>
    rw [AeSpec.call, AeSpec.deleteTimeEvent]
    split
    · rfl
    · exact AeSpec.store_numbers _
  | opens fd =>
    rw [AeSpec.call, AeSpec.opens]
    split <;> rfl
  | closes fd =>
    rw [AeSpec.call, AeSpec.closes]
    split <;> rfl
  | deleteFileEvent fd mask => rfl
  | getFileEvents fd => rfl
  | stop => rfl

/-- A call creates timers at most in front of the others. -/
theorem AeSpec.call_numbers_suffix (c : AeCall κ δ) : a.numbers <:+ (a.call out c).2.numbers := by
  by_cases hc : c.CreatesNoTimer
  · exact ⟨[], (AeSpec.call_numbers hc).symm⟩
  · cases c with
    | createTimeEvent milliseconds proc clientData finalizerProc => exact List.suffix_cons ..
    | createFileEvent fd mask hmask proc clientData refused => exact absurd trivial hc
    | deleteFileEvent fd mask => exact absurd trivial hc
    | getFileEvents fd => exact absurd trivial hc
    | deleteTimeEvent id => exact absurd trivial hc
    | stop => exact absurd trivial hc
    | opens fd => exact absurd trivial hc
    | closes fd => exact absurd trivial hc

/-- **What calls keep a function of the client keeps.** -/
theorem AeSpecWorld.proc_loop {I : AeSpec κ δ → Prop} {P : AeCall κ δ → Prop}
    (hcall : ∀ a c, P c → I a → I (a.call out c).2) {v : AeSpecWorld κ δ σ}
    {script : σ → Script (AeCall κ δ) Int σ} (hscript : (script v.client).Only P) (h : I v.loop)
    (e : AeEntry κ δ) : I (v.proc out e script).loop := by
  have hstep (v : AeSpecWorld κ δ σ) (c : AeCall κ δ) (hc : P c) (hv : I v.loop) :
      I (v.call out c).2.loop := hcall v.loop c hc hv
  exact Script.eval_invariant hstep hscript (s := v.record e) h

/-- A function of the client keeps what any call keeps. -/
theorem AeSpecWorld.proc_loop_of_call {I : AeSpec κ δ → Prop}
    (hcall : ∀ a c, I a → I (a.call out c).2) {v : AeSpecWorld κ δ σ} (h : I v.loop)
    (e : AeEntry κ δ) (script : σ → Script (AeCall κ δ) Int σ) : I (v.proc out e script).loop :=
  AeSpecWorld.proc_loop (fun a c _ => hcall a c) (script v.client).only_true h e

/-- The number of descriptors stays. -/
theorem AeSpecWorld.proc_setsize (v : AeSpecWorld κ δ σ) (e : AeEntry κ δ)
    (script : σ → Script (AeCall κ δ) Int σ) :
    (v.proc out e script).loop.setsize = v.loop.setsize :=
  AeSpecWorld.proc_loop_of_call (I := fun a => a.setsize = v.loop.setsize)
    (fun _ c ha => (AeSpec.call_setsize c).trans ha) rfl e script

end

/-! ### Worlds -/

/-- The loop does what the other one does: the client is in the same state, and has been called in the
same way. -/
structure Mirrors (extra : List Nat) (w : AeWorld κ δ σ) (v : AeSpecWorld κ δ σ) : Prop where
  /-- The loop. -/
  loop : Implements extra w.loop v.loop
  /-- The client. -/
  client : w.client = v.client
  /-- What has happened. -/
  trace : w.trace = v.trace

section
variable {extra : List Nat} {w : AeWorld κ δ σ} {v : AeSpecWorld κ δ σ} {out : AeOutside}
  {procs : AeProcs κ δ σ}

/-- Something has happened. -/
theorem Mirrors.record (h : Mirrors extra w v) (e : AeEntry κ δ) :
    Mirrors extra { w with trace := w.trace ++ [e] } (v.record e) :=
  { h with trace := congrArg (· ++ [e]) h.trace }

/-- Reading the clock. -/
theorem Mirrors.tick (h : Mirrors extra w v) :
    Mirrors extra { w with loop := { w.loop with ticks := w.loop.ticks + 1 } } v.tick :=
  { h with loop := h.loop.tick }

/-- A call, as it is recorded. -/
theorem Mirrors.call (h : Mirrors extra w v) (c : AeCall κ δ) :
    Returns (worldCall out w c) fun p => p.1 = (v.call out c).1 ∧ Mirrors extra p.2 (v.call out c).2 := by
  rw [worldCall]
  apply (h.loop.call c).bind
  rintro ⟨r, l⟩ ⟨rfl, hl⟩
  exact returns_ok ⟨rfl, hl, h.client, by rw [h.trace]; rfl⟩

/-- A script makes the same calls, and returns the same. -/
theorem Mirrors.run {α : Type} (h : Mirrors extra w v) (x : Script (AeCall κ δ) Int α) :
    Returns (x.run (worldCall out) w) fun p =>
      p.1 = (x.eval (AeSpecWorld.call out) v).1 ∧
        Mirrors extra p.2 (x.eval (AeSpecWorld.call out) v).2 := by
  have hcall (w : AeWorld κ δ σ) (v : AeSpecWorld κ δ σ) (c : AeCall κ δ) (h : Mirrors extra w v) :=
    @Mirrors.call κ δ σ extra w v out h c
  exact Script.run_simulates hcall x h

/-- **A function of the client** makes the same calls. -/
theorem Mirrors.proc (h : Mirrors extra w v) (e : AeEntry κ δ)
    (script : σ → Script (AeCall κ δ) Int σ) :
    Returns (callProc out w e script) fun w' => Mirrors extra w' (v.proc out e script) := by
  rw [callProc, h.client]
  apply ((h.client ▸ h.record e).run (script v.client)).bind
  rintro ⟨client, w'⟩ ⟨rfl, hw'⟩
  exact returns_ok { hw' with client := rfl }

/-- `beforesleep` and `aftersleep`. -/
theorem Mirrors.sleep (h : Mirrors extra w v) (proc : Option κ) :
    Returns (callSleep out procs w proc) fun w' => Mirrors extra w' (v.sleep out procs proc) := by
  cases proc with
  | none => exact returns_ok h
  | some proc => exact h.proc (.sleep proc) (procs.sleep proc)

/-! ### File events -/

/-- Serving a descriptor that is readable. -/
theorem Mirrors.serveReadable (h : Mirrors extra w v) {fd : Nat} (hfd : fd < v.loop.setsize)
    (mask : AeMask) :
    Returns (serveReadable out procs w fd mask) fun p =>
      p.1 = (v.reader fd mask).isSome ∧ Mirrors extra p.2 (v.serveReadable out procs fd mask) := by
  rw [Wee.serveReadable, h.loop.files.load (h.loop.files.setsize ▸ hfd), exec_ok_bind,
    AeSpecWorld.serveReadable, AeSpecWorld.reader]
  split
  · next hmask =>
    have husable := h.loop.files.wf.usable fd
    have hreadable := (Bool.and_eq_true_iff.mp hmask).1
    obtain ⟨p, hp⟩ := Option.isSome_iff_exists.mp (husable.reader hreadable)
    obtain ⟨d, hd⟩ := Option.isSome_iff_exists.mp
      (husable.data fun hnone => by rw [hnone] at hreadable; exact nomatch hreadable)
    simp only [callReadable, hp, hd, loadPointer, exec_ok_bind, Option.bind_some, Option.map_some,
      Option.isSome_some]
    exact (h.proc _ _).bind fun w' hw' => returns_ok ⟨rfl, hw'⟩
  · exact returns_ok ⟨rfl, h⟩

/-- Serving a descriptor that is writable. -/
theorem Mirrors.serveWritable [DecidableEq κ] (h : Mirrors extra w v) {fd : Nat}
    (hfd : fd < v.loop.setsize) (mask : AeMask) (rfired : Bool) :
    Returns (serveWritable out procs w fd mask rfired) fun w' =>
      Mirrors extra w' (v.serveWritable out procs fd mask rfired) := by
  rw [Wee.serveWritable, h.loop.files.load (h.loop.files.setsize ▸ hfd), exec_ok_bind,
    AeSpecWorld.serveWritable, AeSpecWorld.writer]
  split
  · next hmask =>
    have husable := h.loop.files.wf.usable fd
    have hwritable := (Bool.and_eq_true_iff.mp (Bool.and_eq_true_iff.mp hmask).1).1
    obtain ⟨p, hp⟩ := Option.isSome_iff_exists.mp (husable.writer hwritable)
    obtain ⟨d, hd⟩ := Option.isSome_iff_exists.mp
      (husable.data fun hnone => by rw [hnone] at hwritable; exact nomatch hwritable)
    simp only [callWritable, hp, hd, loadPointer, exec_ok_bind, Option.bind_some, Option.map_some]
    exact h.proc _ _
  · exact returns_ok h

/-- Serving keeps the number of descriptors. -/
theorem AeSpecWorld.serve_setsize [DecidableEq κ] (v : AeSpecWorld κ δ σ) (e : Nat × AeMask) :
    (v.serve out procs e).loop.setsize = v.loop.setsize := by
  have hreadable : (v.serveReadable out procs e.1 e.2).loop.setsize = v.loop.setsize := by
    rw [AeSpecWorld.serveReadable]
    split
    · exact v.proc_setsize _ _
    · rfl
  rw [← hreadable, AeSpecWorld.serve, AeSpecWorld.serveWritable]
  split
  · exact AeSpecWorld.proc_setsize _ _ _
  · rfl

/-- **Serving what has fired.** -/
theorem Mirrors.serveFired [DecidableEq κ] {fired : List (Nat × AeMask)} (h : Mirrors extra w v)
    (hfired : ∀ e ∈ fired, e.1 < v.loop.setsize) :
    Returns (serveFired out procs fired w) fun w' =>
      Mirrors extra w' (v.serveFired out procs fired) := by
  induction fired generalizing w v with
  | nil => exact returns_ok h
  | cons e fired ih =>
    obtain ⟨fd, mask⟩ := e
    have hfd := hfired (fd, mask) List.mem_cons_self
    rw [Wee.serveFired]
    apply (h.serveReadable hfd mask).bind
    rintro ⟨rfired, w'⟩ ⟨rfl, hw'⟩
    have hfd' : fd < (v.serveReadable out procs fd mask).loop.setsize := by
      rw [AeSpecWorld.serveReadable]
      split
      · rwa [v.proc_setsize]
      · exact hfd
    apply (hw'.serveWritable hfd' mask _).bind
    intro w'' hw''
    refine ih hw'' fun e he => ?_
    rw [v.serve_setsize]
    exact hfired e (List.mem_cons_of_mem _ he)

/-! ### Waiting -/

/-- `beforesleep` and `aftersleep` keep the number of descriptors. -/
theorem AeSpecWorld.sleep_setsize (v : AeSpecWorld κ δ σ) (proc : Option κ) :
    (v.sleep out procs proc).loop.setsize = v.loop.setsize := by
  cases proc with
  | none => rfl
  | some proc => exact v.proc_setsize _ _

/-- How long is waited. -/
theorem Mirrors.wait (h : Mirrors extra w v) (flags : AeFlags) :
    Returns (waitTime out flags w) fun p =>
      p.1 = (v.wait out flags).1 ∧ Mirrors extra p.2 (v.wait out flags).2 := by
  have hshortest : Returns (shortestTimer flags w.loop) fun r =>
      r.map AeTimeEvent.when = (v.awaited flags).map AeTimer.due := by
    rw [shortestTimer, AeSpecWorld.awaited]
    split
    · exact searchNearestLoop_returns h.loop.timers.timersFrom rfl
        (Nat.lt_succ_of_le h.loop.timers.length_le)
    · exact returns_ok rfl
  rw [waitTime, AeSpecWorld.wait]
  apply hshortest.bind
  intro shortest heq
  cases shortest with
  | none =>
    cases hawaited : v.awaited flags with
    | none => exact returns_ok ⟨rfl, h⟩
    | some t => exact nomatch hawaited ▸ heq
  | some te =>
    cases hawaited : v.awaited flags with
    | none => exact nomatch hawaited ▸ heq
    | some t =>
      rw [hawaited] at heq
      have hwhen : te.when = t.due := Option.some.inj heq
      have hsec : te.whenSec = t.due.sec := congrArg AeTime.sec hwhen
      have hms : te.whenMs = t.due.ms := congrArg AeTime.ms hwhen
      simp only [aeGetTime, hsec, hms, h.loop.ticks]
      exact returns_ok ⟨rfl, h.loop.ticks ▸ h.tick⟩

/-- What has fired. -/
theorem Mirrors.poll (h : Mirrors extra w v) (out : AeOutside) (timeout : Int) :
    (aeApiPoll out w timeout).1 = v.fired out ∧
      Mirrors extra (aeApiPoll out w timeout).2 (v.poll out timeout) := by
  have hfired : (aeApiPoll out w timeout).1 = v.fired out := by
    rw [aeApiPoll, AeSpecWorld.fired, h.loop.polls, h.loop.files.epoll, h.loop.files.setsize]
  refine ⟨hfired, ?_⟩
  exact {
    loop := { h.loop with
      files := h.loop.files.of_timers rfl rfl
      polls := congrArg (· + 1) h.loop.polls }
    client := h.client
    trace := by
      rw [AeSpecWorld.poll, AeSpecWorld.record, ← hfired, ← h.trace]
      rfl }

/-- Only a descriptor the kernel watches is reported. -/
theorem interest_of_epollReport {epoll : Epoll} {e r : Nat × EpollEvents}
    (h : epollReport epoll e = some r) : r.1 = e.1 ∧ epoll.interest e.1 ≠ none := by
  cases hi : epoll.interest e.1 with
  | none => simp [epollReport, hi] at h
  | some mask =>
    simp only [epollReport, hi, Option.ite_none_left_eq_some, Option.some_inj] at h
    exact ⟨by rw [← h.2], by simp⟩

/-- What fires is registered. -/
theorem AeSpecWorld.lt_of_fired (h : v.loop.FilesWf) {e : Nat × AeMask} (he : e ∈ v.fired out) :
    e.1 < v.loop.setsize := by
  obtain ⟨r, hmem, hr⟩ := List.mem_map.mp he
  obtain ⟨ready, -, hreport⟩ := List.mem_filterMap.mp (List.mem_of_mem_take hmem)
  obtain ⟨hfd, hinterest⟩ := interest_of_epollReport hreport
  have hwatched : v.loop.watched ready.1 := by
    by_contra hn
    apply hinterest
    simp [AeSpec.epoll, hn]
  rw [← hr, hfd]
  exact h.lt_of_mask (h.watched ready.1 hwatched)

/-- Waiting for events, and serving them. -/
theorem Mirrors.processFileEvents [DecidableEq κ] (h : Mirrors extra w v) (flags : AeFlags) :
    Returns (processFileEvents out procs flags w) fun p =>
      p.1 = (v.processFileEvents out procs flags).1 ∧
        Mirrors extra p.2 (v.processFileEvents out procs flags).2 := by
  rw [Wee.processFileEvents]
  apply (h.wait flags).bind
  rintro ⟨timeout, w₁⟩ ⟨rfl, hw₁⟩
  obtain ⟨hfired, hw₂⟩ := hw₁.poll out (v.wait out flags).1
  dsimp only at hfired hw₂ ⊢
  rw [hfired, hw₂.loop.aftersleep]
  apply (hw₂.sleep _).bind
  intro w₃ hw₃
  refine (hw₃.serveFired fun e he => ?_).bind fun w₄ hw₄ => returns_ok ⟨rfl, hw₄⟩
  rw [AeSpecWorld.sleep_setsize]
  exact AeSpecWorld.lt_of_fired hw₁.loop.files.wf he

end

end Wee
