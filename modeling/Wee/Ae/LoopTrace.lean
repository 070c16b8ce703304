import Wee.Lib.History
import Wee.Ae.MainLoop

/-! # What a client sees of the event loop

The trace alone tells what is registered for a descriptor, which timers are live, and what they were
made with. In every run each call of the client is one it has asked for: for an event that has fired
and is registered at that moment, or for a timer that is live at that moment; and a finalizer is called
for a timer that is no longer live, once. -/

namespace Wee

variable {κ δ σ : Type}

/-! ### What the trace tells -/

/-- The registrations after an entry. -/
def AeEntry.replayFile (files : Nat → AeFileEvent κ δ) : AeEntry κ δ → Nat → AeFileEvent κ δ
  | .call (.createFileEvent fd mask _ proc clientData _) r =>
    if r = 0 then Function.update files fd ((files fd).register mask proc clientData) else files
  | .call (.deleteFileEvent fd mask) _ => Function.update files fd ((files fd).unregister mask)
  | _ => files

/-- The live timers after an entry: what is called for a number, and with what. -/
def AeEntry.replayLive (live : Nat → Option (κ × δ)) : AeEntry κ δ → Nat → Option (κ × δ)
  | .call (.createTimeEvent _ proc clientData _) r =>
    fun n => if (n : Int) = r then some (proc, clientData) else live n
  | .call (.deleteTimeEvent id) _ => fun n => if (n : Int) = id then none else live n
  | .returned id retval => fun n => if retval = -1 ∧ (n : Int) = id then none else live n
  | _ => live

/-- What the timers were made with, after an entry. -/
def AeEntry.replayMade (made : Nat → Option (Option κ × δ)) :
    AeEntry κ δ → Nat → Option (Option κ × δ)
  | .call (.createTimeEvent _ _ clientData finalizerProc) r =>
    fun n => if (n : Int) = r then some (finalizerProc, clientData) else made n
  | _ => made

/-- What has fired last, after an entry. -/
def AeEntry.replayFired (fired : List (Nat × AeMask)) : AeEntry κ δ → List (Nat × AeMask)
  | .poll _ fired => fired
  | _ => fired

/-- What is registered for each descriptor. -/
def registered (trace : List (AeEntry κ δ)) : Nat → AeFileEvent κ δ :=
  trace.foldl AeEntry.replayFile fun _ => unsetFileEvent

/-- The live timers. -/
def liveTimers (trace : List (AeEntry κ δ)) : Nat → Option (κ × δ) :=
  trace.foldl AeEntry.replayLive fun _ => none

/-- What the timers were made with. -/
def madeTimers (trace : List (AeEntry κ δ)) : Nat → Option (Option κ × δ) :=
  trace.foldl AeEntry.replayMade fun _ => none

/-- What has fired last. -/
def lastFired (trace : List (AeEntry κ δ)) : List (Nat × AeMask) :=
  trace.foldl AeEntry.replayFired []

/-- An entry that the client has asked for. -/
def Justified (history : List (AeEntry κ δ)) : AeEntry κ δ → Prop
  | .readable fd proc clientData mask =>
    (fd, mask) ∈ lastFired history ∧ mask.readable = true ∧
      (registered history fd).mask.readable = true ∧
      (registered history fd).rfileProc = some proc ∧
      (registered history fd).clientData = some clientData
  | .writable fd proc clientData mask =>
    (fd, mask) ∈ lastFired history ∧ mask.writable = true ∧
      (registered history fd).mask.writable = true ∧
      (registered history fd).wfileProc = some proc ∧
      (registered history fd).clientData = some clientData
  | .timer id proc clientData => ∃ n : Nat, id = n ∧ liveTimers history n = some (proc, clientData)
  | .finalizer n proc clientData =>
    liveTimers history n = none ∧ madeTimers history n = some (some proc, clientData) ∧
      ∀ proc' clientData', .finalizer n proc' clientData' ∉ history
  | _ => True

/-! ### The state and the trace -/

/-- What is called for a timer, if it has not been deleted. -/
def AeTimer.target (t : AeTimer κ δ) : Option (κ × δ) :=
  if t.deleted then none else some (t.timeProc, t.clientData)

/-- The live timers. -/
def AeSpec.live (a : AeSpec κ δ) (n : Nat) : Option (κ × δ) :=
  (a.timers.find? fun t => t.number = n).bind AeTimer.target

/-- The numbers of the timers tell when they were created. -/
structure AeSpec.TimersWf (a : AeSpec κ δ) : Prop where
  /-- The newest is the first. -/
  ordered : a.numbers.Pairwise (· > ·)
  /-- They are in use. -/
  old : ∀ n ∈ a.numbers, n < a.created

/-- The state is what the trace tells, and the trace is what has been asked for. -/
structure Sound (fired : List (Nat × AeMask)) (v : AeSpecWorld κ δ σ) : Prop where
  /-- The numbers of the timers. -/
  wf : v.loop.TimersWf
  /-- The registrations. -/
  files : v.loop.file = registered v.trace
  /-- The live timers. -/
  live : v.loop.live = liveTimers v.trace
  /-- What the timers were made with. -/
  made : ∀ t ∈ v.loop.timers, madeTimers v.trace t.number = some (t.finalizerProc, t.clientData)
  /-- What has been finalized is not in the list. -/
  finalized : ∀ n proc clientData, .finalizer n proc clientData ∈ v.trace →
    n ∉ v.loop.numbers ∧ n < v.loop.created
  /-- What has fired. -/
  fired : lastFired v.trace = fired
  /-- The trace. -/
  trace : EachAfter Justified v.trace

/-! ### Live timers -/

section
variable {a : AeSpec κ δ} {out : AeOutside}

/-- No two timers have the same number. -/
theorem AeSpec.TimersWf.nodup (h : a.TimersWf) : a.numbers.Nodup :=
  h.ordered.imp fun hgt => Nat.ne_of_gt hgt

/-- What is live for a timer in the list. -/
theorem AeSpec.TimersWf.live_number (h : a.TimersWf) {t : AeTimer κ δ} (ht : t ∈ a.timers) :
    a.live t.number = t.target := by
  rw [AeSpec.live, find?_number h.nodup ht, Option.bind_some]

/-- A number that is not in the list. -/
theorem AeSpec.live_of_not_mem {n : Nat} (hn : n ∉ a.numbers) : a.live n = none := by
  rw [AeSpec.live, List.find?_eq_none.mpr, Option.bind_none]
  intro t ht heq
  rw [decide_eq_true_eq] at heq
  exact hn (heq ▸ List.mem_map_of_mem ht)

/-- A change of a timer does not make another one live. -/
theorem AeSpec.TimersWf.live_store (h : a.TimersWf) {t : AeTimer κ δ} (t' : AeTimer κ δ)
    (ht : t ∈ a.timers) (hnumber : t'.number = t.number) (n : Nat) :
    (a.store t').live n = if n = t.number then t'.target else a.live n := by
  rw [AeSpec.live, AeSpec.store, find?_store, AeSpec.live]
  by_cases hn : n = t.number
  · rw [if_pos hn, hn, find?_number h.nodup ht, Option.map_some, Option.bind_some, if_pos hnumber.symm]
  · rw [if_neg hn]
    cases hfind : a.timers.find? fun s => s.number = n with
    | none => rfl
    | some s =>
      have hs := List.find?_some hfind
      rw [decide_eq_true_eq] at hs
      rw [Option.map_some, Option.bind_some, Option.bind_some, if_neg]
      rw [hs, hnumber]
      exact hn

/-- A timer that is deleted. -/
theorem AeSpec.TimersWf.live_delete (h : a.TimersWf) {t : AeTimer κ δ} (ht : t ∈ a.timers) (n : Nat) :
    (a.store { t with deleted := true }).live n = if n = t.number then none else a.live n :=
  h.live_store { t with deleted := true } ht rfl n

/-- The id of a timer that is not deleted. -/
theorem AeTimer.id_eq_iff {t : AeTimer κ δ} {n : Nat} :
    t.id = n ↔ t.deleted = false ∧ t.number = n := by
  rw [AeTimer.id]
  cases t.deleted with
  | true =>
    rw [if_pos rfl]
    constructor
    · intro h
      omega
    · rintro ⟨h, -⟩
      cases h
  | false =>
    rw [if_neg Bool.false_ne_true]
    constructor
    · intro h
      exact ⟨rfl, by omega⟩
    · rintro ⟨-, h⟩
      rw [h]

/-! ### Calls -/

/-- What is registered after a call. -/
theorem AeSpec.call_file (c : AeCall κ δ) :
    (a.call out c).2.file = (AeEntry.call c (a.call out c).1).replayFile a.file := by
  cases c with
  | createFileEvent fd mask hmask proc clientData refused =>
    rw [AeSpec.call, AeSpec.createFileEvent]
    split
    · rw [AeEntry.replayFile, if_pos rfl]
      rfl
    · rfl
  | deleteFileEvent fd mask => rfl
  | getFileEvents fd => rfl
  | createTimeEvent milliseconds proc clientData finalizerProc => rfl
  | deleteTimeEvent id =>
    rw [AeSpec.call, AeSpec.deleteTimeEvent]
    split <;> rfl
  | stop => rfl
  | opens fd =>
    rw [AeSpec.call, AeSpec.opens]
    split <;> rfl
  | closes fd =>
    rw [AeSpec.call, AeSpec.closes]
    split <;> rfl

/-- What is live after a timer has been deleted by its id. -/
theorem AeSpec.TimersWf.live_deleteTimeEvent (h : a.TimersWf) (id : Int) (n : Nat) :
    (a.deleteTimeEvent id).2.live n = if (n : Int) = id then none else a.live n := by
  rw [AeSpec.deleteTimeEvent]
  cases hfind : a.timers.find? fun t => t.id = id with
  | none =>
    dsimp only
    by_cases hid : (n : Int) = id
    · -- nothing has the id
      rw [if_pos hid, AeSpec.live]
      cases hnumber : a.timers.find? fun t => t.number = n with
      | none => rfl
      | some t =>
        have hnone := List.find?_eq_none.mp hfind t (List.mem_of_find?_eq_some hnumber)
        have hn := List.find?_some hnumber
        rw [decide_eq_true_eq] at hn hnone
        rw [Option.bind_some, AeTimer.target, if_pos]
        by_contra hdeleted
        exact hnone (hid ▸ AeTimer.id_eq_iff.mpr ⟨Bool.eq_false_of_not_eq_true hdeleted, hn⟩)
    · rw [if_neg hid]
  | some t =>
    have ht := List.mem_of_find?_eq_some hfind
    have hid := List.find?_some hfind
    rw [decide_eq_true_eq] at hid
    dsimp only
    rw [h.live_delete ht]
    by_cases hn : n = t.number
    · rw [if_pos hn, hn, h.live_number ht]
      split
      · rfl
      · next hne =>
        -- it had been deleted before
        rw [AeTimer.target, if_pos]
        by_contra hdeleted
        rw [← hid, eq_comm, AeTimer.id_eq_iff] at hne
        exact hne ⟨Bool.eq_false_of_not_eq_true hdeleted, rfl⟩
    · rw [if_neg hn, if_neg]
      intro heq
      rw [← heq, AeTimer.id_eq_iff] at hid
      exact hn hid.2.symm

/-- What is live after a call. -/
theorem AeSpec.TimersWf.call_live (h : a.TimersWf) (c : AeCall κ δ) :
    (a.call out c).2.live = (AeEntry.call c (a.call out c).1).replayLive a.live := by
  cases c with
  | createTimeEvent milliseconds proc clientData finalizerProc =>
    funext n
    have hiff : (n : Int) = a.created ↔ a.created = n := by omega
    change ((_ :: a.timers).find? _).bind AeTimer.target =
      if (n : Int) = a.created then some (proc, clientData) else a.live n
    by_cases hn : a.created = n
    · rw [if_pos (hiff.mpr hn), List.find?_cons_of_pos (by rwa [decide_eq_true_eq])]
      rfl
    · rw [if_neg fun h => hn (hiff.mp h), List.find?_cons_of_neg (by rwa [decide_eq_true_eq])]
      rfl
  | deleteTimeEvent id => exact funext (h.live_deleteTimeEvent id)
  | createFileEvent fd mask hmask proc clientData refused =>
    rw [AeSpec.call, AeSpec.createFileEvent]
    split <;> rfl
  | deleteFileEvent fd mask => rfl
  | getFileEvents fd => rfl
  | stop => rfl
  | opens fd =>
    rw [AeSpec.call, AeSpec.opens]
    split <;> rfl
  | closes fd =>
    rw [AeSpec.call, AeSpec.closes]
    split <;> rfl

/-- A call creates a timer in front of the others, or no timer. -/
theorem AeSpec.call_numbers_cases (a : AeSpec κ δ) (out : AeOutside) (c : AeCall κ δ) :
    (a.call out c).2.numbers = a.numbers ∧ (a.call out c).2.created = a.created ∨
      (a.call out c).2.numbers = a.created :: a.numbers ∧
        (a.call out c).2.created = a.created + 1 := by
  cases c with
  | createTimeEvent milliseconds proc clientData finalizerProc => exact .inr ⟨rfl, rfl⟩
  | createFileEvent fd mask hmask proc clientData refused =>
    rw [AeSpec.call, AeSpec.createFileEvent]
    split <;> exact .inl ⟨rfl, rfl⟩
  | deleteTimeEvent id =>
    rw [AeSpec.call, AeSpec.deleteTimeEvent]
    split
    · exact .inl ⟨rfl, rfl⟩
    · exact .inl ⟨AeSpec.store_numbers _, rfl⟩
  | opens fd =>
    rw [AeSpec.call, AeSpec.opens]
    split <;> exact .inl ⟨rfl, rfl⟩
  | closes fd =>
    rw [AeSpec.call, AeSpec.closes]
    split <;> exact .inl ⟨rfl, rfl⟩
  | deleteFileEvent fd mask => exact .inl ⟨rfl, rfl⟩
  | getFileEvents fd => exact .inl ⟨rfl, rfl⟩
  | stop => exact .inl ⟨rfl, rfl⟩

/-- The numbers after a call. -/
theorem AeSpec.TimersWf.call (h : a.TimersWf) (c : AeCall κ δ) : (a.call out c).2.TimersWf := by
  rcases a.call_numbers_cases out c with ⟨hnum, hcreated⟩ | ⟨hnum, hcreated⟩
  · exact ⟨hnum ▸ h.ordered, hnum ▸ hcreated ▸ h.old⟩
  · constructor
    · rw [hnum]
      exact List.pairwise_cons.mpr ⟨fun n hn => h.old n hn, h.ordered⟩
    · rw [hnum, hcreated]
      intro n hn
      rcases List.mem_cons.mp hn with rfl | hn
      · exact Nat.lt_succ_self _
      · exact (h.old n hn).trans (Nat.lt_succ_self _)

/-- A number that is gone does not come back. -/
theorem AeSpec.gone_call {n : Nat} (h : n ∉ a.numbers ∧ n < a.created) (c : AeCall κ δ) :
    n ∉ (a.call out c).2.numbers ∧ n < (a.call out c).2.created := by
  rcases a.call_numbers_cases out c with ⟨hnum, hcreated⟩ | ⟨hnum, hcreated⟩
  · rwa [hnum, hcreated]
  · rw [hnum, hcreated, List.mem_cons, not_or]
    exact ⟨⟨h.2.ne, h.1⟩, h.2.trans (Nat.lt_succ_self _)⟩

/-- A change of a timer does not change the numbers. -/
theorem AeSpec.TimersWf.store (h : a.TimersWf) (t : AeTimer κ δ) : (a.store t).TimersWf where
  ordered := (AeSpec.store_numbers t).symm ▸ h.ordered
  old := (AeSpec.store_numbers t).symm ▸ h.old

/-- A change of a timer adds no number. -/
theorem AeSpec.mem_numbers_of_store {t : AeTimer κ δ} {n : Nat} (hn : n ∈ (a.store t).numbers) :
    n ∈ a.numbers := AeSpec.store_numbers t ▸ hn

/-- The numbers that are left when one is taken out. -/
theorem AeSpecWorld.remove_numbers (v : AeSpecWorld κ δ σ) (p : Nat) :
    (v.remove p).loop.numbers = v.loop.numbers.filter fun n => n ≠ p := by
  rw [AeSpec.numbers, AeSpec.numbers, AeSpecWorld.remove, List.filter_map]
  rfl

/-- Taking out a timer. -/
theorem AeSpec.TimersWf.remove {v : AeSpecWorld κ δ σ} (h : v.loop.TimersWf) (p : Nat) :
    (v.remove p).loop.TimersWf where
  ordered := by
    rw [AeSpecWorld.remove_numbers]
    exact h.ordered.filter _
  old := by
    rw [AeSpecWorld.remove_numbers]
    exact fun n hn => h.old n (List.mem_of_mem_filter hn)

/-- What the timers were made with. -/
def AeSpec.Made (a : AeSpec κ δ) (made : Nat → Option (Option κ × δ)) : Prop :=
  ∀ t ∈ a.timers, made t.number = some (t.finalizerProc, t.clientData)

/-- A change of a timer does not change what it was made with. -/
theorem AeSpec.Made.store {made : Nat → Option (Option κ × δ)} (h : a.Made made) {t : AeTimer κ δ}
    (ht : made t.number = some (t.finalizerProc, t.clientData)) : (a.store t).Made made := by
  intro s hs
  obtain ⟨s, hmem, rfl⟩ := List.mem_map.mp hs
  split
  · exact ht
  · exact h s hmem

/-- What the timers were made with, after a call. -/
theorem AeSpec.TimersWf.call_made (hwf : a.TimersWf) {made : Nat → Option (Option κ × δ)}
    (h : a.Made made) (c : AeCall κ δ) :
    (a.call out c).2.Made ((AeEntry.call c (a.call out c).1).replayMade made) := by
  cases c with
  | createTimeEvent milliseconds proc clientData finalizerProc =>
    intro t ht
    rcases List.mem_cons.mp ht with rfl | ht
    · exact if_pos rfl
    · have hlt := hwf.old t.number (List.mem_map_of_mem ht)
      have hne : (t.number : Int) ≠ a.created := by omega
      exact (if_neg hne).trans (h t ht)
  | deleteTimeEvent id =>
    rw [AeSpec.call, AeSpec.deleteTimeEvent]
    cases hfind : a.timers.find? fun t => t.id = id with
    | none => exact h
    | some t => exact h.store (h t (List.mem_of_find?_eq_some hfind))
  | createFileEvent fd mask hmask proc clientData refused =>
    rw [AeSpec.call, AeSpec.createFileEvent]
    split <;> exact h
  | opens fd =>
    rw [AeSpec.call, AeSpec.opens]
    split <;> exact h
  | closes fd =>
    rw [AeSpec.call, AeSpec.closes]
    split <;> exact h
  | deleteFileEvent fd mask => exact h
  | getFileEvents fd => exact h
  | stop => exact h

end

/-! ### The invariant -/

section
variable {fired : List (Nat × AeMask)} {v : AeSpecWorld κ δ σ} {out : AeOutside}
  {procs : AeProcs κ δ σ}

/-- The registrations after one more entry. -/
theorem registered_concat (trace : List (AeEntry κ δ)) (e : AeEntry κ δ) :
    registered (trace ++ [e]) = e.replayFile (registered trace) := List.foldl_concat ..

/-- The live timers after one more entry. -/
theorem liveTimers_concat (trace : List (AeEntry κ δ)) (e : AeEntry κ δ) :
    liveTimers (trace ++ [e]) = e.replayLive (liveTimers trace) := List.foldl_concat ..

/-- What the timers were made with, after one more entry. -/
theorem madeTimers_concat (trace : List (AeEntry κ δ)) (e : AeEntry κ δ) :
    madeTimers (trace ++ [e]) = e.replayMade (madeTimers trace) := List.foldl_concat ..

/-- What has fired last, after one more entry. -/
theorem lastFired_concat (trace : List (AeEntry κ δ)) (e : AeEntry κ δ) :
    lastFired (trace ++ [e]) = e.replayFired (lastFired trace) := List.foldl_concat ..

/-- A call. -/
theorem Sound.call (h : Sound fired v) (c : AeCall κ δ) : Sound fired (v.call out c).2 where
  wf := h.wf.call c
  files := by
    refine (AeSpec.call_file c).trans ?_
    rw [AeSpecWorld.call, registered_concat, h.files]
  live := by
    refine (h.wf.call_live c).trans ?_
    rw [AeSpecWorld.call, liveTimers_concat, h.live]
  made := by
    rw [AeSpecWorld.call, madeTimers_concat]
    exact h.wf.call_made h.made c
  finalized n proc clientData hmem := by
    rcases List.mem_append.mp hmem with hmem | hmem
    · exact AeSpec.gone_call (h.finalized n proc clientData hmem) c
    · cases List.mem_singleton.mp hmem
  fired := by
    rw [AeSpecWorld.call, lastFired_concat]
    exact h.fired
  trace := h.trace.concat trivial

/-- The entry tells nothing about the state. -/
def AeEntry.Quiet : AeEntry κ δ → Prop
  | .readable .. | .writable .. | .timer .. | .sleep .. => True
  | _ => False

/-- A call of the client. -/
theorem Sound.record (h : Sound fired v) {e : AeEntry κ δ} (hquiet : e.Quiet)
    (he : Justified v.trace e) : Sound fired (v.record e) where
  wf := h.wf
  files := by
    rw [AeSpecWorld.record, registered_concat, ← h.files]
    cases e <;> first | rfl | exact hquiet.elim
  live := by
    rw [AeSpecWorld.record, liveTimers_concat, ← h.live]
    cases e <;> first | rfl | exact hquiet.elim
  made := by
    rw [AeSpecWorld.record, madeTimers_concat]
    cases e <;> first | exact h.made | exact hquiet.elim
  finalized n proc clientData hmem := by
    rcases List.mem_append.mp hmem with hmem | hmem
    · exact h.finalized n proc clientData hmem
    · rw [← List.mem_singleton.mp hmem] at hquiet
      exact hquiet.elim
  fired := by
    rw [AeSpecWorld.record, lastFired_concat]
    cases e <;> first | exact h.fired | exact hquiet.elim
  trace := h.trace.concat he

/-- A script. -/
theorem Sound.eval {α : Type} (h : Sound fired v) (out : AeOutside)
    (x : Script (AeCall κ δ) Int α) :
    Sound fired (x.eval (AeSpecWorld.call out) v).2 := by
  have hstep (u : AeSpecWorld κ δ σ) (c : AeCall κ δ) (_ : True) (hu : Sound fired u) :
      Sound fired (u.call out c).2 := hu.call c
  exact Script.eval_invariant hstep x.only_true h

/-- The state of the client does not matter. -/
theorem Sound.setClient (h : Sound fired v) (client : σ) : Sound fired { v with client := client } :=
  ⟨h.wf, h.files, h.live, h.made, h.finalized, h.fired, h.trace⟩

/-- A function of the client. -/
theorem Sound.proc (e : AeEntry κ δ) (h : Sound fired (v.record e))
    (script : σ → Script (AeCall κ δ) Int σ) : Sound fired (v.proc out e script) :=
  (h.eval out (script v.client)).setClient _

/-- Reading the clock. -/
theorem Sound.tick (h : Sound fired v) : Sound fired v.tick :=
  ⟨⟨h.wf.ordered, h.wf.old⟩, h.files, h.live, h.made, h.finalized, h.fired, h.trace⟩

/-- The loop is to run. -/
theorem Sound.go (h : Sound fired v) : Sound fired v.go :=
  ⟨⟨h.wf.ordered, h.wf.old⟩, h.files, h.live, h.made, h.finalized, h.fired, h.trace⟩

/-- `beforesleep` and `aftersleep`. -/
theorem Sound.sleep (h : Sound fired v) (proc : Option κ) :
    Sound fired (v.sleep out procs proc) := by
  cases proc with
  | none => exact h
  | some proc =>
    refine .proc _ (h.record ?_ ?_) _
    · trivial
    · trivial

/-! ### File events -/

/-- The function for reading is registered. -/
theorem AeSpecWorld.reader_eq_some {fd : Nat} {mask : AeMask} {p : κ} {d : δ}
    (h : v.reader fd mask = some (p, d)) :
    mask.readable = true ∧ (v.loop.file fd).mask.readable = true ∧
      (v.loop.file fd).rfileProc = some p ∧ (v.loop.file fd).clientData = some d := by
  rw [AeSpecWorld.reader] at h
  split at h
  · next hmask =>
    obtain ⟨q, hq, hmap⟩ := Option.bind_eq_some_iff.mp h
    obtain ⟨d', hd, heq⟩ := Option.map_eq_some_iff.mp hmap
    obtain ⟨rfl, rfl⟩ := Prod.mk.inj heq
    exact ⟨(Bool.and_eq_true_iff.mp hmask).2, (Bool.and_eq_true_iff.mp hmask).1, hq, hd⟩
  · cases h

/-- The function for writing is registered. -/
theorem AeSpecWorld.writer_eq_some [DecidableEq κ] {fd : Nat} {mask : AeMask} {rfired : Bool}
    {p : κ} {d : δ} (h : v.writer fd mask rfired = some (p, d)) :
    mask.writable = true ∧ (v.loop.file fd).mask.writable = true ∧
      (v.loop.file fd).wfileProc = some p ∧ (v.loop.file fd).clientData = some d := by
  rw [AeSpecWorld.writer] at h
  split at h
  · next hmask =>
    have hboth := (Bool.and_eq_true_iff.mp hmask).1
    obtain ⟨q, hq, hmap⟩ := Option.bind_eq_some_iff.mp h
    obtain ⟨d', hd, heq⟩ := Option.map_eq_some_iff.mp hmap
    obtain ⟨rfl, rfl⟩ := Prod.mk.inj heq
    exact ⟨(Bool.and_eq_true_iff.mp hboth).2, (Bool.and_eq_true_iff.mp hboth).1, hq, hd⟩
  · cases h

/-- Serving a descriptor that has fired. -/
theorem Sound.serve [DecidableEq κ] (h : Sound fired v) {e : Nat × AeMask} (he : e ∈ fired) :
    Sound fired (v.serve out procs e) := by
  obtain ⟨fd, mask⟩ := e
  have hreadable : Sound fired (v.serveReadable out procs fd mask) := by
    rw [AeSpecWorld.serveReadable]
    split
    · next p d hreader =>
      refine .proc _ (h.record ?_ ?_) _
      · trivial
      · rw [Justified, h.fired, ← h.files]
        exact ⟨he, AeSpecWorld.reader_eq_some hreader⟩
    · exact h
  rw [AeSpecWorld.serve, AeSpecWorld.serveWritable]
  split
  · next p d hwriter =>
    refine .proc _ (hreadable.record ?_ ?_) _
    · trivial
    · rw [Justified, hreadable.fired, ← hreadable.files]
      exact ⟨he, AeSpecWorld.writer_eq_some hwriter⟩
  · exact hreadable

/-- Serving what has fired. -/
theorem Sound.serveFired [DecidableEq κ] {es : List (Nat × AeMask)} (h : Sound fired v)
    (hes : ∀ e ∈ es, e ∈ fired) : Sound fired (v.serveFired out procs es) := by
  induction es generalizing v with
  | nil => exact h
  | cons e es ih =>
    exact ih (h.serve (hes e List.mem_cons_self)) fun e he => hes e (List.mem_cons_of_mem _ he)

/-- Waiting. -/
theorem Sound.poll (h : Sound fired v) (out : AeOutside) (timeout : Int) :
    Sound (v.fired out) (v.poll out timeout) where
  wf := ⟨h.wf.ordered, h.wf.old⟩
  files := by
    refine h.files.trans ?_
    rw [AeSpecWorld.poll, AeSpecWorld.record, registered_concat]
    rfl
  live := by
    refine Eq.trans (b := v.loop.live) rfl (h.live.trans ?_)
    rw [AeSpecWorld.poll, AeSpecWorld.record, liveTimers_concat]
    rfl
  made := by
    rw [AeSpecWorld.poll, AeSpecWorld.record, madeTimers_concat]
    exact h.made
  finalized n proc clientData hmem := by
    rcases List.mem_append.mp hmem with hmem | hmem
    · exact h.finalized n proc clientData hmem
    · cases List.mem_singleton.mp hmem
  fired := by
    rw [AeSpecWorld.poll, AeSpecWorld.record, lastFired_concat]
    rfl
  trace := h.trace.concat trivial

/-- The file events of a round. -/
theorem Sound.processFilePart [DecidableEq κ] (h : Sound fired v) (out : AeOutside)
    (procs : AeProcs κ δ σ) (flags : AeFlags) :
    ∃ fired', Sound fired' (v.processFilePart out procs flags).2 := by
  rw [AeSpecWorld.processFilePart]
  split
  · have hwait : Sound fired (v.wait out flags).2 := by
      rw [AeSpecWorld.wait]
      split
      · exact h.tick
      · exact h
    have hpoll := hwait.poll out (v.wait out flags).1
    exact ⟨_, (hpoll.sleep _).serveFired fun e he => he⟩
  · exact ⟨fired, h⟩

/-! ### Timers -/

/-- A timer has returned. -/
theorem Sound.settleTimer (h : Sound fired v) (out : AeOutside) {n : Nat}
    (hn : n ∈ v.loop.numbers) (retval : Int) :
    Sound fired ((v.record (.returned n retval)).settleTimer out n retval) := by
  obtain ⟨t, ht, rfl⟩ := List.mem_map.mp hn
  have hfind : (v.record (.returned t.number retval)).timer t.number = some t :=
    find?_number h.wf.nodup ht
  have hfinalized (n : Nat) (proc : κ) (clientData : δ)
      (hmem : .finalizer n proc clientData ∈ v.trace ++ [.returned t.number retval]) :
      n ∉ v.loop.numbers ∧ n < v.loop.created := by
    rcases List.mem_append.mp hmem with hmem | hmem
    · exact h.finalized n proc clientData hmem
    · cases List.mem_singleton.mp hmem
  have hfiles : v.loop.file = registered (v.trace ++ [.returned t.number retval]) := by
    rw [registered_concat, ← h.files]
    rfl
  have hmade : v.loop.Made (madeTimers (v.trace ++ [.returned t.number retval])) := by
    rw [madeTimers_concat]
    exact h.made
  have hfired : lastFired (v.trace ++ [.returned t.number retval]) = fired := by
    rw [lastFired_concat]
    exact h.fired
  have hlives (m : Nat) : liveTimers (v.trace ++ [.returned t.number retval]) m =
      if retval = -1 ∧ m = t.number then none else v.loop.live m := by
    rw [liveTimers_concat, ← h.live, AeEntry.replayLive]
    simp only [Int.natCast_inj]
  rw [AeSpecWorld.settleTimer, hfind]
  dsimp only
  rw [AeSpecWorld.afterTimer]
  split
  · next hretval =>
    exact {
      wf := h.wf.store _
      files := hfiles
      live := by
        funext m
        refine (h.wf.live_delete ht m).trans (Eq.trans ?_ (hlives m).symm)
        simp only [hretval, true_and]
      made := hmade.store (hmade t ht)
      finalized := fun n proc clientData hmem =>
        ⟨fun hn => (hfinalized n proc clientData hmem).1 (AeSpec.mem_numbers_of_store hn),
          (hfinalized n proc clientData hmem).2⟩
      fired := hfired
      trace := h.trace.concat trivial }
  · next hretval =>
    exact {
      wf := h.tick.wf.store _
      files := hfiles
      live := by
        funext m
        refine (h.tick.wf.live_store
          { t with due := aeAddMillisecondsToNow (out.clock v.loop.ticks) retval } ht rfl m).trans
            (Eq.trans ?_ (hlives m).symm)
        have hother : ¬(retval = -1 ∧ m = t.number) := fun hboth => hretval hboth.1
        rw [if_neg hother]
        split
        · next hm => exact hm ▸ (h.wf.live_number ht).symm
        · rfl
      made := hmade.store (hmade t ht)
      finalized := fun n proc clientData hmem =>
        ⟨fun hn => (hfinalized n proc clientData hmem).1 (AeSpec.mem_numbers_of_store hn),
          (hfinalized n proc clientData hmem).2⟩
      fired := hfired
      trace := h.trace.concat trivial }

/-- Calling a timer. -/
theorem Sound.callTimer (h : Sound fired v) {t : AeTimer κ δ} (ht : t ∈ v.loop.timers)
    (hlive : t.deleted = false) : Sound fired (v.callTimer out procs t) := by
  have hid : t.id = t.number := AeTimer.id_eq_iff.mpr ⟨hlive, rfl⟩
  have hrecord : Sound fired (v.record (.timer t.id t.timeProc t.clientData)) := by
    refine h.record trivial ⟨t.number, hid, ?_⟩
    rw [← h.live, h.wf.live_number ht, AeTimer.target, hlive]
    rfl
  have heval := hrecord.eval out (procs.time t.timeProc t.id t.clientData v.client)
  have hnumbers := v.eval_numbers_suffix out (procs.time t.timeProc t.id t.clientData v.client)
    (.timer t.id t.timeProc t.clientData)
  rw [AeSpecWorld.callTimer]
  generalize (procs.time t.timeProc t.id t.clientData v.client).eval (AeSpecWorld.call out)
    (v.record (.timer t.id t.timeProc t.clientData)) = p at heval hnumbers ⊢
  obtain ⟨⟨retval, client⟩, u⟩ := p
  have hsettle := (heval.setClient client).settleTimer out
    (hnumbers.mem (List.mem_map_of_mem ht)) retval
  rw [← hid] at hsettle
  exact hsettle

/-- The timers that are left when one is taken out. -/
theorem find?_filter_number (ts : List (AeTimer κ δ)) (p n : Nat) :
    ((ts.filter fun s => s.number ≠ p).find? fun s => s.number = n) =
      if n = p then none else ts.find? fun s => s.number = n := by
  rw [List.find?_filter]
  by_cases hn : n = p
  · rw [if_pos hn, List.find?_eq_none]
    intro s _
    simp only [decide_eq_true_eq, not_and]
    exact fun hne heq => hne (heq.trans hn)
  · rw [if_neg hn]
    congr 1
    funext s
    by_cases hs : s.number = n
    · simp [hs, hn]
    · simp [hs]

/-- Taking out a timer that has been deleted. -/
theorem Sound.remove (h : Sound fired v) {t : AeTimer κ δ} (ht : t ∈ v.loop.timers)
    (hdeleted : t.deleted = true) :
    Sound fired (v.remove t.number) ∧ t.number ∉ (v.remove t.number).loop.numbers := by
  have hnumbers := v.remove_numbers t.number
  refine ⟨?_, ?_⟩
  · exact {
      wf := h.wf.remove t.number
      files := h.files
      live := by
        funext n
        refine Eq.trans ?_ (congrFun h.live n)
        rw [AeSpec.live, AeSpecWorld.remove, find?_filter_number]
        split
        · next hn =>
          rw [hn, h.wf.live_number ht, AeTimer.target, hdeleted]
          rfl
        · rfl
      made := fun s hs => h.made s (List.mem_of_mem_filter hs)
      finalized := by
        intro n proc clientData hmem
        rw [hnumbers]
        have hgone := h.finalized n proc clientData hmem
        exact ⟨fun hn => hgone.1 (List.mem_of_mem_filter hn), hgone.2⟩
      fired := h.fired
      trace := h.trace }
  · rw [hnumbers, List.mem_filter]
    rintro ⟨-, hne⟩
    exact of_decide_eq_true hne rfl

/-- The finalizer of a timer that is out of the list. -/
theorem Sound.finalize (h : Sound fired v) {t : AeTimer κ δ} (hn : t.number ∉ v.loop.numbers)
    (hold : t.number < v.loop.created)
    (hmade : madeTimers v.trace t.number = some (t.finalizerProc, t.clientData))
    (hnew : ∀ proc clientData, .finalizer t.number proc clientData ∉ v.trace) :
    Sound fired (v.finalize out procs t) := by
  rw [AeSpecWorld.finalize]
  split
  · next p hp =>
    refine .proc _ ?_ _
    exact {
      wf := h.wf
      files := by
        rw [AeSpecWorld.record, registered_concat, ← h.files]
        rfl
      live := by
        rw [AeSpecWorld.record, liveTimers_concat, ← h.live]
        rfl
      made := by
        rw [AeSpecWorld.record, madeTimers_concat]
        exact h.made
      finalized := by
        intro n proc clientData hmem
        rcases List.mem_append.mp hmem with hmem | hmem
        · exact h.finalized n proc clientData hmem
        · obtain ⟨rfl, -, -⟩ := AeEntry.finalizer.inj (List.mem_singleton.mp hmem)
          exact ⟨hn, hold⟩
      fired := by
        rw [AeSpecWorld.record, lastFired_concat]
        exact h.fired
      trace := by
        refine h.trace.concat ⟨?_, ?_, hnew⟩
        · rw [← h.live]
          exact AeSpec.live_of_not_mem hn
        · rw [hmade, hp] }
  · exact h

/-- A timer that is looked at. -/
theorem Sound.visit (h : Sound fired v) {t : AeTimer κ δ} (ht : t ∈ v.loop.timers) :
    Sound fired (v.visit out procs t).2 := by
  rw [AeSpecWorld.visit]
  cases hdeleted : t.deleted with
  | true =>
    obtain ⟨hremove, hn⟩ := h.remove ht hdeleted
    refine hremove.finalize hn (h.wf.old _ (List.mem_map_of_mem ht)) (h.made t ht) ?_
    intro proc clientData hmem
    exact (h.finalized _ proc clientData hmem).1 (List.mem_map_of_mem ht)
  | false =>
    rw [if_neg Bool.false_ne_true]
    split
    · exact h.tick
    · exact h.tick.callTimer ht hdeleted

/-- A pass over timers. -/
theorem Sound.pass (h : Sound fired v) (numbers : List Nat) :
    Sound fired (v.pass out procs numbers).2 := by
  induction numbers generalizing v with
  | nil => exact h
  | cons number numbers ih =>
    rw [AeSpecWorld.pass]
    cases hfind : v.timer number with
    | none => exact ih h
    | some t => exact ih (h.visit (List.mem_of_find?_eq_some hfind))

/-- The beginning of a pass. -/
theorem Sound.startPass (h : Sound fired v) : Sound fired (v.startPass out) := by
  rw [AeSpecWorld.startPass, AeSpecWorld.skew]
  split
  · have hnumbers : (v.loop.timers.map AeTimer.skewed).map AeTimer.number = v.loop.numbers := by
      rw [List.map_map]
      rfl
    have hordered : ((v.loop.timers.map AeTimer.skewed).map AeTimer.number).Pairwise (· > ·) :=
      hnumbers.symm ▸ h.wf.ordered
    have hold : ∀ n ∈ (v.loop.timers.map AeTimer.skewed).map AeTimer.number, n < v.loop.created :=
      hnumbers.symm ▸ h.wf.old
    exact {
      wf := ⟨hordered, hold⟩
      files := h.files
      live := by
        funext n
        refine Eq.trans ?_ (congrFun h.live n)
        change ((v.loop.timers.map AeTimer.skewed).find? _).bind AeTimer.target = _
        rw [List.find?_map, AeSpec.live, Option.bind_map]
        rfl
      made := by
        intro t ht
        obtain ⟨s, hs, rfl⟩ := List.mem_map.mp ht
        exact h.made s hs
      finalized := fun n proc clientData hmem =>
        ⟨fun hn => (h.finalized n proc clientData hmem).1 (hnumbers ▸ hn),
          (h.finalized n proc clientData hmem).2⟩
      fired := h.fired
      trace := h.trace }
  · exact ⟨⟨h.wf.ordered, h.wf.old⟩, h.files, h.live, h.made, h.finalized, h.fired, h.trace⟩

/-- A round. -/
theorem Sound.mainRound [DecidableEq κ] (h : Sound fired v) (out : AeOutside)
    (procs : AeProcs κ δ σ) :
    ∃ fired', Sound fired' (v.mainRound out procs) := by
  have hsleep : Sound fired (v.sleep out procs v.loop.beforesleep) := h.sleep _
  obtain ⟨fired', hfile⟩ := hsleep.processFilePart out procs aeMainFlags
  exact ⟨fired', hfile.startPass.pass _⟩

/-- Rounds. -/
theorem Sound.rounds [DecidableEq κ] (h : Sound fired v) (out : AeOutside)
    (procs : AeProcs κ δ σ) (n : Nat) :
    ∃ fired', Sound fired' (v.rounds out procs n) := by
  induction n generalizing fired v with
  | zero => exact ⟨fired, h⟩
  | succ n ih =>
    rw [AeSpecWorld.rounds]
    split
    · exact ⟨fired, h⟩
    · obtain ⟨fired', hround⟩ := h.mainRound out procs
      exact ih hround

/-- A program before it runs the loop. -/
theorem sound_start (out : AeOutside) (opened : Nat → Bool) (setsize : Nat)
    (beforesleep aftersleep : Option κ) (setup : Script (AeCall κ δ) Int σ) (client : σ) :
    Sound [] (AeSpecWorld.start out opened setsize beforesleep aftersleep setup client) := by
  have hnew : Sound [] (AeSpecWorld.mk { (AeSpec.new out opened setsize : AeSpec κ δ) with
      beforesleep := beforesleep, aftersleep := aftersleep } client []) := {
    wf := ⟨List.Pairwise.nil, fun _ h => absurd h List.not_mem_nil⟩
    files := rfl
    live := rfl
    made := fun _ h => absurd h List.not_mem_nil
    finalized := fun _ _ _ h => absurd h List.not_mem_nil
    fired := rfl
    trace := eachAfter_nil }
  exact (hnew.eval out setup).setClient _

end

/-! ### Programs -/

/-- A time event is a timer. -/
theorem Mirrors.stored_timer {w : AeWorld κ δ σ} {v : AeSpecWorld κ δ σ} (h : Mirrors [] w v)
    {n : Nat} {te : AeTimeEvent κ δ} (hload : w.loop.timers n = some te) :
    ∃ t ∈ v.loop.timers, t.number = n ∧ ∃ next, te = t.event next := by
  have hmem : n ∈ v.loop.numbers :=
    (h.loop.timers.allocated n (by rw [hload]; rfl)).resolve_right List.not_mem_nil
  obtain ⟨t, ht, rfl⟩ := List.mem_map.mp hmem
  obtain ⟨next, hstored⟩ := h.loop.timers.stored t ht
  exact ⟨t, ht, rfl, next, Option.some.inj (hload.symm.trans hstored)⟩

/-- A time event that has an id is a timer that has not been deleted. -/
theorem Mirrors.live_timer {w : AeWorld κ δ σ} {v : AeSpecWorld κ δ σ} (h : Mirrors [] w v) {n : Nat}
    {te : AeTimeEvent κ δ} (hload : w.loop.timers n = some te) (hid : te.id = n) :
    ∃ t ∈ v.loop.timers, t.number = n ∧ t.deleted = false ∧ ∃ next, te = t.event next := by
  obtain ⟨t, ht, hnumber, next, rfl⟩ := h.stored_timer hload
  exact ⟨t, ht, hnumber, (AeTimer.id_eq_iff.mp hid).1, next, rfl⟩

end Wee
