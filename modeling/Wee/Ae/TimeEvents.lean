import Wee.Lib.Chain
import Wee.Ae.LoopSpec
import Mathlib.Data.List.Nodup
import Mathlib.Data.List.Perm.Subperm

/-! # The list of timers

The time events that are allocated are those of the list, with the newest first, and one that is just
being taken out of it. A timer is at the address that is its number: both count how many timers have
been created. -/

namespace Wee

variable {κ δ : Type}

/-- The time event of a timer. -/
def AeTimer.event (t : AeTimer κ δ) (next : Option Nat) : AeTimeEvent κ δ where
  id := t.id
  whenSec := t.due.sec
  whenMs := t.due.ms
  timeProc := t.timeProc
  finalizerProc := t.finalizerProc
  clientData := t.clientData
  next := next

/-- The links of the time events. -/
def timerLinks (timers : Nat → Option (AeTimeEvent κ δ)) (p : Nat) : Option (Option Nat) :=
  (timers p).map AeTimeEvent.next

/-- The list that begins at `head` holds the timers `ts`. Nothing else is allocated but `extra`. -/
structure TimersHeld (extra : List Nat) (timers : Nat → Option (AeTimeEvent κ δ))
    (head : Option Nat) (fresh : Nat) (ts : List (AeTimer κ δ)) : Prop where
  /-- The list. -/
  path : Path (timerLinks timers) head (ts.map AeTimer.number) none
  /-- What is in it. -/
  stored : ∀ t ∈ ts, ∃ next, timers t.number = some (t.event next)
  /-- Nothing else is allocated. -/
  allocated : ∀ p, (timers p).isSome = true → p ∈ ts.map AeTimer.number ∨ p ∈ extra
  /-- The newest is the first. -/
  ordered : (ts.map AeTimer.number).Pairwise (· > ·)
  /-- Other addresses have not been used. -/
  old : ∀ p, (timers p).isSome = true → p < fresh

/-- There is no timer. -/
theorem timersHeld_nil : TimersHeld [] (fun _ => none) none 0 ([] : List (AeTimer κ δ)) where
  path := rfl
  stored _ h := nomatch h
  allocated _ h := nomatch h
  ordered := List.Pairwise.nil
  old _ h := nomatch h

section
variable {extra : List Nat} {timers : Nat → Option (AeTimeEvent κ δ)} {head : Option Nat}
  {fresh : Nat} {ts : List (AeTimer κ δ)} {t t' : AeTimer κ δ} {p : Nat}

/-! ### Numbers -/

/-- A timer in the list is allocated. -/
theorem TimersHeld.lt_fresh (h : TimersHeld extra timers head fresh ts)
    (hp : p ∈ ts.map AeTimer.number) : p < fresh := by
  obtain ⟨t, ht, rfl⟩ := List.mem_map.mp hp
  obtain ⟨next, hnext⟩ := h.stored t ht
  exact h.old t.number (by rw [hnext]; rfl)

/-- No two timers have the same number. -/
theorem TimersHeld.nodup (h : TimersHeld extra timers head fresh ts) :
    (ts.map AeTimer.number).Nodup := h.ordered.imp fun hgt => Nat.ne_of_gt hgt

/-- A timer is known by its number. -/
theorem find?_number (hnodup : (ts.map AeTimer.number).Nodup) (ht : t ∈ ts) :
    (ts.find? fun s => s.number = t.number) = some t := by
  cases hfind : ts.find? fun s => s.number = t.number with
  | none =>
    have := List.find?_eq_none.mp hfind t ht
    exact absurd (decide_eq_true rfl) this
  | some s =>
    have hs := List.find?_some hfind
    rw [decide_eq_true_eq] at hs
    rw [List.inj_on_of_nodup_map hnodup (List.mem_of_find?_eq_some hfind) ht hs]

/-- There are no more timers than addresses. -/
theorem TimersHeld.length_le (h : TimersHeld extra timers head fresh ts) : ts.length ≤ fresh := by
  have hsub : ts.map AeTimer.number ⊆ List.range fresh := by
    intro p hp
    exact List.mem_range.mpr (h.lt_fresh hp)
  have := (h.nodup.subperm hsub).length_le
  rwa [List.length_map, List.length_range] at this

/-! ### Changes -/

/-- A new timer. -/
theorem TimersHeld.cons (h : TimersHeld extra timers head fresh ts) (ht : t.number = fresh) :
    TimersHeld extra (fun q => if q = fresh then some (t.event head) else timers q) (some fresh)
      (fresh + 1) (t :: ts) where
  path := by
    refine ⟨ht ▸ rfl, head, ?_, h.path.congr fun p hp => ?_⟩
    · rw [timerLinks, if_pos ht]
      rfl
    · rw [timerLinks, if_neg (h.lt_fresh hp).ne, timerLinks]
  stored s hs := by
    rcases List.mem_cons.mp hs with rfl | hs
    · exact ⟨head, if_pos ht⟩
    · rw [if_neg (h.lt_fresh (List.mem_map_of_mem hs)).ne]
      exact h.stored s hs
  allocated p hp := by
    by_cases hpf : p = fresh
    · exact .inl (hpf ▸ ht ▸ List.mem_cons_self)
    · rw [if_neg hpf] at hp
      exact (h.allocated p hp).imp_left (List.mem_cons_of_mem _)
  ordered := List.pairwise_cons.mpr ⟨fun p hp => ht ▸ h.lt_fresh hp, h.ordered⟩
  old p hp := by
    by_cases hpf : p = fresh
    · omega
    · rw [if_neg hpf] at hp
      exact (h.old p hp).trans (Nat.lt_succ_self fresh)

/-- A change of one timer does not change the numbers. -/
theorem map_number_store (ts : List (AeTimer κ δ)) (t : AeTimer κ δ) :
    (ts.map fun s => if s.number = t.number then t else s).map AeTimer.number =
      ts.map AeTimer.number := by
  rw [List.map_map]
  refine List.map_congr_left fun s _ => ?_
  simp only [Function.comp_apply]
  split
  · next h => exact h.symm
  · rfl

/-- The timer with a number, after a change of one. -/
theorem find?_store (ts : List (AeTimer κ δ)) (t : AeTimer κ δ) (n : Nat) :
    ((ts.map fun s => if s.number = t.number then t else s).find? fun s => s.number = n) =
      (ts.find? fun s => s.number = n).map fun s => if s.number = t.number then t else s := by
  rw [List.find?_map]
  congr 2
  funext s
  simp only [Function.comp_apply]
  split
  · next h => rw [h]
  · rfl

/-- A timer that is changed. -/
theorem TimersHeld.store (h : TimersHeld extra timers head fresh ts) {next : Option Nat}
    (hload : timers t.number = some (t.event next)) (hnumber : t'.number = t.number) :
    TimersHeld extra (fun q => if q = t.number then some (t'.event next) else timers q) head fresh
      (ts.map fun s => if s.number = t'.number then t' else s) where
  path := by
    rw [map_number_store]
    refine h.path.congr fun p _ => ?_
    rw [timerLinks, timerLinks]
    split
    · next hp => rw [hp, hload]; rfl
    · rfl
  stored s hs := by
    obtain ⟨s, hmem, rfl⟩ := List.mem_map.mp hs
    by_cases hsn : s.number = t'.number
    · rw [if_pos hsn, if_pos hnumber]
      exact ⟨next, rfl⟩
    · rw [if_neg hsn, if_neg (hnumber ▸ hsn)]
      exact h.stored s hmem
  allocated p hp := by
    rw [map_number_store]
    refine h.allocated p ?_
    by_cases hpt : p = t.number
    · rw [hpt, hload]
      rfl
    · rwa [if_neg hpt] at hp
  ordered := by
    rw [map_number_store]
    exact h.ordered
  old p hp := by
    refine h.old p ?_
    by_cases hpt : p = t.number
    · rw [hpt, hload]
      rfl
    · rwa [if_neg hpt] at hp

/-- The numbers that are left when one is taken out. -/
theorem map_number_filter {kept rest : List Nat} (hnodup : (ts.map AeTimer.number).Nodup)
    (hnum : ts.map AeTimer.number = kept ++ p :: rest) :
    (ts.filter fun s => s.number ≠ p).map AeTimer.number = kept ++ rest := by
  have hcomm : (ts.filter fun s => s.number ≠ p).map AeTimer.number =
      (ts.map AeTimer.number).filter fun n => n ≠ p := by
    rw [List.filter_map]
    rfl
  rw [hnum] at hnodup
  have hp : p ∉ kept ++ rest := (List.nodup_middle.mp hnodup |> List.nodup_cons.mp).1
  rw [hcomm, hnum, List.filter_append, List.filter_cons_of_neg (by simp), ← List.filter_append,
    List.filter_eq_self.mpr]
  intro n hn
  exact decide_eq_true fun heq => hp (heq ▸ hn)

/-- A timer that is taken out of the list is still allocated. -/
theorem TimersHeld.remove {kept rest : List Nat} {timers' : Nat → Option (AeTimeEvent κ δ)}
    {head' : Option Nat} (h : TimersHeld [] timers head fresh ts)
    (hnum : ts.map AeTimer.number = kept ++ p :: rest)
    (hpath : Path (timerLinks timers') head' (kept ++ rest) none)
    (hstored : ∀ q te, timers q = some te → ∃ next, timers' q = some { te with next := next })
    (hold : ∀ q, (timers' q).isSome = true → (timers q).isSome = true) :
    TimersHeld [p] timers' head' fresh (ts.filter fun s => s.number ≠ p) where
  path := by
    rw [map_number_filter h.nodup hnum]
    exact hpath
  stored t ht := by
    obtain ⟨next, hload⟩ := h.stored t (List.mem_of_mem_filter ht)
    exact hstored t.number _ hload
  allocated q hq := by
    rcases h.allocated q (hold q hq) with hmem | hmem
    · rw [map_number_filter h.nodup hnum]
      rw [hnum, List.mem_append, List.mem_cons] at hmem
      rw [List.mem_append, List.mem_singleton]
      tauto
    · exact nomatch hmem
  ordered := h.ordered.sublist (List.filter_sublist.map _)
  old q hq := h.old q (hold q hq)

/-- A time event that is out of the list is freed. -/
theorem TimersHeld.free (h : TimersHeld [p] timers head fresh ts)
    (hp : p ∉ ts.map AeTimer.number) :
    TimersHeld [] (fun q => if q = p then none else timers q) head fresh ts where
  path := h.path.congr fun q hq => by
    have hne : q ≠ p := fun heq => hp (heq ▸ hq)
    rw [timerLinks, if_neg hne, timerLinks]
  stored t ht := by
    have hne : t.number ≠ p := fun heq => hp (heq ▸ List.mem_map_of_mem ht)
    rw [if_neg hne]
    exact h.stored t ht
  allocated q hq := by
    by_cases hqp : q = p
    · rw [if_pos hqp] at hq
      exact nomatch hq
    · rw [if_neg hqp] at hq
      exact .inl ((h.allocated q hq).resolve_right fun hmem => hqp (List.mem_singleton.mp hmem))
  ordered := h.ordered
  old q hq := by
    by_cases hqp : q = p
    · rw [if_pos hqp] at hq
      exact nomatch hq
    · rw [if_neg hqp] at hq
      exact h.old q hq

end

/-! ### Going through the list -/

section
variable {l : AeEventLoop κ δ} {o : Option Nat} {ts : List (AeTimer κ δ)} {fuel : Nat}

/-- A part of the list: the pointer to it and what is in it. -/
def TimersFrom (l : AeEventLoop κ δ) : Option Nat → List (AeTimer κ δ) → Prop
  | o, [] => o = none
  | o, t :: ts => o = some t.number ∧ ∃ next, l.timers t.number = some (t.event next) ∧
      TimersFrom l next ts

/-- The end of the list is a part of it. -/
theorem TimersFrom.of_path (hpath : Path (timerLinks l.timers) o (ts.map AeTimer.number) none)
    (hstored : ∀ t ∈ ts, ∃ next, l.timers t.number = some (t.event next)) : TimersFrom l o ts := by
  induction ts generalizing o with
  | nil => exact hpath
  | cons t ts ih =>
    obtain ⟨ho, next, hlink, hrest⟩ := hpath
    obtain ⟨next', hload⟩ := hstored t List.mem_cons_self
    obtain rfl : next' = next := by
      rw [timerLinks, hload] at hlink
      exact Option.some.inj hlink
    exact ⟨ho, next', hload, ih hrest fun s hs => hstored s (List.mem_cons_of_mem t hs)⟩

/-- The whole list. -/
theorem TimersHeld.timersFrom {extra : List Nat} {fresh : Nat}
    (h : TimersHeld extra l.timers o fresh ts) : TimersFrom l o ts :=
  .of_path h.path h.stored

/-- **Frame**: a part of the list does not depend on what is stored elsewhere. -/
theorem TimersFrom.congr {l' : AeEventLoop κ δ} (h : TimersFrom l o ts)
    (hsame : ∀ t ∈ ts, l'.timers t.number = l.timers t.number) : TimersFrom l' o ts := by
  induction ts generalizing o with
  | nil => exact h
  | cons t ts ih =>
    obtain ⟨ho, next, hload, hrest⟩ := h
    exact ⟨ho, next, (hsame t List.mem_cons_self).trans hload,
      ih hrest fun s hs => hsame s (List.mem_cons_of_mem t hs)⟩

/-- Loading what is there. -/
theorem loadTimer_of_some {p : Nat} {te : AeTimeEvent κ δ} (h : l.timers p = some te) :
    loadTimer l p = .ok te := by
  rw [loadTimer, h]

/-- **Unlinking**: the time event before it, or the head of the list, is linked to the one behind. -/
theorem unlinkTimer_returns {kept rest : List Nat} {p : Nat}
    (h : TimersHeld [] l.timers l.timeEventHead l.fresh ts)
    (hnum : ts.map AeTimer.number = kept ++ p :: rest) :
    Returns (unlinkTimer l kept.getLast? rest.head?) fun l' =>
      ∃ timers head, l' = { l with timers := timers, timeEventHead := head } ∧
        TimersHeld [p] timers head l.fresh (ts.filter fun s => s.number ≠ p) := by
  have hpath := h.path
  rw [hnum] at hpath
  obtain ⟨m, hkept, -, next, hlink, hrest⟩ := path_append_iff.mp hpath
  obtain rfl := hrest.head_eq
  rcases List.eq_nil_or_concat kept with rfl | ⟨ks, prev, rfl⟩
  · exact returns_ok ⟨l.timers, rest.head?, rfl, h.remove hnum hrest
      (fun q te hload => ⟨te.next, hload⟩) fun _ hq => hq⟩
  · have hnodup := h.nodup
    rw [hnum] at hnodup
    have hprev : prev ∉ rest ∧ prev ∉ ks := by
      simp only [List.concat_eq_append, List.append_assoc, List.cons_append, List.nil_append] at hnodup
      rw [List.nodup_middle, List.nodup_cons, List.mem_append, List.mem_cons] at hnodup
      tauto
    rw [List.concat_eq_append] at hkept hnum ⊢
    obtain ⟨t, ht, rfl⟩ : ∃ t ∈ ts, t.number = prev := by
      apply List.mem_map.mp
      rw [hnum]
      simp
    obtain ⟨next, hload⟩ := h.stored t ht
    rw [List.getLast?_concat, unlinkTimer, loadTimer_of_some hload]
    refine returns_ok ⟨_, _, rfl, h.remove hnum ?_ (fun q te hq => ?_) fun q hq => ?_⟩
    · -- the path up to it is turned to the rest
      refine path_append_iff.mpr ⟨rest.head?, hkept.relink hprev.2 ?_ (fun q hq => ?_), ?_⟩
      · rw [timerLinks, if_pos rfl]
        rfl
      · rw [timerLinks, if_neg hq, timerLinks]
      · refine hrest.congr fun q hq => ?_
        have hne : q ≠ t.number := fun heq => hprev.1 (heq ▸ hq)
        rw [timerLinks, if_neg hne, timerLinks]
    · split
      · next heq =>
        obtain rfl : t.event next = te := Option.some.inj ((heq ▸ hload).symm.trans hq)
        exact ⟨rest.head?, rfl⟩
      · exact ⟨te.next, hq⟩
    · by_cases heq : q = t.number
      · rw [heq, hload]
        rfl
      · rwa [if_neg heq] at hq

/-- The search of `aeDeleteTimeEvent`. -/
theorem deleteTimeEventLoop_returns (h : TimersFrom l o ts) (id : Int) (hfuel : ts.length < fuel) :
    Returns (deleteTimeEventLoop id fuel l o) fun r =>
      match ts.find? fun t => t.id = id with
      | none => r = (-1, l)
      | some t => ∃ next, l.timers t.number = some (t.event next) ∧
          r = (0, storeTimer l t.number (AeTimer.event { t with deleted := true } next)) := by
  induction fuel generalizing o ts with
  | zero => exact absurd hfuel (Nat.not_lt_zero _)
  | succ fuel ih =>
    cases ts with
    | nil =>
      obtain rfl : o = none := h
      exact returns_ok rfl
    | cons t ts =>
      obtain ⟨rfl, next, hload, hrest⟩ := h
      rw [deleteTimeEventLoop, loadTimer_of_some hload, exec_ok_bind]
      have hevent : (t.event next).id = t.id := rfl
      by_cases hid : t.id = id
      · rw [hevent, if_pos hid, List.find?_cons_of_pos (by rwa [decide_eq_true_eq])]
        exact returns_ok ⟨next, hload, rfl⟩
      · rw [hevent, if_neg hid, List.find?_cons_of_neg (by rwa [decide_eq_true_eq])]
        exact ih hrest (Nat.lt_of_succ_lt_succ hfuel)

/-- The search of `aeSearchNearestTimer`. -/
theorem searchNearestLoop_returns (h : TimersFrom l o ts) {nearest : Option (AeTimeEvent κ δ)}
    {n : Option (AeTimer κ δ)} (hn : nearest.map AeTimeEvent.when = n.map AeTimer.due)
    (hfuel : ts.length < fuel) :
    Returns (searchNearestLoop l fuel o nearest) fun r =>
      r.map AeTimeEvent.when = (ts.foldl AeSpecWorld.earlier n).map AeTimer.due := by
  induction fuel generalizing o ts nearest n with
  | zero => exact absurd hfuel (Nat.not_lt_zero _)
  | succ fuel ih =>
    cases ts with
    | nil =>
      obtain rfl : o = none := h
      exact returns_ok hn
    | cons t ts =>
      obtain ⟨rfl, next, hload, hrest⟩ := h
      rw [searchNearestLoop, loadTimer_of_some hload, exec_ok_bind, List.foldl_cons]
      refine ih hrest ?_ (Nat.lt_of_succ_lt_succ hfuel)
      have hwhen : (t.event next).when = t.due := rfl
      cases nearest with
      | none =>
        cases n with
        | none => rfl
        | some s => exact nomatch hn
      | some te =>
        cases n with
        | none => exact nomatch hn
        | some s =>
          have heq : te.when = s.due := Option.some.inj hn
          dsimp only [AeSpecWorld.earlier]
          rw [hwhen, heq]
          split
          · rfl
          · exact hn

/-- A timer that is due at any time. -/
def AeTimer.skewed (t : AeTimer κ δ) : AeTimer κ δ := { t with due := { t.due with sec := 0 } }

/-- The loop that makes every timer due. -/
theorem skewLoop_returns (h : TimersFrom l o ts) (hnodup : (ts.map AeTimer.number).Nodup)
    (hfuel : ts.length < fuel) :
    Returns (skewLoop fuel l o) fun l' =>
      ∃ timers, l' = { l with timers := timers } ∧
        (∀ p, p ∉ ts.map AeTimer.number → timers p = l.timers p) ∧
        ∀ t ∈ ts, ∀ next, l.timers t.number = some (t.event next) →
          timers t.number = some (t.skewed.event next) := by
  induction fuel generalizing l o ts with
  | zero => exact absurd hfuel (Nat.not_lt_zero _)
  | succ fuel ih =>
    cases ts with
    | nil =>
      obtain rfl : o = none := h
      exact returns_ok ⟨l.timers, rfl, fun _ _ => rfl, fun _ ht => nomatch ht⟩
    | cons t ts =>
      obtain ⟨rfl, next, hload, hrest⟩ := h
      rw [List.map_cons, List.nodup_cons] at hnodup
      rw [skewLoop, loadTimer_of_some hload, exec_ok_bind]
      have hne : ∀ s ∈ ts, s.number ≠ t.number := by
        intro s hs heq
        exact hnodup.1 (heq ▸ List.mem_map_of_mem hs)
      -- the rest of the list is elsewhere
      have hrest' : TimersFrom (storeTimer l t.number (t.skewed.event next)) next ts :=
        hrest.congr fun s hs => if_neg (hne s hs)
      apply (ih hrest' hnodup.2 (Nat.lt_of_succ_lt_succ hfuel)).imp
      rintro _ ⟨timers, rfl, hframe, hskewed⟩
      refine ⟨timers, rfl, fun p hp => ?_, fun s hs m hm => ?_⟩
      · rw [List.map_cons, List.mem_cons, not_or] at hp
        exact (hframe p hp.2).trans (if_neg hp.1)
      · rcases List.mem_cons.mp hs with rfl | hs
        · obtain rfl : next = m := congrArg AeTimeEvent.next (Option.some.inj (hload.symm.trans hm))
          exact (hframe s.number hnodup.1).trans (if_pos rfl)
        · exact hskewed s hs m ((if_neg (hne s hs)).trans hm)

/-- Every timer has been made due. -/
theorem TimersHeld.skew {extra : List Nat} {timers timers' : Nat → Option (AeTimeEvent κ δ)}
    {head : Option Nat} {fresh : Nat} (h : TimersHeld extra timers head fresh ts)
    (hframe : ∀ p, p ∉ ts.map AeTimer.number → timers' p = timers p)
    (hskewed : ∀ t ∈ ts, ∀ next, timers t.number = some (t.event next) →
      timers' t.number = some (t.skewed.event next)) :
    TimersHeld extra timers' head fresh (ts.map AeTimer.skewed) := by
  have hnumbers : (ts.map AeTimer.skewed).map AeTimer.number = ts.map AeTimer.number := by
    rw [List.map_map]
    rfl
  have hsame (p : Nat) : timerLinks timers' p = timerLinks timers p := by
    by_cases hp : p ∈ ts.map AeTimer.number
    · obtain ⟨t, ht, rfl⟩ := List.mem_map.mp hp
      obtain ⟨next, hload⟩ := h.stored t ht
      rw [timerLinks, timerLinks, hload, hskewed t ht next hload]
      rfl
    · rw [timerLinks, timerLinks, hframe p hp]
  have hsome (p : Nat) (hp : (timers' p).isSome = true) : (timers p).isSome = true := by
    have := congrArg Option.isSome (hsame p)
    rwa [timerLinks, timerLinks, Option.isSome_map, Option.isSome_map, hp, eq_comm] at this
  exact {
    path := hnumbers ▸ h.path.congr fun p _ => hsame p
    stored := by
      intro s hs
      obtain ⟨t, ht, rfl⟩ := List.mem_map.mp hs
      obtain ⟨next, hload⟩ := h.stored t ht
      exact ⟨next, hskewed t ht next hload⟩
    allocated := fun p hp => hnumbers ▸ h.allocated p (hsome p hp)
    ordered := hnumbers ▸ h.ordered
    old := fun p hp => h.old p (hsome p hp) }

end

end Wee
