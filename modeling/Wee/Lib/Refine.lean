import Wee.Lib.Exec
import Mathlib.Data.List.Induction

/-! # Runs of an interface and forward simulation

A component is a step function on states: each call of its interface either faults or returns a
result and a new state. A specification is a relation between abstract states, one for each call and
result. This file has runs on both sides and the rule that lifts a simulation of single calls to
whole runs. -/

namespace Wee

variable {σ τ op ret : Type}

/-- Make the calls in order, collecting the results. -/
def runOps (step : σ → op → Exec (ret × σ)) : σ → List op → Exec (List ret × σ)
  | s, [] => .ok ([], s)
  | s, o :: os => do
    let (r, s) ← step s o
    let (rs, s) ← runOps step s os
    return (r :: rs, s)

/-- Every call meets its precondition in the state it is made in. -/
def Admissible (step : σ → op → Exec (ret × σ)) (pre : σ → op → Prop) : σ → List op → Prop
  | _, [] => True
  | s, o :: os => pre s o ∧ ∀ r s', step s o = .ok (r, s') → Admissible step pre s' os

/-- Admissibility of a concrete run is decided by making the calls. -/
instance instDecidableAdmissible (step : σ → op → Exec (ret × σ)) (pre : σ → op → Prop)
    [∀ s o, Decidable (pre s o)] : ∀ s os, Decidable (Admissible step pre s os)
  | _, [] => .isTrue trivial
  | s, o :: os =>
    match hstep : step s o with
    | .error _ => decidable_of_iff (pre s o)
        ⟨fun h => ⟨h, fun _ _ hok => nomatch hstep.symm.trans hok⟩, fun h => h.1⟩
    | .ok (r, s') =>
      haveI := instDecidableAdmissible step pre s' os
      decidable_of_iff (pre s o ∧ Admissible step pre s' os)
        ⟨fun h => ⟨h.1, fun _ _ hok => by cases hstep.symm.trans hok; exact h.2⟩,
          fun h => ⟨h.1, h.2 r s' hstep⟩⟩

/-- A run of the specification: the calls with their results, from one abstract state to another. -/
inductive SpecRun (spec : τ → op → ret → τ → Prop) : τ → List op → List ret → τ → Prop
  /-- No call. -/
  | nil (q : τ) : SpecRun spec q [] [] q
  /-- One call, then the rest. -/
  | cons {q q' q'' : τ} {o : op} {r : ret} {os : List op} {rs : List ret} :
      spec q o r q' → SpecRun spec q' os rs q'' → SpecRun spec q (o :: os) (r :: rs) q''

/-- **Forward simulation** up to `R`: from related states an admissible call returns, the
specification allows its result, and the new states are related. -/
def Simulates (step : σ → op → Exec (ret × σ)) (pre : σ → op → Prop)
    (spec : τ → op → ret → τ → Prop) (R : σ → τ → Prop) : Prop :=
  ∀ s q o, R s q → pre s o →
    Returns (step s o) fun p => ∃ q', spec q o p.1 q' ∧ R p.2 q'

/-- **A simulation lifts to runs**: from related states an admissible run never faults and is
matched by a run of the specification with the same results, ending in related states. -/
theorem Simulates.run {step : σ → op → Exec (ret × σ)} {pre : σ → op → Prop}
    {spec : τ → op → ret → τ → Prop} {R : σ → τ → Prop} (hsim : Simulates step pre spec R)
    (os : List op) {s : σ} {q : τ} (hR : R s q) (hadm : Admissible step pre s os) :
    Returns (runOps step s os) fun p => ∃ q', SpecRun spec q os p.1 q' ∧ R p.2 q' := by
  induction os generalizing s q with
  | nil => exact returns_ok ⟨q, .nil q, hR⟩
  | cons o os ih =>
    obtain ⟨hpre, hrest⟩ := hadm
    obtain ⟨⟨r, s'⟩, hstep, q', hspec, hR'⟩ := hsim s q o hR hpre
    obtain ⟨⟨rs, s''⟩, hrun, q'', hspec', hR''⟩ := ih hR' (hrest r s' hstep)
    refine ⟨(r :: rs, s''), ?_, q'', .cons hspec hspec', hR''⟩
    dsimp only at hrun
    simp only [runOps, hstep, exec_ok_bind, hrun, exec_pure]

/-- A specification run splits where its calls split. -/
theorem SpecRun.append_inv {spec : τ → op → ret → τ → Prop} {os os' : List op} {q q' : τ}
    {rs : List ret} (h : SpecRun spec q (os ++ os') rs q') :
    ∃ q'' rs', SpecRun spec q'' os' rs' q' ∧ rs' = rs.drop os.length := by
  induction os generalizing q rs with
  | nil => exact ⟨q, rs, h, rfl⟩
  | cons o os ih =>
    cases h with
    | cons _ hrest => exact ih hrest

/-! ### Invariants of runs

The results of a run are its trace. An invariant relates the trace so far to the state; it holds of
every run when the empty trace satisfies it and each call keeps it. -/

/-- **Invariant rule**: what each admissible call keeps holds at the end of an admissible run. -/
theorem runOps_invariant {step : σ → op → Exec (ret × σ)} {pre : σ → op → Prop}
    {I : List ret → σ → Prop}
    (hstep : ∀ rs s o r s', I rs s → pre s o → step s o = .ok (r, s') → I (rs ++ [r]) s')
    {os : List op} {s s' : σ} {rs₀ rs : List ret} (h : I rs₀ s) (hadm : Admissible step pre s os)
    (hrun : runOps step s os = .ok (rs, s')) : I (rs₀ ++ rs) s' := by
  induction os generalizing s rs₀ rs with
  | nil =>
    cases hrun
    rwa [List.append_nil]
  | cons o os ih =>
    obtain ⟨⟨r, s₁⟩, hone, hrest⟩ := exec_bind_eq_ok.mp hrun
    obtain ⟨⟨rs₁, s₂⟩, hmany, heq⟩ := exec_bind_eq_ok.mp hrest
    cases heq
    rw [List.append_cons]
    exact ih (hstep rs₀ s o r s₁ h hadm.1 hone) (hadm.2 r s₁ hone) hmany

/-- The invariant rule for states. -/
theorem runOps_invariant_state {step : σ → op → Exec (ret × σ)} {pre : σ → op → Prop} {I : σ → Prop}
    (hstep : ∀ s o r s', I s → pre s o → step s o = .ok (r, s') → I s')
    {os : List op} {s s' : σ} {rs : List ret} (h : I s) (hadm : Admissible step pre s os)
    (hrun : runOps step s os = .ok (rs, s')) : I s' := by
  -- the trace does not matter
  exact @runOps_invariant σ op ret step pre (fun _ s => I s) (fun _ s o r s' => hstep s o r s') os s s'
    [] rs h hadm hrun

/-- Without a precondition every run is admissible. -/
theorem admissible_true (step : σ → op → Exec (ret × σ)) (s : σ) (os : List op) :
    Admissible step (fun _ _ => True) s os := by
  induction os generalizing s with
  | nil => trivial
  | cons o os ih => exact ⟨trivial, fun _ s' _ => ih s'⟩

/-- The invariant rule for calls without a precondition. -/
theorem runOps_invariant_of_step {step : σ → op → Exec (ret × σ)} {I : List ret → σ → Prop}
    (hstep : ∀ rs s o r s', I rs s → step s o = .ok (r, s') → I (rs ++ [r]) s')
    {os : List op} {s s' : σ} {rs : List ret} (h : I [] s)
    (hrun : runOps step s os = .ok (rs, s')) : I rs s' :=
  runOps_invariant (fun rs s o r s' hI _ => hstep rs s o r s' hI) h (admissible_true step s os) hrun

/-- A run goes on where it has come to. -/
theorem runOps_append (step : σ → op → Exec (ret × σ)) (s : σ) (os os' : List op) :
    runOps step s (os ++ os') = (do
      let (rs, s) ← runOps step s os
      let (rs', s) ← runOps step s os'
      return (rs ++ rs', s)) := by
  induction os generalizing s with
  | nil =>
    simp only [List.nil_append, runOps, exec_ok_bind, exec_pure]
    cases runOps step s os' with
    | error e => rfl
    | ok p => rfl
  | cons o os ih =>
    rw [List.cons_append, runOps, runOps]
    cases step s o with
    | error e => rfl
    | ok p =>
      simp only [exec_ok_bind, ih, bind_assoc, exec_pure, List.cons_append]

/-- A run and one more call. -/
theorem runOps_concat_ok {step : σ → op → Exec (ret × σ)} {s s' : σ} {o : op} {os : List op}
    {rs : List ret} (hrun : runOps step s (os ++ [o]) = .ok (rs, s')) :
    ∃ rs₁ s₁ r, runOps step s os = .ok (rs₁, s₁) ∧ step s₁ o = .ok (r, s') := by
  rw [runOps_append] at hrun
  obtain ⟨⟨rs₁, s₁⟩, hos, hrun⟩ := exec_bind_eq_ok.mp hrun
  obtain ⟨⟨rs₂, s₂⟩, hlast, hret⟩ := exec_bind_eq_ok.mp hrun
  obtain ⟨⟨r, s₃⟩, hone, hlast⟩ := exec_bind_eq_ok.mp hlast
  cases hlast
  cases hret
  exact ⟨rs₁, s₁, r, hos, hone⟩

/-- **The steps decide the points**: where a step from a state that satisfies `I` comes to one that
does exactly when `C` allows the step, every point of a run satisfies `I` exactly when `C` allows
every step. -/
theorem runOps_points_iff {step : σ → op → Exec (ret × σ)} {I : σ → Prop} {C : σ → op → Prop}
    (hstep : ∀ s o r s', I s → step s o = .ok (r, s') → (I s' ↔ C s o)) {s : σ} (h : I s)
    (os : List op) :
    (∀ before after rs t, os = before ++ after → runOps step s before = .ok (rs, t) → I t) ↔
      ∀ before o after rs t r t', os = before ++ o :: after →
        runOps step s before = .ok (rs, t) → step t o = .ok (r, t') → C t o := by
  constructor
  · intro hall before o after rs t r t' heq hrun hone
    have ht := hall before (o :: after) rs t heq hrun
    refine (hstep t o r t' ht hone).mp (hall (before ++ [o]) after (rs ++ [r]) t' ?_ ?_)
    · rw [heq, List.append_assoc, List.singleton_append]
    · simp only [runOps_append, hrun, exec_ok_bind, runOps, hone, exec_pure]
  · intro hall before
    -- from the last step to the first
    induction before using List.reverseRecOn with
    | nil =>
      intro after rs t _ hrun
      cases hrun
      exact h
    | append_singleton before o ih =>
      intro after rs t heq hrun
      obtain ⟨rs₁, s₁, r, hbefore, hone⟩ := runOps_concat_ok hrun
      rw [List.append_assoc, List.singleton_append] at heq
      exact (hstep s₁ o r t (ih (o :: after) rs₁ s₁ heq hbefore) hone).mpr
        (hall before o after rs₁ s₁ r t heq hbefore hone)

/-- **Run rule with the calls made so far**: a run returns and keeps the invariant when each call
does. A step may use that its call stands in the list of all calls, behind those made before. -/
theorem runOps_returns_calls {step : σ → op → Exec (ret × σ)} {pre : σ → op → Prop}
    {I : List op → List ret → σ → Prop} {os : List op}
    (hstep : ∀ before o after rs s, os = before ++ o :: after → I before rs s → pre s o →
      Returns (step s o) fun p => I (before ++ [o]) (rs ++ [p.1]) p.2)
    {s : σ} (h : I [] [] s) (hadm : Admissible step pre s os) :
    Returns (runOps step s os) fun p => I os p.1 p.2 := by
  -- the induction is on the calls that are left
  have hgen : ∀ after before rs s, os = before ++ after → I before rs s →
      Admissible step pre s after → Returns (runOps step s after) fun p => I os (rs ++ p.1) p.2 := by
    intro after
    induction after with
    | nil =>
      intro before rs s heq hI _
      rw [List.append_nil] at heq
      refine returns_ok ?_
      rw [heq, List.append_nil]
      exact hI
    | cons o after ih =>
      intro before rs s heq hI hadm
      obtain ⟨⟨r, s₁⟩, hone, hI₁⟩ := hstep before o after rs s heq hI hadm.1
      rw [List.append_cons] at heq
      obtain ⟨⟨rs₁, s₂⟩, hmany, hI₂⟩ := ih (before ++ [o]) (rs ++ [r]) s₁ heq hI₁ (hadm.2 r s₁ hone)
      rw [List.append_assoc] at hI₂
      refine ⟨(r :: rs₁, s₂), ?_, hI₂⟩
      simp only [runOps, hone, exec_ok_bind, hmany, exec_pure]
  exact hgen os [] [] s rfl h hadm

/-! ### Runs with fuel -/

/-- **The rest of a run decides it**: behind a first call that settles, the run settles as its rest
does. -/
theorem settles_runOps_cons {step : Nat → σ → op → Exec (ret × σ)} {s s' : σ} {o : op} {r : ret}
    {os : List op} {N : Nat} (hstep : ∀ fuel, N ≤ fuel → step fuel s o = .ok (r, s'))
    {Q : σ → Prop} :
    Settles (fun fuel => runOps (step fuel) s (o :: os)) (fun p => Q p.2) ↔
      Settles (fun fuel => runOps (step fuel) s' os) (fun p => Q p.2) := by
  have hcons (fuel : Nat) (hfuel : N ≤ fuel) : runOps (step fuel) s (o :: os)
      = runOps (step fuel) s' os >>= fun p => .ok (r :: p.1, p.2) := by
    rw [runOps, hstep fuel hfuel, exec_ok_bind]
    rfl
  constructor
  · rintro ⟨M, p, hp, hQ⟩
    have hrest (fuel : Nat) (hfuel : max N M ≤ fuel) :
        ∃ q, runOps (step fuel) s' os = .ok q ∧ (r :: q.1, q.2) = p := by
      have hok := hp fuel (le_trans (le_max_right N M) hfuel)
      dsimp only at hok
      rw [hcons fuel (le_trans (le_max_left N M) hfuel)] at hok
      obtain ⟨q, hq, heq⟩ := exec_bind_eq_ok.mp hok
      exact ⟨q, hq, Except.ok.inj heq⟩
    refine ⟨max N M, (p.1.tail, p.2), fun fuel hfuel => ?_, hQ⟩
    obtain ⟨q, hq, rfl⟩ := hrest fuel hfuel
    exact hq
  · rintro ⟨M, p, hp, hQ⟩
    refine ⟨max N M, (r :: p.1, p.2), fun fuel hfuel => ?_, hQ⟩
    show runOps (step fuel) s (o :: os) = .ok (r :: p.1, p.2)
    rw [hcons fuel (le_trans (le_max_left N M) hfuel)]
    rw [show runOps (step fuel) s' os = .ok p from hp fuel (le_trans (le_max_right N M) hfuel)]
    rfl

/-! ### Two components in lockstep

Two implementations of one interface agree when they fault alike, at the same call, and return the
same results up to there. -/

/-- `x` and `y` fault alike, or return related values. -/
def Lockstep {α β : Type} (R : α → β → Prop) : Exec α → Exec β → Prop
  | .ok a, .ok b => R a b
  | .error e, .error f => e = f
  | _, _ => False

section Lockstep

variable {α β γ δ : Type} {R : α → β → Prop} {x : Exec α} {y : Exec β}

/-- **Sequencing rule.** -/
theorem Lockstep.bind {S : γ → δ → Prop} {f : α → Exec γ} {g : β → Exec δ} (h : Lockstep R x y)
    (hfg : ∀ a b, R a b → Lockstep S (f a) (g b)) : Lockstep S (x >>= f) (y >>= g) := by
  cases x with
  | error e =>
    cases y with
    | error e' => exact h
    | ok b => cases h
  | ok a =>
    cases y with
    | error e' => cases h
    | ok b => exact hfg a b h

/-- **Consequence rule.** -/
theorem Lockstep.imp {S : α → β → Prop} (h : Lockstep R x y) (hRS : ∀ a b, R a b → S a b) :
    Lockstep S x y := by
  cases x with
  | error e =>
    cases y with
    | error e' => exact h
    | ok b => cases h
  | ok a =>
    cases y with
    | error e' => cases h
    | ok b => exact hRS a b h

/-- **Assertion rule**: both sides assert the same. -/
theorem lockstep_cassert_bind {p q : Prop} [Decidable p] [Decidable q] {f : Unit → Exec α}
    {g : Unit → Exec β} (hpq : p ↔ q) (h : p → Lockstep R (f ()) (g ())) :
    Lockstep R (cassert p >>= f) (cassert q >>= g) := by
  by_cases hp : p
  · rw [cassert_bind_of hp, cassert_bind_of (hpq.mp hp)]
    exact h hp
  · rw [cassert_bind_of_not hp, cassert_bind_of_not (mt hpq.mpr hp)]
    exact (rfl : Fault.assertFailed = Fault.assertFailed)

/-- **Sequencing rule** behind the same computation. -/
theorem lockstep_bind_same {ε : Type} (z : Exec ε) {f : ε → Exec α} {g : ε → Exec β}
    (h : ∀ c, z = .ok c → Lockstep R (f c) (g c)) : Lockstep R (z >>= f) (z >>= g) := by
  cases z with
  | error e => exact (rfl : e = e)
  | ok c => exact h c rfl

end Lockstep

/-- The results of the calls in order, up to the first fault. -/
def traceOps (step : σ → op → Exec (ret × σ)) : σ → List op → List (Exec ret)
  | _, [] => []
  | s, o :: os =>
    match step s o with
    | .error e => [.error e]
    | .ok (r, s) => .ok r :: traceOps step s os

/-- **Lockstep rule for runs**: from related states the two components show the same trace. -/
theorem traceOps_eq {step : σ → op → Exec (ret × σ)} {step' : τ → op → Exec (ret × τ)}
    {pre : σ → op → Prop} {R : σ → τ → Prop}
    (hstep : ∀ s t o, R s t → pre s o →
      Lockstep (fun p q => p.1 = q.1 ∧ R p.2 q.2) (step s o) (step' t o))
    {s : σ} {t : τ} (h : R s t) {os : List op} (hadm : Admissible step pre s os) :
    traceOps step s os = traceOps step' t os := by
  induction os generalizing s t with
  | nil => rfl
  | cons o os ih =>
    have hone := hstep s t o h hadm.1
    have hrest := hadm.2
    rw [traceOps, traceOps]
    cases hs : step s o with
    | error e =>
      cases ht : step' t o with
      | error e' =>
        rw [hs, ht] at hone
        rw [show e = e' from hone]
      | ok q =>
        rw [hs, ht] at hone
        cases hone
    | ok p =>
      cases ht : step' t o with
      | error e' =>
        rw [hs, ht] at hone
        cases hone
      | ok q =>
        rw [hs, ht] at hone
        obtain ⟨hret, hrel⟩ := hone
        dsimp only
        rw [hret, ih hrel (hrest p.1 p.2 hs)]

end Wee
