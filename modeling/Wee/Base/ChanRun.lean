import Wee.Base.Chan
import Wee.Base.MqFifo
import Mathlib.Data.List.Basic

/-! # Runs of a channel

Two facts hold in every state a schedule can reach. The messages sent are those received and, behind
them, those in the queue, which is never above the bound. And the signals keep up: while a receiver
is blocked, every message in the queue has a notified receiver on its way, and while a sender is
blocked, every free slot has a notified sender. Both are kept by a section whoever makes it, so that
a thread that overtakes a woken one does no harm. -/

namespace Wee

open WaitSet

variable {τ : Type}

/-- The messages of the completed sends, in order. -/
def sentMsgs (evs : List ChanEvent) : List Msg :=
  evs.filterMap fun
    | .sent m => some m
    | _ => none

/-- What the completed receives have returned, in order; `none` is `false`. -/
def receivedMsgs (evs : List ChanEvent) : List (Option Msg) :=
  evs.filterMap fun
    | .received m => some m
    | _ => none

/-- **The channel between sends and receives**: the queue holds the messages `l`, which are the last
ones sent, and is within its bound. -/
structure ChanHolds (cap : Nat) (evs : List ChanEvent) (ch : Chan) (l : List Msg) : Prop where
  /-- The ring holds `l`. -/
  rep : MqRep ch.q l
  /-- The bound never changes. -/
  cap_eq : ch.cap = cap
  /-- What has been sent is what has been received and what is in the queue. -/
  fifo : (sentMsgs evs).map some = receivedMsgs evs ++ l.map some
  /-- The queue is within the bound, and the ring as it was created. -/
  bound : 0 < cap → l.length ≤ cap ∧ ch.q.cap = cap + 1

/-- **The invariant of a run**: the waiting calls are accounted for as well. -/
structure ChanInv (cap : Nat) (evs : List ChanEvent) (s : ChanSys τ) (l : List Msg) : Prop extends
    ChanHolds cap evs s.ch l where
  /-- Every message has a notified receiver while one is blocked. -/
  rcv : Accounted l.length s.rcv
  /-- Every free slot has a notified sender while one is blocked. -/
  snd : 0 < cap → Accounted (cap - l.length) s.snd

/-! ### Sections -/

section Sections

variable {cap : Nat} {evs : List ChanEvent} {l : List Msg}

/-- A step that shows nothing. -/
theorem ChanHolds.skip {ch : Chan} (h : ChanHolds cap evs ch l) :
    ChanHolds cap (evs ++ [.none]) ch l := by
  refine { h with fifo := ?_ }
  simpa [sentMsgs, receivedMsgs] using h.fifo

/-- `ch_send` waits only at the bound. -/
theorem ChanHolds.send_wait {ch : Chan} (h : ChanHolds cap evs ch l) {msg : Msg}
    (hwait : chSend ch msg = .ok none) : 0 < cap ∧ cap ≤ l.length := by
  rw [chSend, h.rep.count_eq, h.cap_eq] at hwait
  split at hwait
  · assumption
  · -- a section that gets past the loop pushes or aborts
    exfalso
    obtain ⟨-, -, hpush⟩ := exec_bind_eq_ok.mp hwait
    obtain ⟨q, -, hret⟩ := exec_bind_eq_ok.mp hpush
    cases hret

/-- `ch_send` adds its message to the queue. -/
theorem ChanHolds.send_push {ch ch' : Chan} (h : ChanHolds cap evs ch l) {msg : Msg}
    (hsend : chSend ch msg = .ok (some ch')) :
    ChanHolds cap (evs ++ [.sent msg]) ch' (l ++ [msg]) := by
  rw [chSend, h.rep.count_eq, h.cap_eq] at hsend
  split at hsend
  · cases hsend
  · rename_i hfree
    obtain ⟨-, -, hpush⟩ := exec_bind_eq_ok.mp hsend
    obtain ⟨q, hq, hret⟩ := exec_bind_eq_ok.mp hpush
    cases hret
    obtain ⟨hrep, hsame⟩ := h.rep.push_ok hq
    refine { rep := hrep, cap_eq := rfl, fifo := ?_, bound := fun hcap => ?_ }
    · have hfifo := h.fifo
      simp only [sentMsgs, receivedMsgs] at hfifo ⊢
      simp [hfifo]
    · -- the ring has `cap + 1` slots, so the last one stays free
      obtain ⟨-, hring⟩ := h.bound hcap
      rw [not_and, not_le] at hfree
      have hroom := hfree hcap
      rw [List.length_append, List.length_singleton]
      exact ⟨hroom, (hsame (by omega)).trans hring⟩

/-- `ch_recv` waits only on an empty queue. -/
theorem ChanHolds.recv_wait {ch : Chan} (h : ChanHolds cap evs ch l)
    (hwait : chRecv ch = .ok none) : l = [] := by
  rw [chRecv, h.rep.count_eq] at hwait
  split at hwait
  · rename_i hzero
    exact List.length_eq_zero_iff.mp hzero
  · exfalso
    obtain ⟨⟨m, q⟩, -, hret⟩ := exec_bind_eq_ok.mp hwait
    cases hret

/-- `ch_recv` takes the oldest message. -/
theorem ChanHolds.recv_pop {ch ch' : Chan} {m : Option Msg} (h : ChanHolds cap evs ch l)
    (hrecv : chRecv ch = .ok (some (m, ch'))) :
    ∃ m' l', l = m' :: l' ∧ ChanHolds cap (evs ++ [.received m]) ch' l' := by
  rw [chRecv, h.rep.count_eq] at hrecv
  split at hrecv
  · cases hrecv
  · rename_i hpos
    obtain ⟨⟨m₁, q⟩, hpop, hret⟩ := exec_bind_eq_ok.mp hrecv
    cases hret
    cases l with
    | nil => exact absurd rfl hpos
    | cons m' l =>
      obtain ⟨r, hr, hm, hrep, hcap⟩ := h.rep.pop_spec
      obtain rfl : r = (m, q) := Except.ok.inj (hr.symm.trans hpop)
      obtain rfl : m = some m' := hm
      refine ⟨m', l, rfl, { rep := hrep, cap_eq := h.cap_eq, fifo := ?_, bound := fun hpos => ?_ }⟩
      · have hfifo := h.fifo
        simp only [sentMsgs, receivedMsgs] at hfifo ⊢
        simp [hfifo]
      · obtain ⟨hle, hring⟩ := h.bound hpos
        rw [List.length_cons] at hle
        exact ⟨Nat.le_of_succ_le hle, hcap.trans hring⟩

/-- A section of `ch_send` aborts only when an unbounded queue outgrows `int`. -/
theorem ChanHolds.send_returns {ch : Chan} (h : ChanHolds cap evs ch l)
    (hint : cap = 0 → ch.q.cap * 2 < 2 ^ 31) (msg : Msg) : ∃ r, chSend ch msg = .ok r := by
  rw [chSend, h.rep.count_eq, h.cap_eq]
  split
  · exact ⟨none, rfl⟩
  · rename_i hfree
    rw [not_and, not_le] at hfree
    have hpush : ∃ q, mqPush ch.q msg = .ok q := by
      rcases Nat.lt_or_eq_of_le (Nat.succ_le_of_lt h.rep.length_lt) with hroom | hfull
      · obtain ⟨q, hq, -⟩ := h.rep.push_spec hroom msg
        exact ⟨q, hq⟩
      · rcases Nat.eq_zero_or_pos cap with hzero | hpos
        · obtain ⟨q, hq, -⟩ := h.rep.push_full_spec hfull (hint hzero) msg
          exact ⟨q, hq⟩
        · -- within the bound the last slot of the ring stays free
          obtain ⟨-, hring⟩ := h.bound hpos
          have hroom := hfree hpos
          omega
    obtain ⟨q, hq⟩ := hpush
    rw [cassert_bind_of hfree, hq]
    exact ⟨_, rfl⟩

/-- A section of `ch_recv` never aborts. -/
theorem ChanHolds.recv_returns {ch : Chan} (h : ChanHolds cap evs ch l) :
    ∃ r, chRecv ch = .ok r := by
  rw [chRecv, h.rep.count_eq]
  split
  · exact ⟨none, rfl⟩
  · rename_i hpos
    cases l with
    | nil => exact absurd rfl hpos
    | cons m l =>
      obtain ⟨r, hr, -⟩ := h.rep.pop_spec
      rw [hr]
      exact ⟨_, rfl⟩

/-- A section of `ch_send`, of a new caller or of one that has left the wait set: the free slot it
may take is not accounted for. -/
theorem sendSection_keeps {s s' : ChanSys τ} {t : τ} {msg : Msg} {pick : Nat} {e : ChanEvent}
    (h : ChanHolds cap evs s.ch l) (hrcv : Accounted l.length s.rcv)
    (hsnd : 0 < cap → Accounted (cap - l.length - 1) s.snd)
    (hstep : sendSection s t msg pick = .ok (e, s')) : ∃ l', ChanInv cap (evs ++ [e]) s' l' := by
  obtain ⟨r, hsend, hret⟩ := exec_bind_eq_ok.mp hstep
  cases r with
  | none =>
    cases hret
    obtain ⟨-, hfull⟩ := h.send_wait hsend
    refine ⟨l, { h.skip with rcv := hrcv, snd := fun _ => ?_ }⟩
    rw [Nat.sub_eq_zero_of_le hfull]
    exact accounted_zero _
  | some ch =>
    cases hret
    refine ⟨l ++ [msg], { h.send_push hsend with rcv := ?_, snd := fun hcap => ?_ }⟩
    · rw [List.length_append, List.length_singleton]
      exact hrcv.signal pick
    · rw [List.length_append, List.length_singleton, ← Nat.sub_sub]
      exact hsnd hcap

/-- A section of `ch_recv`, of a new caller or of one that has left the wait set: the message it may
take is not accounted for. -/
theorem recvSection_keeps {s s' : ChanSys τ} {t : τ} {pick : Nat} {e : ChanEvent}
    (h : ChanHolds cap evs s.ch l) (hrcv : Accounted (l.length - 1) s.rcv)
    (hsnd : 0 < cap → Accounted (cap - l.length) s.snd)
    (hstep : recvSection s t pick = .ok (e, s')) : ∃ l', ChanInv cap (evs ++ [e]) s' l' := by
  obtain ⟨r, hrecv, hret⟩ := exec_bind_eq_ok.mp hstep
  cases r with
  | none =>
    cases hret
    obtain rfl := h.recv_wait hrecv
    exact ⟨[], { h.skip with rcv := accounted_zero _, snd := hsnd }⟩
  | some r =>
    obtain ⟨m, ch⟩ := r
    cases hret
    obtain ⟨m', l, rfl, hholds⟩ := h.recv_pop hrecv
    refine ⟨l, { hholds with rcv := hrcv, snd := fun hcap => ?_ }⟩
    -- the slot that has become free is the one `snd_cond` is signalled for
    dsimp only
    rw [h.cap_eq, if_pos hcap]
    refine ((hsnd hcap).signal pick).mono ?_
    rw [List.length_cons]
    omega

end Sections

/-! ### Schedules -/

/-- **Every step keeps the invariant.** -/
theorem chanStep_keeps {cap : Nat} {evs : List ChanEvent} {s s' : ChanSys τ} {l : List Msg}
    {a : ChanAct τ} {e : ChanEvent} (h : ChanInv cap evs s l) (hstep : chanStep s a = .ok (e, s')) :
    ∃ l', ChanInv cap (evs ++ [e]) s' l' := by
  cases a with
  | send t msg pick =>
    exact sendSection_keeps h.toChanHolds h.rcv
      (fun hcap => (h.snd hcap).mono (Nat.sub_le _ _)) hstep
  | recv t pick =>
    exact recvSection_keeps h.toChanHolds (h.rcv.mono (Nat.sub_le _ _)) h.snd hstep
  | sendWoken i k pick =>
    rw [chanStep] at hstep
    split at hstep
    · cases hstep
      exact ⟨l, { h.skip with rcv := h.rcv, snd := h.snd }⟩
    · rename_i t msg snd hres
      exact sendSection_keeps (s := { s with snd := snd }) h.toChanHolds h.rcv
        (fun hcap => (h.snd hcap).resume hres) hstep
  | recvWoken i k pick =>
    rw [chanStep] at hstep
    split at hstep
    · cases hstep
      exact ⟨l, { h.skip with rcv := h.rcv, snd := h.snd }⟩
    · rename_i t rcv hres
      exact recvSection_keeps (s := { s with rcv := rcv }) h.toChanHolds (h.rcv.resume hres) h.snd
        hstep
  | spuriousSend i =>
    cases hstep
    exact ⟨l, { h.skip with rcv := h.rcv, snd := fun hcap => (h.snd hcap).wakeUp i }⟩
  | spuriousRecv i =>
    cases hstep
    exact ⟨l, { h.skip with rcv := h.rcv.wakeUp i, snd := h.snd }⟩

/-- A section of `ch_send` returns when `ch_send` does. -/
theorem sendSection_returns {s : ChanSys τ} {msg : Msg} (h : ∃ r, chSend s.ch msg = .ok r) (t : τ)
    (pick : Nat) : ∃ r, sendSection s t msg pick = .ok r := by
  obtain ⟨r, hr⟩ := h
  rw [sendSection, hr]
  cases r with
  | none => exact ⟨_, rfl⟩
  | some ch => exact ⟨_, rfl⟩

/-- A section of `ch_recv` returns when `ch_recv` does. -/
theorem recvSection_returns {s : ChanSys τ} (h : ∃ r, chRecv s.ch = .ok r) (t : τ) (pick : Nat) :
    ∃ r, recvSection s t pick = .ok r := by
  obtain ⟨r, hr⟩ := h
  rw [recvSection, hr]
  cases r with
  | none => exact ⟨_, rfl⟩
  | some r => exact ⟨_, rfl⟩

/-- **No step aborts**, as long as an unbounded queue stays within `int`. -/
theorem chanStep_returns {cap : Nat} {evs : List ChanEvent} {s : ChanSys τ} {l : List Msg}
    (h : ChanInv cap evs s l) (hint : cap = 0 → s.ch.q.cap * 2 < 2 ^ 31) (a : ChanAct τ) :
    ∃ r, chanStep s a = .ok r := by
  cases a with
  | send t msg pick => exact sendSection_returns (h.send_returns hint msg) t pick
  | recv t pick => exact recvSection_returns h.recv_returns t pick
  | sendWoken i k pick =>
    rw [chanStep]
    split
    · exact ⟨_, rfl⟩
    · rename_i t msg snd hres
      exact sendSection_returns (s := { s with snd := snd }) (h.send_returns hint msg) t pick
  | recvWoken i k pick =>
    rw [chanStep]
    split
    · exact ⟨_, rfl⟩
    · rename_i t rcv hres
      exact recvSection_returns (s := { s with rcv := rcv }) h.recv_returns t pick
  | spuriousSend i => exact ⟨_, rfl⟩
  | spuriousRecv i => exact ⟨_, rfl⟩

/-- A new channel satisfies the invariant. -/
theorem chanStart_inv {cap : Int32} {ch : Chan} (hcreate : chCreate cap = .ok ch) :
    ChanInv cap.toInt.toNat [] (chanStart ch : ChanSys τ) [] := by
  obtain ⟨u, hassert, hmq⟩ := exec_bind_eq_ok.mp hcreate
  obtain ⟨q, hq, hret⟩ := exec_bind_eq_ok.mp hmq
  cases hret
  have hnonneg : 0 ≤ cap.toInt := by
    by_contra hneg
    rw [cassert_of_not hneg] at hassert
    cases hassert
  have hpos : 0 < (cap + 1).toInt := by
    by_contra hneg
    rw [mqCreate, cassert_bind_of_not hneg] at hq
    cases hq
  obtain ⟨q₁, hq₁, hrep, hring⟩ := mqCreate_spec hpos
  obtain rfl : q₁ = q := Except.ok.inj (hq₁.symm.trans hq)
  refine { rep := hrep, cap_eq := rfl, fifo := rfl, bound := fun _ => ⟨Nat.zero_le _, ?_⟩,
           rcv := accounted_empty _, snd := fun _ => accounted_empty _ }
  -- a sum that has wrapped around would be negative
  have hlt := cap.toInt_lt
  have hone : (1 : Int32).toInt = 1 := by decide
  have hsum : (cap + 1).toInt = cap.toInt + 1 := by
    rw [Int32.toInt_add, hone] at hpos ⊢
    rcases Int.lt_or_le (cap.toInt + 1) (2 ^ 31) with hsmall | hlarge
    · exact Int.bmod_eq_of_le (by omega) (by omega)
    · have hmax : cap.toInt + 1 = 2 ^ 31 := by omega
      rw [hmax] at hpos
      exact absurd hpos (by decide)
  show q₁.cap = cap.toInt.toNat + 1
  rw [hring, hsum]
  omega

/-- The invariant holds whatever the schedule. -/
theorem chanRun_inv {cap : Int32} {ch : Chan} (hcreate : chCreate cap = .ok ch)
    {acts : List (ChanAct τ)} {evs : List ChanEvent} {s : ChanSys τ}
    (hrun : runOps chanStep (chanStart ch) acts = .ok (evs, s)) :
    ∃ l, ChanInv cap.toInt.toNat evs s l := by
  refine runOps_invariant_of_step (I := fun evs s => ∃ l, ChanInv cap.toInt.toNat evs s l) ?_
    ⟨[], chanStart_inv hcreate⟩ hrun
  rintro evs s a e s' ⟨l, h⟩ hstep
  exact chanStep_keeps h hstep

/-- **A channel delivers in order, once and within its bound**, whatever the schedule: every
`ch_recv` that has returned has returned `true`, the messages received are the first ones sent, the
others are in the queue, and a bounded queue stays within its bound and its ring as it was created.
A next step returns too, unless an unbounded queue outgrows `int`. -/
theorem chan_delivers_in_order (τ : Type) (cap : Int32) (ch : Chan) (acts : List (ChanAct τ))
    (evs : List ChanEvent) (s : ChanSys τ) (hcreate : chCreate cap = .ok ch)
    (hrun : runOps chanStep (chanStart ch) acts = .ok (evs, s)) :
    (∃ rcvd l, receivedMsgs evs = rcvd.map some ∧ sentMsgs evs = rcvd ++ l
        ∧ RingHolds s.ch.q.q s.ch.q.head l ∧ mqCount s.ch.q = l.length)
      ∧ (0 < cap.toInt →
        (mqCount s.ch.q : Int) ≤ cap.toInt ∧ (s.ch.q.cap : Int) = cap.toInt + 1)
      ∧ ∀ a, (cap.toInt = 0 → s.ch.q.cap * 2 < 2 ^ 31) → ∃ r, chanStep s a = .ok r := by
  obtain ⟨l, h⟩ := chanRun_inv hcreate hrun
  refine ⟨?_, fun hpos => ?_, fun a hint => ?_⟩
  · obtain ⟨rcvd, rest, hsent, hrcvd, hrest⟩ := List.map_eq_append_iff.mp h.fifo
    obtain rfl : rest = l := List.map_injective_iff.mpr (Option.some_injective Msg) hrest
    exact ⟨rcvd, rest, hrcvd.symm, hsent, h.rep.holds, h.rep.count_eq⟩
  · obtain ⟨hle, hring⟩ := h.bound (by omega)
    rw [h.rep.count_eq]
    omega
  · have hnonneg : 0 ≤ cap.toInt := by
      by_contra hneg
      rw [chCreate, cassert_bind_of_not hneg] at hcreate
      cases hcreate
    exact chanStep_returns h (fun hzero => hint (by omega)) a

/-- A receiver waits and is woken by a first send; a second sender finds the channel full, waits,
wakes up too early, waits again and is notified by the receiver. -/
def handOver : List (ChanAct Nat) :=
  [.recv 0 0, .send 1 ⟨7, 0⟩ 0, .send 2 ⟨8, 0⟩ 0, .spuriousSend 0, .sendWoken 0 .spurious 0,
    .recvWoken 0 .notified 0, .sendWoken 0 .notified 0]

/-- That schedule on a channel of capacity 1. -/
theorem chan_delivers_in_order_one :
    ∃ ch evs s, chCreate 1 = .ok ch ∧ runOps chanStep (chanStart ch) handOver = .ok (evs, s)
      ∧ (∃ rcvd l, receivedMsgs evs = rcvd.map some ∧ sentMsgs evs = rcvd ++ l
          ∧ RingHolds s.ch.q.q s.ch.q.head l ∧ mqCount s.ch.q = l.length)
      ∧ (0 < (1 : Int32).toInt →
        (mqCount s.ch.q : Int) ≤ (1 : Int32).toInt ∧ (s.ch.q.cap : Int) = (1 : Int32).toInt + 1)
      ∧ ∀ a, ((1 : Int32).toInt = 0 → s.ch.q.cap * 2 < 2 ^ 31) → ∃ r, chanStep s a = .ok r :=
  ⟨_, _, _, rfl, rfl, chan_delivers_in_order Nat 1 _ handOver _ _ rfl rfl⟩

/-- **No wake-up is lost in a channel**, whatever the schedule: no receiver stays blocked at a queue
that is not empty, and no sender at a free slot, without a notified one that still has to run. -/
theorem chan_no_lost_wakeup (τ : Type) (cap : Int32) (ch : Chan) (acts : List (ChanAct τ))
    (evs : List ChanEvent) (s : ChanSys τ) (hcreate : chCreate cap = .ok ch)
    (hrun : runOps chanStep (chanStart ch) acts = .ok (evs, s)) :
    ¬ (0 < mqCount s.ch.q ∧ s.rcv.blocked ≠ [] ∧ s.rcv.notified = [])
      ∧ (0 < cap.toInt →
        ¬ ((mqCount s.ch.q : Int) < cap.toInt ∧ s.snd.blocked ≠ [] ∧ s.snd.notified = [])) := by
  obtain ⟨l, h⟩ := chanRun_inv hcreate hrun
  rw [h.rep.count_eq]
  constructor
  · rintro ⟨hpos, hblocked, hnone⟩
    exact h.rcv.notified_ne_nil hpos hblocked hnone
  · rintro hcap ⟨hfree, hblocked, hnone⟩
    exact (h.snd (by omega)).notified_ne_nil (by omega) hblocked hnone

/-- Two receivers wait, the first message notifies one of them, a third receiver takes it, and a
second message notifies the other one. -/
def overtaken : List (ChanAct Nat) :=
  [.recv 0 0, .recv 1 0, .send 2 ⟨7, 0⟩ 1, .recv 3 0, .send 2 ⟨8, 0⟩ 0]

/-- That schedule on a channel of capacity 1. -/
theorem chan_no_lost_wakeup_overtaken :
    ∃ ch evs s, chCreate 1 = .ok ch ∧ runOps chanStep (chanStart ch) overtaken = .ok (evs, s)
      ∧ ¬ (0 < mqCount s.ch.q ∧ s.rcv.blocked ≠ [] ∧ s.rcv.notified = [])
      ∧ (0 < (1 : Int32).toInt →
        ¬ ((mqCount s.ch.q : Int) < (1 : Int32).toInt ∧ s.snd.blocked ≠ []
          ∧ s.snd.notified = [])) :=
  ⟨_, _, _, rfl, rfl, chan_no_lost_wakeup Nat 1 _ overtaken _ _ rfl rfl⟩

end Wee
