import Wee.Base.Mq
import Wee.Lib.Refine

/-! # The message queue is a FIFO

`MqRep q l` relates a ring to the messages it holds, the oldest first. Every operation has a lemma
in these terms; a push into a ring with one free slot left fills it, so `head` meets `tail`, and the
copy of `mq_expand` takes the messages in order. The lemmas together are a simulation of the
unbounded FIFO. -/

namespace Wee

/-- The ring `q` holds the messages `l`, the oldest first. -/
structure MqRep (q : Mq) (l : List Msg) : Prop where
  /-- `head` is an index. -/
  head_lt : q.head < q.cap
  /-- `tail` is behind the last message. -/
  tail_eq : q.tail = (q.head + l.length) % q.cap
  /-- One slot stays free. -/
  length_lt : l.length < q.cap
  /-- There are `cap` slots. -/
  length_q : q.q.length = q.cap
  /-- The messages are in the slots from `head` on. -/
  holds : RingHolds q.q q.head l

section Reads

variable {q : Mq} {l : List Msg}

/-- `tail` is an index. -/
theorem MqRep.tail_lt (h : MqRep q l) : q.tail < q.cap := by
  rw [h.tail_eq]
  exact Nat.mod_lt _ (Nat.zero_lt_of_lt h.head_lt)

/-- **`head = tail` means empty.** -/
theorem MqRep.head_eq_tail_iff (h : MqRep q l) : q.head = q.tail ↔ l = [] := by
  have hlt := h.length_lt
  rw [eq_comm, h.tail_eq, ringIndex_eq_head h.head_lt (Nat.le_of_lt hlt), ← List.length_eq_zero_iff]
  omega

/-- `mq_count` is the number of messages. -/
theorem MqRep.count_eq (h : MqRep q l) : mqCount q = l.length := by
  have hhead := h.head_lt
  have hlen := h.length_lt
  have htail := h.tail_eq
  unfold mqCount
  rcases Nat.lt_or_ge (q.head + l.length) q.cap with hlt | hge
  · rw [Nat.mod_eq_of_lt hlt] at htail
    rw [if_pos (by omega)]
    omega
  · -- the messages go around the end of the ring
    rw [Nat.mod_eq_sub_mod hge, Nat.mod_eq_of_lt (by omega)] at htail
    rw [if_neg (by omega)]
    omega

end Reads

/-- `mq_create` returns an empty ring. -/
theorem mqCreate_spec {cap : Int} (hcap : 0 < cap) :
    Returns (mqCreate cap) fun q => MqRep q [] ∧ q.cap = cap.toNat := by
  rw [mqCreate]
  refine returns_cassert_bind hcap (returns_ok ⟨?_, rfl⟩)
  exact {
    head_lt := by dsimp only; omega
    tail_eq := (Nat.zero_mod _).symm
    length_lt := by simp only [List.length_nil]; omega
    length_q := List.length_replicate
    holds := ringHolds_nil _ _ }

/-- The loop of `mq_expand` copies the slots in order and keeps what it has copied before. -/
theorem mqExpandLoop_spec {q : Mq} (hlen : q.q.length = q.cap) (hpos : 0 < q.cap) (n : Nat) {i : Nat}
    {nq : List Msg} (hfits : i + n ≤ nq.length) :
    Returns (mqExpandLoop q n i nq) fun nq' =>
      nq'.length = nq.length ∧ (∀ j < i, nq'[j]? = nq[j]?)
        ∧ ∀ j, i ≤ j → j < i + n → nq'[j]? = q.q[(q.head + j) % q.q.length]? := by
  induction n generalizing i nq with
  | zero =>
    refine returns_ok ⟨rfl, fun j _ => rfl, fun j hle hlt => ?_⟩
    omega
  | succ n ih =>
    have hidx : (q.head + i) % q.cap < q.q.length := by
      rw [hlen]
      exact Nat.mod_lt _ hpos
    have hload : q.q[(q.head + i) % q.cap]? = some (q.q[(q.head + i) % q.cap]) :=
      List.getElem?_eq_getElem hidx
    rw [mqExpandLoop, cellLoad_of_some hload, exec_ok_bind, cellStore_of_lt (by omega), exec_ok_bind]
    refine (ih (by rw [List.length_set]; omega)).imp fun nq' hnq' => ?_
    obtain ⟨hlen', hbefore, hcopied⟩ := hnq'
    refine ⟨hlen'.trans (List.length_set ..), fun j hj => ?_, fun j hle hlt => ?_⟩
    · rw [hbefore j (by omega), List.getElem?_set_ne (by omega)]
    · rcases Nat.eq_or_lt_of_le hle with rfl | hgt
      · -- the slot stored in this round
        rw [hbefore i (by omega), List.getElem?_set_self (by omega), ← hload, hlen]
      · exact hcopied j hgt (by omega)

/-- `mq_expand` of a full ring: the messages are in a ring of twice the size, from its first slot
on. -/
theorem mqExpand_spec {q : Mq} {l : List Msg} (hpos : 0 < q.cap) (hfull : l.length = q.cap)
    (hmeet : q.head = q.tail) (hlen : q.q.length = q.cap) (hholds : RingHolds q.q q.head l)
    (hint : q.cap * 2 < 2 ^ 31) :
    Returns (mqExpand q) fun q' => MqRep q' l ∧ q'.cap = q.cap * 2 := by
  rw [mqExpand]
  refine returns_cassert_bind hmeet (returns_cassert_bind hint ?_)
  have hfits : 0 + q.cap ≤ (List.replicate (q.cap * 2) zeroMsg).length := by
    rw [List.length_replicate]
    omega
  refine (mqExpandLoop_spec hlen hpos q.cap hfits).bind fun nq hnq => ?_
  obtain ⟨hlen', -, hcopied⟩ := hnq
  rw [List.length_replicate] at hlen'
  refine returns_ok ⟨?_, rfl⟩
  exact {
    head_lt := by dsimp only; omega
    tail_eq := by
      dsimp only
      rw [Nat.zero_add, hfull, Nat.mod_eq_of_lt (by omega)]
    length_lt := by dsimp only; omega
    length_q := hlen'
    holds := ringHolds_zero hholds (fun i hi => hcopied i (Nat.zero_le i) (by omega))
      (by dsimp only; omega) }

/-- A push into a ring with more than one free slot. -/
theorem MqRep.push_spec {q : Mq} {l : List Msg} (h : MqRep q l) (hroom : l.length + 1 < q.cap)
    (msg : Msg) : Returns (mqPush q msg) fun q' => MqRep q' (l ++ [msg]) ∧ q'.cap = q.cap := by
  have hpos : 0 < q.cap := by omega
  have htail : wrapSucc q.cap q.tail = (q.head + (l.length + 1)) % q.cap := by
    rw [h.tail_eq, wrapSucc_mod hpos, Nat.add_assoc]
  have hne : q.head ≠ wrapSucc q.cap q.tail := by
    rw [htail, ne_comm, Ne, ringIndex_eq_head h.head_lt (Nat.le_of_lt hroom)]
    omega
  have hstore := h.holds.store (by rw [h.length_q]; exact h.length_lt) msg
  rw [h.length_q, ← h.tail_eq] at hstore
  rw [mqPush, cellStore_of_lt (by rw [h.length_q]; exact h.tail_lt), exec_ok_bind, if_neg hne]
  refine returns_ok ⟨?_, rfl⟩
  exact {
    head_lt := h.head_lt
    tail_eq := by rw [List.length_append, List.length_singleton]; exact htail
    length_lt := by rw [List.length_append, List.length_singleton]; exact hroom
    length_q := (List.length_set ..).trans h.length_q
    holds := hstore }

/-- A push into the last free slot makes `head` and `tail` meet. -/
theorem MqRep.meet_of_full {q : Mq} {l : List Msg} (h : MqRep q l) (hfull : l.length + 1 = q.cap) :
    q.head = wrapSucc q.cap q.tail := by
  rw [h.tail_eq, wrapSucc_mod (by omega), Nat.add_assoc, eq_comm,
    ringIndex_eq_head h.head_lt (Nat.le_of_eq hfull)]
  exact .inr hfull

/-- A push into the last free slot doubles the ring. -/
theorem MqRep.push_full_spec {q : Mq} {l : List Msg} (h : MqRep q l) (hfull : l.length + 1 = q.cap)
    (hint : q.cap * 2 < 2 ^ 31) (msg : Msg) :
    Returns (mqPush q msg) fun q' => MqRep q' (l ++ [msg]) ∧ q'.cap = q.cap * 2 := by
  have hpos : 0 < q.cap := by omega
  have hmeet := h.meet_of_full hfull
  have hstore := h.holds.store (by rw [h.length_q]; exact h.length_lt) msg
  rw [h.length_q, ← h.tail_eq] at hstore
  rw [mqPush, cellStore_of_lt (by rw [h.length_q]; exact h.tail_lt), exec_ok_bind, if_pos hmeet]
  exact mqExpand_spec hpos (by rw [List.length_append, List.length_singleton]; exact hfull) hmeet
    ((List.length_set ..).trans h.length_q) hstore hint

/-- A ring whose doubled size is no `int` cannot be filled. -/
theorem MqRep.push_overflow {q : Mq} {l : List Msg} (h : MqRep q l) (hfull : l.length + 1 = q.cap)
    (hint : ¬ q.cap * 2 < 2 ^ 31) (msg : Msg) : mqPush q msg = .error .assertFailed := by
  have hmeet := h.meet_of_full hfull
  rw [mqPush, cellStore_of_lt (by rw [h.length_q]; exact h.tail_lt), exec_ok_bind, if_pos hmeet,
    mqExpand, cassert_bind_of hmeet, cassert_bind_of_not hint]

/-- **A push that returns** has added the message, and doubles the ring only when it fills it. -/
theorem MqRep.push_ok {q q' : Mq} {l : List Msg} {msg : Msg} (h : MqRep q l)
    (hok : mqPush q msg = .ok q') :
    MqRep q' (l ++ [msg]) ∧ (l.length + 1 < q.cap → q'.cap = q.cap) := by
  rcases Nat.lt_or_eq_of_le (Nat.succ_le_of_lt h.length_lt) with hroom | hfull
  · obtain ⟨q₁, hq₁, hrep, hcap⟩ := h.push_spec hroom msg
    obtain rfl : q₁ = q' := Except.ok.inj (hq₁.symm.trans hok)
    exact ⟨hrep, fun _ => hcap⟩
  · by_cases hint : q.cap * 2 < 2 ^ 31
    · obtain ⟨q₁, hq₁, hrep, -⟩ := h.push_full_spec hfull hint msg
      obtain rfl : q₁ = q' := Except.ok.inj (hq₁.symm.trans hok)
      exact ⟨hrep, fun hroom => absurd hfull (Nat.ne_of_lt hroom)⟩
    · rw [h.push_overflow hfull hint msg] at hok
      cases hok

/-- A pop takes the oldest message. -/
theorem MqRep.pop_spec {q : Mq} {m : Msg} {l : List Msg} (h : MqRep q (m :: l)) :
    Returns (mqPop q) fun r => r.1 = some m ∧ MqRep r.2 l ∧ r.2.cap = q.cap := by
  have hpos : 0 < q.cap := Nat.zero_lt_of_lt h.head_lt
  have hne : q.head ≠ q.tail := by
    rw [Ne, h.head_eq_tail_iff]
    exact List.cons_ne_nil m l
  have hlen := h.length_lt
  have hnext : wrapSucc q.cap q.head = (q.head + 1) % q.cap := by
    rw [← wrapSucc_mod hpos, Nat.mod_eq_of_lt h.head_lt]
  have hrest := h.holds.tail
  rw [h.length_q, ← hnext] at hrest
  rw [List.length_cons] at hlen
  rw [mqPop, if_pos hne,
    cellLoad_of_some (h.holds.head (by rw [h.length_q]; exact h.head_lt)), exec_ok_bind]
  refine returns_ok ⟨rfl, ?_, rfl⟩
  exact {
    head_lt := by
      dsimp only
      rw [hnext]
      exact Nat.mod_lt _ hpos
    tail_eq := by
      dsimp only
      rw [hnext, Nat.mod_add_mod, h.tail_eq, List.length_cons, Nat.add_assoc, Nat.add_comm 1]
    length_lt := Nat.lt_of_succ_lt hlen
    length_q := h.length_q
    holds := hrest }

/-- A pop of an empty queue changes nothing. -/
theorem MqRep.pop_nil {q : Mq} (h : MqRep q []) : mqPop q = .ok (none, q) := by
  rw [mqPop, if_neg (not_not_intro (h.head_eq_tail_iff.mpr rfl)), exec_pure]

/-! ### Runs -/

/-- The calls of the interface. -/
inductive MqOp
  /-- `mq_push`. -/
  | push (msg : Msg)
  /-- `mq_pop`. -/
  | pop
  /-- `mq_count`. -/
  | count
  deriving DecidableEq, Repr

/-- What a call returns. -/
inductive MqRet
  /-- Nothing. -/
  | unit
  /-- The message of a pop, or `false`. -/
  | msg (m : Option Msg)
  /-- A count. -/
  | num (n : Nat)
  deriving DecidableEq, Repr

/-- One call. -/
def mqStep (q : Mq) : MqOp → Exec (MqRet × Mq)
  | .push msg => do
    let q ← mqPush q msg
    return (.unit, q)
  | .pop => do
    let (m, q) ← mqPop q
    return (.msg m, q)
  | .count => return (.num (mqCount q), q)

/-- The capacity does not overflow an `int`: a push that fills the ring may double it. -/
def MqPre (q : Mq) : MqOp → Prop
  | .push _ => mqCount q + 1 = q.cap → q.cap * 2 < 2 ^ 31
  | .pop => True
  | .count => True

instance instDecidableMqPre (q : Mq) : ∀ o, Decidable (MqPre q o)
  | .push _ => inferInstanceAs (Decidable (_ → _))
  | .pop => .isTrue trivial
  | .count => .isTrue trivial

/-- **The unbounded FIFO.** -/
inductive FifoStep : List Msg → MqOp → MqRet → List Msg → Prop
  /-- A push adds at the end. -/
  | push (l : List Msg) (m : Msg) : FifoStep l (.push m) .unit (l ++ [m])
  /-- A pop takes the oldest message. -/
  | pop (m : Msg) (l : List Msg) : FifoStep (m :: l) .pop (.msg (some m)) l
  /-- A pop of the empty queue returns `false`. -/
  | popNil : FifoStep [] .pop (.msg none) []
  /-- A count is the number of messages held. -/
  | count (l : List Msg) : FifoStep l .count (.num l.length) l

/-- Every call does what the FIFO does. -/
theorem mqStep_simulates : Simulates mqStep MqPre FifoStep MqRep := by
  intro q l o h hpre
  cases o with
  | push msg =>
    have hlen := h.length_lt
    rcases Nat.lt_or_eq_of_le (Nat.succ_le_of_lt hlen) with hroom | hfull
    · refine (h.push_spec hroom msg).bind fun q' hq' => ?_
      exact returns_ok ⟨_, .push l msg, hq'.1⟩
    · have hint : q.cap * 2 < 2 ^ 31 := hpre (by rw [h.count_eq]; exact hfull)
      refine (h.push_full_spec hfull hint msg).bind fun q' hq' => ?_
      exact returns_ok ⟨_, .push l msg, hq'.1⟩
  | pop =>
    cases l with
    | nil =>
      rw [mqStep, h.pop_nil]
      exact returns_ok ⟨_, .popNil, h⟩
    | cons m l =>
      refine h.pop_spec.bind fun r hr => ?_
      obtain ⟨hm, hrep, -⟩ := hr
      exact returns_ok ⟨l, hm ▸ .pop m l, hrep⟩
  | count =>
    rw [mqStep, h.count_eq]
    exact returns_ok ⟨l, .count l, h⟩

/-- **The message queue refines the unbounded FIFO.** A run from `mq_create` in which the capacity
stays an `int` never faults, returns what the FIFO returns, and ends in a ring that holds the
messages of the FIFO between `head` and `tail`, which are equal only when it is empty. -/
theorem mq_refines_fifo (cap : Int) (q₀ : Mq) (ops : List MqOp) (hcap : 0 < cap)
    (hcreate : mqCreate cap = .ok q₀) (hadm : Admissible mqStep MqPre q₀ ops) :
    Returns (runOps mqStep q₀ ops) fun p =>
      ∃ l, SpecRun FifoStep [] ops p.1 l ∧ mqCount p.2 = l.length
        ∧ RingHolds p.2.q p.2.head l ∧ p.2.head < p.2.cap ∧ p.2.tail < p.2.cap
        ∧ (p.2.head = p.2.tail ↔ l = []) := by
  obtain ⟨q, hq, hrep, -⟩ := mqCreate_spec hcap
  obtain rfl : q = q₀ := Except.ok.inj (hq.symm.trans hcreate)
  refine (mqStep_simulates.run ops hrep hadm).imp fun p hp => ?_
  obtain ⟨l, hrun, hrep'⟩ := hp
  exact ⟨l, hrun, hrep'.count_eq, hrep'.holds, hrep'.head_lt, hrep'.tail_lt, hrep'.head_eq_tail_iff⟩

/-- A run from capacity 2 that wraps around the end of the ring before it doubles it. -/
theorem mq_refines_fifo_wrap_expand :
    Returns (mqCreate 2 >>= fun q₀ =>
        runOps mqStep q₀ [.push ⟨1, 0⟩, .pop, .push ⟨2, 0⟩, .push ⟨3, 0⟩, .count, .pop]) fun p =>
      ∃ l, SpecRun FifoStep [] [.push ⟨1, 0⟩, .pop, .push ⟨2, 0⟩, .push ⟨3, 0⟩, .count, .pop] p.1 l
        ∧ mqCount p.2 = l.length ∧ RingHolds p.2.q p.2.head l ∧ p.2.head < p.2.cap
        ∧ p.2.tail < p.2.cap ∧ (p.2.head = p.2.tail ↔ l = []) :=
  mq_refines_fifo 2 _ _ (by decide) rfl (by decide)

end Wee
