import Wee.Base.BufferAppend

/-! # Prepending and appending mixed

`buf_prepend` moves the read index into the reserved front. As long as the bytes of a later
`buf_append` fit behind the write index this does no harm; when they do not, the append fails. -/

namespace Wee

/-! ### Runs -/

/-- The calls that append, prepend and consume. -/
inductive FrontOp
  /-- `buf_append`. -/
  | append (d : List UInt8)
  /-- `buf_prepend`. -/
  | prepend (d : List UInt8)
  /-- `buf_retrieve`. -/
  | retrieve (len : Nat)
  /-- `buf_unwrite`. -/
  | unwrite (len : Nat)
  /-- `buf_retrieveAll`. -/
  | retrieveAll
  deriving DecidableEq, Repr

/-- One of these calls on the buffer. -/
def frontStep (b : Buffer) : FrontOp → Exec (Unit × Buffer)
  | .append d => return ((), ← bufAppend b d)
  | .prepend d => return ((), ← bufPrepend b d)
  | .retrieve len => return ((), ← bufRetrieve b len)
  | .unwrite len => return ((), ← bufUnwrite b len)
  | .retrieveAll => return ((), bufRetrieveAll b)

/-- The length precondition a call asserts; the size of an append does not overflow. -/
def FrontPre (b : Buffer) : FrontOp → Prop
  | .append d => b.writeIdx + d.length < 2 ^ 64
  | .prepend d => d.length ≤ bufPrependable b
  | .retrieve len => len ≤ bufReadable b
  | .unwrite len => len ≤ bufReadable b
  | .retrieveAll => True

/-- The preconditions are comparisons of sizes. -/
instance instDecidableFrontPre (b : Buffer) : ∀ o, Decidable (FrontPre b o)
  | .append _ => inferInstanceAs (Decidable (_ < _))
  | .prepend _ => inferInstanceAs (Decidable (_ ≤ _))
  | .retrieve _ => inferInstanceAs (Decidable (_ ≤ _))
  | .unwrite _ => inferInstanceAs (Decidable (_ ≤ _))
  | .retrieveAll => inferInstanceAs (Decidable True)

/-- **A call that returns keeps the buffer well-formed.** -/
theorem frontStep_wf {b b' : Buffer} {o : FrontOp} {r : Unit} (h : BufWf b) (hpre : FrontPre b o)
    (hok : frontStep b o = .ok (r, b')) : BufWf b' := by
  cases o with
  | append d =>
    obtain ⟨b₁, hone, heq⟩ := exec_bind_eq_ok.mp hok
    cases heq
    exact h.append_ok hpre hone
  | prepend d =>
    obtain ⟨b₁, hone, heq⟩ := exec_bind_eq_ok.mp hok
    cases heq
    obtain ⟨b₂, hok₂, hwf, -⟩ := bufPrepend_spec h hpre
    obtain rfl := Except.ok.inj (hok₂.symm.trans hone)
    exact hwf
  | retrieve len =>
    obtain ⟨b₁, hone, heq⟩ := exec_bind_eq_ok.mp hok
    cases heq
    obtain ⟨b₂, hok₂, hcons⟩ := h.shape.retrieve_spec hpre
    obtain rfl := Except.ok.inj (hok₂.symm.trans hone)
    exact { hcons.shape with unlocked := hcons.locked.trans h.unlocked }
  | unwrite len =>
    obtain ⟨b₁, hone, heq⟩ := exec_bind_eq_ok.mp hok
    cases heq
    obtain ⟨b₂, hok₂, hwf, -⟩ := h.unwrite_spec hpre
    obtain rfl := Except.ok.inj (hok₂.symm.trans hone)
    exact hwf
  | retrieveAll =>
    cases hok
    exact (bufRetrieveAll_spec h).1.toBufWf

/-- **Appending after prepending**: in every state of every run, an append does what it should
exactly when its bytes fit behind the write index or no byte stands in the reserved front. -/
theorem append_after_prepend_iff {size prependSize : Nat} {b₀ b : Buffer} {os : List FrontOp}
    {rs : List Unit} {d : List UInt8} (hpos : 0 < size) (hov : size + prependSize < 2 ^ 64)
    (hcreate : bufCreateEx size prependSize = .ok b₀) (hadm : Admissible frontStep FrontPre b₀ os)
    (hrun : runOps frontStep b₀ os = .ok (rs, b)) (hd : b.writeIdx + d.length < 2 ^ 64) :
    Returns (bufAppend b d) (AppendedTo b d) ↔ d.length ≤ bufWritable b ∨ b.pSz ≤ b.readIdx := by
  obtain ⟨b₁, hok, hinv, -⟩ := bufCreateEx_spec hpos hov
  obtain rfl := Except.ok.inj (hok.symm.trans hcreate)
  have hwf : BufWf b := runOps_invariant_state (fun s o r s' h hpre hstep =>
    frontStep_wf h hpre hstep) hinv.toBufWf hadm hrun
  exact hwf.append_iff hd

/-- Two bytes in the reserved front and an append that fits behind the write index. -/
theorem append_after_prepend_iff_fits :
    ∃ b₀ rs b, bufCreateEx 4 4 = .ok b₀ ∧ runOps frontStep b₀ [.prepend [1, 2]] = .ok (rs, b)
      ∧ (Returns (bufAppend b [3, 4]) (AppendedTo b [3, 4])
          ↔ [3, 4].length ≤ bufWritable b ∨ b.pSz ≤ b.readIdx) := by
  refine ⟨_, _, _, rfl, rfl, ?_⟩
  exact append_after_prepend_iff (by decide) (by decide) (show bufCreateEx 4 4 = .ok _ from rfl)
    (by decide) (show runOps frontStep _ [.prepend [1, 2]] = .ok _ from rfl) (by decide)

/-- **Appending after prepending fails**: two bytes in the reserved front, and an append that has to
grow the block. -/
theorem append_after_prepend_fails :
    ∃ b₀ rs b, bufCreateEx 4 4 = .ok b₀ ∧ Admissible frontStep FrontPre b₀ [.prepend [1, 2]]
      ∧ runOps frontStep b₀ [.prepend [1, 2]] = .ok (rs, b)
      ∧ b.writeIdx + [3, 4, 5, 6, 7].length < 2 ^ 64
      ∧ bufAppend b [3, 4, 5, 6, 7] = .error .assertFailed
      ∧ ¬ Returns (bufAppend b [3, 4, 5, 6, 7]) (AppendedTo b [3, 4, 5, 6, 7]) := by
  refine ⟨_, _, _, rfl, by decide, rfl, by decide, rfl, ?_⟩
  rintro ⟨b', hok, -⟩
  cases hok

end Wee
