import Wee.Base.View
import Mathlib.Order.Interval.Finset.Nat

/-! # What holds while views are live

The live buffers and their sources form a forest: buffers come as leaves, by `buf_create_ex` or
`buf_readonlyView`, and go as leaves, since `buf_release` asserts that no view is left. `refcount`
is the number of children. A locked buffer is never reallocated, so a view and its source share
their block for as long as the view lives; the bytes a view covers are then only in danger from
`buf_prepend`, which does not look at the lock. -/

namespace Wee

/-! ### What a call does to its buffer -/

section Calls

/-- The fields for the views are the same. -/
structure SameLinks (b b' : Buffer) : Prop where
  /-- The number of views. -/
  refcount : b'.refcount = b.refcount
  /-- The source. -/
  src : b'.src = b.src
  /-- The cached view. -/
  cache : b'.cache = b.cache

/-- Only the indices differ. -/
structure SameBlock (b b' : Buffer) : Prop extends SameLinks b b' where
  /-- The bytes. -/
  buf : b'.buf = b.buf
  /-- The capacity. -/
  sz : b'.sz = b.sz

variable {b b' b'' : Buffer}

theorem SameLinks.refl (b : Buffer) : SameLinks b b := ⟨rfl, rfl, rfl⟩

theorem SameLinks.trans (h : SameLinks b b') (h' : SameLinks b' b'') : SameLinks b b'' :=
  ⟨h'.refcount.trans h.refcount, h'.src.trans h.src, h'.cache.trans h.cache⟩

theorem SameBlock.refl (b : Buffer) : SameBlock b b := ⟨.refl b, rfl, rfl⟩

/-- Behind `ASSERT_WRITE` the buffer is not locked. -/
theorem assertWrite_eq_ok {u : Unit} (h : assertWrite b = .ok u) : bufWriteLocked b = false := by
  by_contra hlocked
  rw [assertWrite, cassert_of_not hlocked] at h
  cases h

/-- `buf_retrieve` moves the indices. -/
theorem bufRetrieve_same {len : Nat} (h : bufRetrieve b len = .ok b') : SameBlock b b' := by
  obtain ⟨_, _, h⟩ := exec_bind_eq_ok.mp h
  split at h
  · cases h
    exact ⟨⟨rfl, rfl, rfl⟩, rfl, rfl⟩
  · cases h
    exact ⟨⟨rfl, rfl, rfl⟩, rfl, rfl⟩

/-- So does `buf_retrieveAsString`. -/
theorem bufRetrieveAsString_same {len : Nat} {d : List UInt8}
    (h : bufRetrieveAsString b len = .ok (d, b')) : SameBlock b b' := by
  obtain ⟨_, _, h⟩ := exec_bind_eq_ok.mp h
  obtain ⟨c, hretr, h⟩ := exec_bind_eq_ok.mp h
  cases h
  exact bufRetrieve_same hretr

/-- The end of the C string functions. -/
theorem bufRetrieveCStr_same {eos : Option Nat} {sz : Int} (h : bufRetrieveCStr b eos sz = .ok b') :
    SameBlock b b' := by
  cases eos with
  | none => exact bufRetrieve_same h
  | some e => exact bufRetrieve_same h

/-- `buf_swap` keeps the links. -/
theorem bufSwap_links {nsz : Nat} (h : bufSwap b nsz = .ok b') : SameLinks b b' := by
  obtain ⟨_, _, h⟩ := exec_bind_eq_ok.mp h
  obtain ⟨_, _, h⟩ := exec_bind_eq_ok.mp h
  obtain ⟨_, _, h⟩ := exec_bind_eq_ok.mp h
  cases h
  exact ⟨rfl, rfl, rfl⟩

/-- `buf_makeSpace` keeps the links. -/
theorem bufMakeSpace_links {len : Nat} (h : bufMakeSpace b len = .ok b') : SameLinks b b' := by
  obtain ⟨c, hroom, h⟩ := exec_bind_eq_ok.mp h
  obtain ⟨_, _, h⟩ := exec_bind_eq_ok.mp h
  cases h
  have hlinks : SameLinks b c := by
    unfold bufMakeRoom at hroom
    split at hroom
    · exact bufSwap_links hroom
    · obtain ⟨_, _, hroom⟩ := exec_bind_eq_ok.mp hroom
      obtain ⟨_, _, hroom⟩ := exec_bind_eq_ok.mp hroom
      obtain ⟨_, _, hroom⟩ := exec_bind_eq_ok.mp hroom
      cases hroom
      exact ⟨rfl, rfl, rfl⟩
  exact hlinks.trans ⟨rfl, rfl, rfl⟩

/-- `buf_ensureWritable` returns on an unlocked buffer and keeps the links. -/
theorem bufEnsureWritable_links {len : Nat} (h : bufEnsureWritable b len = .ok b') :
    bufWriteLocked b = false ∧ SameLinks b b' := by
  obtain ⟨u, hassert, h⟩ := exec_bind_eq_ok.mp h
  refine ⟨assertWrite_eq_ok hassert, ?_⟩
  dsimp only at h
  split at h
  · obtain ⟨c, hspace, h⟩ := exec_bind_eq_ok.mp h
    obtain ⟨_, _, h⟩ := exec_bind_eq_ok.mp h
    cases h
    exact bufMakeSpace_links hspace
  · obtain ⟨c, heq, h⟩ := exec_bind_eq_ok.mp h
    obtain ⟨_, _, h⟩ := exec_bind_eq_ok.mp h
    cases heq
    cases h
    exact .refl _

/-- A store at the write index keeps the links. -/
theorem bufBeginWriteStore_links {d : List UInt8} (h : bufBeginWriteStore b d = .ok b') :
    SameLinks b b' := by
  obtain ⟨_, _, h⟩ := exec_bind_eq_ok.mp h
  cases h
  exact ⟨rfl, rfl, rfl⟩

/-- `buf_has_written` moves the write index. -/
theorem bufHasWritten_same {len : Nat} (h : bufHasWritten b len = .ok b') : SameBlock b b' := by
  obtain ⟨_, _, h⟩ := exec_bind_eq_ok.mp h
  cases h
  exact ⟨⟨rfl, rfl, rfl⟩, rfl, rfl⟩

/-- `buf_append` returns on an unlocked buffer and keeps the links. -/
theorem bufAppend_links {d : List UInt8} (h : bufAppend b d = .ok b') :
    bufWriteLocked b = false ∧ SameLinks b b' := by
  obtain ⟨u, hassert, h⟩ := exec_bind_eq_ok.mp h
  obtain ⟨c, hensure, h⟩ := exec_bind_eq_ok.mp h
  obtain ⟨e, hstore, h⟩ := exec_bind_eq_ok.mp h
  exact ⟨assertWrite_eq_ok hassert, ((bufEnsureWritable_links hensure).2.trans
    (bufBeginWriteStore_links hstore)).trans (bufHasWritten_same h).toSameLinks⟩

/-- `buf_readFd` returns on an unlocked buffer and keeps the links. -/
theorem bufReadFd_links {errno n e : Int} {r : ReadvRes} (h : bufReadFd b errno r = .ok (n, e, b')) :
    bufWriteLocked b = false ∧ SameLinks b b' := by
  obtain ⟨u, hassert, h⟩ := exec_bind_eq_ok.mp h
  refine ⟨assertWrite_eq_ok hassert, ?_⟩
  cases r with
  | fail _ =>
    cases h
    exact .refl _
  | got data =>
    obtain ⟨c, hstore, h⟩ := exec_bind_eq_ok.mp h
    have hlinks := bufBeginWriteStore_links hstore
    split at h
    · cases h
      exact hlinks.trans ⟨rfl, rfl, rfl⟩
    · obtain ⟨c', happend, h⟩ := exec_bind_eq_ok.mp h
      cases h
      have hfull : SameLinks c { c with writeIdx := c.sz } := ⟨rfl, rfl, rfl⟩
      exact hlinks.trans (hfull.trans (bufAppend_links happend).2)

/-- **What a call can do**: it keeps the links, and either it has found the buffer unlocked, or it
has left the bytes alone, or it has stored what it prepends. -/
structure CallEffect (c : BufCall) (b b' : Buffer) : Prop where
  /-- The links. -/
  links : SameLinks b b'
  /-- The bytes. -/
  block : bufWriteLocked b = false ∨ (c.swaps b = false ∧ b'.sz = b.sz
    ∧ (b'.buf = b.buf ∨ (szSub b.readIdx c.prepended.length + c.prepended.length ≤ b.buf.length
      ∧ b'.buf = splice b.buf (szSub b.readIdx c.prepended.length) c.prepended)))

/-- A call that only moves the indices. -/
theorem CallEffect.of_same {c : BufCall} (h : SameBlock b b') (hswaps : c.swaps b = false) :
    CallEffect c b b' :=
  ⟨h.toSameLinks, .inr ⟨hswaps, h.sz, .inl h.buf⟩⟩

/-- A call behind `ASSERT_WRITE`. -/
theorem CallEffect.of_unlocked {c : BufCall} (h : bufWriteLocked b = false ∧ SameLinks b b') :
    CallEffect c b b' :=
  ⟨h.2, .inl h.1⟩

/-- The prepending calls. -/
theorem CallEffect.of_prepend {c : BufCall} (h : bufPrepend b c.prepended = .ok b')
    (hswaps : c.swaps b = false) : CallEffect c b b' := by
  obtain ⟨_, _, h⟩ := exec_bind_eq_ok.mp h
  obtain ⟨m, hstore, h⟩ := exec_bind_eq_ok.mp h
  cases h
  unfold memStore at hstore
  split at hstore
  · rename_i hle
    cases hstore
    exact ⟨⟨rfl, rfl, rfl⟩, .inr ⟨hswaps, rfl, .inr ⟨hle, rfl⟩⟩⟩
  · cases hstore

/-- **Every call of the interface** does one of these things. -/
theorem BufCall.effect {c : BufCall} (h : c.run b = .ok b') : CallEffect c b b' := by
  -- a function that returns its buffer beside a result
  have hsnd {α : Type} {x : Exec (α × Buffer)} (h : (x >>= fun r => .ok r.2) = .ok b') :
      ∃ a, x = .ok (a, b') := by
    obtain ⟨⟨a, c⟩, hx, heq⟩ := exec_bind_eq_ok.mp h
    cases heq
    exact ⟨a, hx⟩
  -- a function that only returns a result
  have hread {α : Type} {x : Exec α} (h : (x >>= fun _ => .ok b) = .ok b') : SameBlock b b' := by
    obtain ⟨_, _, heq⟩ := exec_bind_eq_ok.mp h
    cases heq
    exact .refl _
  cases c with
  | query =>
    cases h
    exact .of_same (.refl _) rfl
  | hasWritten len => exact .of_same (bufHasWritten_same h) rfl
  | unwrite len =>
    obtain ⟨u, hassert, h⟩ := exec_bind_eq_ok.mp h
    obtain ⟨_, _, h⟩ := exec_bind_eq_ok.mp h
    cases h
    exact .of_unlocked ⟨assertWrite_eq_ok hassert, rfl, rfl, rfl⟩
  | findStr str => exact .of_same (hread h) rfl
  | findChar c => exact .of_same (hread h) rfl
  | retrieveAsString len =>
    obtain ⟨d, h⟩ := hsnd h
    exact .of_same (bufRetrieveAsString_same h) rfl
  | retrieveAll =>
    cases h
    exact .of_same ⟨⟨rfl, rfl, rfl⟩, rfl, rfl⟩ rfl
  | retrieve len => exact .of_same (bufRetrieve_same h) rfl
  | retrieveUntil e =>
    obtain ⟨_, _, h⟩ := exec_bind_eq_ok.mp h
    obtain ⟨_, _, h⟩ := exec_bind_eq_ok.mp h
    exact .of_same (bufRetrieve_same h) rfl
  | ensureWritable len => exact .of_unlocked (bufEnsureWritable_links h)
  | append d => exact .of_unlocked (bufAppend_links h)
  | prepend d => exact .of_prepend h rfl
  | shrink reserve =>
    obtain ⟨u, hassert, h⟩ := exec_bind_eq_ok.mp h
    exact .of_unlocked ⟨assertWrite_eq_ok hassert, bufSwap_links h⟩
  | appendInt k x => exact .of_unlocked (bufAppend_links h)
  | appendIntLE k x => exact .of_unlocked (bufAppend_links h)
  | prependInt k x => exact .of_prepend h rfl
  | prependIntLE k x => exact .of_prepend h rfl
  | peekInt k => exact .of_same (hread h) rfl
  | peekIntLE w k => exact .of_same (hread h) rfl
  | readInt k =>
    obtain ⟨x, h⟩ := hsnd h
    obtain ⟨_, _, h⟩ := exec_bind_eq_ok.mp h
    obtain ⟨c, hretr, h⟩ := exec_bind_eq_ok.mp h
    cases h
    exact .of_same (bufRetrieve_same hretr) rfl
  | readIntLE w k =>
    obtain ⟨x, h⟩ := hsnd h
    obtain ⟨_, _, h⟩ := exec_bind_eq_ok.mp h
    obtain ⟨c, hretr, h⟩ := exec_bind_eq_ok.mp h
    cases h
    exact .of_same (bufRetrieve_same hretr) rfl
  | readCStr sz =>
    obtain ⟨d, h⟩ := hsnd h
    obtain ⟨eos, _, h⟩ := exec_bind_eq_ok.mp h
    dsimp only at h
    split at h
    · cases h
      exact .of_same (.refl _) rfl
    · obtain ⟨_, _, h⟩ := exec_bind_eq_ok.mp h
      obtain ⟨c, hretr, h⟩ := exec_bind_eq_ok.mp h
      cases h
      exact .of_same (bufRetrieveCStr_same hretr) rfl
  | readStr sz =>
    obtain ⟨d, h⟩ := hsnd h
    exact .of_same (bufRetrieveAsString_same h) rfl
  | dupCStr =>
    obtain ⟨d, h⟩ := hsnd h
    obtain ⟨eos, _, h⟩ := exec_bind_eq_ok.mp h
    obtain ⟨_, _, h⟩ := exec_bind_eq_ok.mp h
    obtain ⟨c, hretr, h⟩ := exec_bind_eq_ok.mp h
    cases h
    exact .of_same (bufRetrieveCStr_same hretr) rfl
  | dupStr sz =>
    obtain ⟨d, h⟩ := hsnd h
    exact .of_same (bufRetrieveAsString_same h) rfl
  | readFd errno r =>
    obtain ⟨⟨n, e, c⟩, hfd, h⟩ := exec_bind_eq_ok.mp h
    cases h
    exact .of_unlocked (bufReadFd_links hfd)
  | setReadIndex readIdx =>
    cases h
    exact .of_same ⟨⟨rfl, rfl, rfl⟩, rfl, rfl⟩ rfl
  | setWriteIndex writeIdx =>
    obtain ⟨u, hassert, h⟩ := exec_bind_eq_ok.mp h
    obtain ⟨_, _, h⟩ := exec_bind_eq_ok.mp h
    cases h
    exact .of_unlocked ⟨assertWrite_eq_ok hassert, rfl, rfl, rfl⟩

end Calls

/-! ### The invariant -/

namespace BufWorld

/-- `o` is the object of the live buffer `p`. -/
def At (s : BufWorld) (p : Nat) (o : BufObj) : Prop := p ∈ s.live ∧ s.heap.objs p = some o

/-- **The forest of live buffers**: `refcount` counts the live views of a buffer, a view shares the
block of its source, and buffers that are no views have blocks of their own. -/
structure TreeInv (s : BufWorld) : Prop where
  /-- A live buffer is allocated. -/
  obj : ∀ p ∈ s.live, ∃ o, s.heap.objs p = some o
  /-- Its address is one of the machine's. -/
  addr : ∀ p ∈ s.live, 0 < p ∧ p < 2 ^ 64
  /-- The sources of live views are live. -/
  wf : s.forest.Wf
  /-- `refcount` is the number of live views. -/
  refcount : ∀ p o, s.At p o → o.refcount = (s.forest.children p).card
  /-- The block of a live buffer is allocated. -/
  block : ∀ p o, s.At p o → (s.heap.blocks o.block).isSome = true
  /-- A view shares the block of its source. -/
  src_block : ∀ v o p o', s.At v o → s.At p o' → o.src = some p → o.block = o'.block
  /-- Buffers that are no views do not share blocks. -/
  root_block : ∀ p q o o', s.At p o → s.At q o' → o.src = none → o'.src = none →
    o.block = o'.block → p = q

/-- **The cached views**: they are allocated, none is live, and each is cached once. -/
structure CacheInv (s : BufWorld) : Prop where
  /-- A cached view is not live. -/
  not_live : ∀ p o c, s.At p o → o.cache = some c → c ∉ s.live
  /-- A cached view is allocated. -/
  alloc : ∀ p o c, s.At p o → o.cache = some c → (s.heap.objs c).isSome = true
  /-- Its address is one of the machine's. -/
  addr : ∀ p o c, s.At p o → o.cache = some c → 0 < c ∧ c < 2 ^ 64
  /-- No two live buffers have cached the same view. -/
  inj : ∀ p q o o' c, s.At p o → s.At q o' → o.cache = some c → o'.cache = some c → p = q

section Forest

variable {s : BufWorld} {p q v : Nat} {o o' : BufObj}

/-- The parent of a live buffer is its source. -/
theorem At.parent (h : s.At v o) : s.forest.parent v = o.src := by
  simp only [forest, if_pos h.1, h.2, Option.bind_some]

/-- The object of a live buffer. -/
theorem At.unique (h : s.At v o) (h' : s.At v o') : o = o' := Option.some.inj (h.2.symm.trans h'.2)

/-- The object of a live buffer. -/
theorem TreeInv.exists_at (h : s.TreeInv) (hp : p ∈ s.live) : ∃ o, s.At p o := by
  obtain ⟨o, ho⟩ := h.obj p hp
  exact ⟨o, hp, ho⟩

/-- The source of a live view is live. -/
theorem TreeInv.src_at (h : s.TreeInv) (hv : s.At v o) (hsrc : o.src = some p) :
    ∃ o', s.At p o' :=
  h.exists_at (h.wf.parent_mem v hv.1 p (hv.parent.trans hsrc))

/-- A descendant shares the block. -/
theorem TreeInv.block_of_under (h : s.TreeInv) (hp : s.At p o) (hunder : s.forest.Under p v) :
    ∀ o', s.At v o' → o'.block = o.block := by
  induction hunder with
  | child hv hparent =>
    intro o' hat
    exact h.src_block _ _ _ _ hat hp (hat.parent.symm.trans hparent)
  | nested hv hparent hunder ih =>
    intro o' hat
    obtain ⟨o₁, hat₁⟩ := h.exists_at hunder.mem
    have hsrc := hat.parent.symm.trans hparent
    rw [h.src_block _ _ _ _ hat hat₁ hsrc, ih o₁ hat₁]

/-- **An unlocked buffer has its block for itself.** -/
theorem TreeInv.alone (h : s.TreeInv) (hp : s.At p o) (hsrc : o.src = none) (href : o.refcount = 0)
    (hq : s.At q o') (hblock : o'.block = o.block) : q = p := by
  have hnone : ¬ (s.forest.children p).Nonempty := by
    rw [← Finset.card_pos, ← h.refcount p o hp, href]
    exact lt_irrefl 0
  -- the root above `q` has the block of `p`, so it is `p`, which has no descendant
  rcases h.wf.rooted q hq.1 with hroot | ⟨r, hr, hroot, hunder⟩
  · exact h.root_block q p o' o hq hp (hq.parent.symm.trans hroot) hsrc hblock
  · obtain ⟨o₁, hr₁⟩ := h.exists_at hr
    have hsame : o₁.block = o.block := (h.block_of_under hr₁ hunder o' hq).symm.trans hblock
    obtain rfl := h.root_block r p o₁ o hr₁ hp (hr₁.parent.symm.trans hroot) hsrc hsame
    exact absurd hunder.children_nonempty hnone

end Forest

/-! ### Steps on the forest -/

section Steps

variable {s s' : BufWorld} {p v x : Nat} {o o' : BufObj}

/-- A live buffer has come as a leaf. -/
theorem TreeInv.forest_add (h : s.TreeInv) (hlive : s'.live = insert x s.live) (hx : s'.At x o)
    (hold : ∀ q oq, s.At q oq → ∃ oq', s'.At q oq' ∧ oq'.src = oq.src) :
    s'.forest = s.forest.add x o.src := by
  refine Forest.ext hlive ?_
  funext w
  by_cases hw : w = x
  · subst hw
    rw [hx.parent, Forest.parent_add_self]
  · rw [Forest.parent_add_of_ne hw]
    by_cases hmem : w ∈ s.live
    · obtain ⟨ow, hat⟩ := h.exists_at hmem
      obtain ⟨ow', hat', hsrc⟩ := hold w ow hat
      rw [hat'.parent, hat.parent, hsrc]
    · have hmem' : w ∉ s'.live := by
        rw [hlive, Finset.mem_insert, not_or]
        exact ⟨hw, hmem⟩
      simp only [forest, if_neg hmem, if_neg hmem']

/-- A live buffer has gone. -/
theorem TreeInv.forest_remove (h : s.TreeInv) (hlive : s'.live = s.live.erase x)
    (hold : ∀ q oq, s.At q oq → q ≠ x → ∃ oq', s'.At q oq' ∧ oq'.src = oq.src) :
    s'.forest = s.forest.remove x := by
  refine Forest.ext hlive ?_
  funext w
  have hmem' : w ∈ s'.live ↔ w ≠ x ∧ w ∈ s.live := by rw [hlive, Finset.mem_erase]
  by_cases hw : w = x
  · subst hw
    have hnot : w ∉ s'.live := fun hmem => (hmem'.mp hmem).1 rfl
    simp only [forest, if_neg hnot, Forest.remove, Function.update_self]
  · rw [Forest.parent_remove_of_ne hw]
    by_cases hmem : w ∈ s.live
    · obtain ⟨ow, hat⟩ := h.exists_at hmem
      obtain ⟨ow', hat', hsrc⟩ := hold w ow hat hw
      rw [hat'.parent, hat.parent, hsrc]
    · have hnot : w ∉ s'.live := fun hmem'' => hmem (hmem'.mp hmem'').2
      simp only [forest, if_neg hmem, if_neg hnot]

/-- **A buffer comes**: it has no views, and its source, if it is a view, counts one more. -/
theorem TreeInv.add (h : s.TreeInv) (hlive : s'.live = insert x s.live) (hx : s'.At x o)
    (hnew : x ∉ s.live) (haddr : 0 < x ∧ x < 2 ^ 64) (href : o.refcount = 0)
    (hold : ∀ q oq, s.At q oq → ∃ oq', s'.At q oq' ∧ oq'.src = oq.src ∧ oq'.block = oq.block
      ∧ oq'.refcount = oq.refcount + if o.src = some q then 1 else 0)
    (hsrc : ∀ q, o.src = some q → ∃ oq, s.At q oq ∧ o.block = oq.block)
    (hroot : o.src = none → ∀ q oq, s.At q oq → oq.block ≠ o.block)
    (hblock : ∀ q oq, s'.At q oq → (s'.heap.blocks oq.block).isSome = true) : s'.TreeInv := by
  have hforest : s'.forest = s.forest.add x o.src := by
    refine h.forest_add hlive hx fun q oq hat => ?_
    obtain ⟨oq', hat', hsrc', -⟩ := hold q oq hat
    exact ⟨oq', hat', hsrc'⟩
  -- a live buffer is the new one or an old one
  have hinv (q : Nat) (oq : BufObj) (hat : s'.At q oq) : (q = x ∧ oq = o) ∨ (q ≠ x ∧ ∃ oq₀,
      s.At q oq₀ ∧ oq.src = oq₀.src ∧ oq.block = oq₀.block
        ∧ oq.refcount = oq₀.refcount + if o.src = some q then 1 else 0) := by
    have hmem := hat.1
    rw [hlive, Finset.mem_insert] at hmem
    rcases hmem with rfl | hmem
    · exact .inl ⟨rfl, hat.unique hx⟩
    · obtain ⟨oq₀, hat₀⟩ := h.exists_at hmem
      obtain ⟨oq', hat', hkept⟩ := hold q oq₀ hat₀
      obtain rfl := hat.unique hat'
      exact .inr ⟨fun heq => hnew (heq ▸ hmem), oq₀, hat₀, hkept⟩
  refine { obj := ?_, addr := ?_, wf := ?_, refcount := ?_, block := hblock, src_block := ?_,
           root_block := ?_ }
  · intro q hq
    rw [hlive, Finset.mem_insert] at hq
    rcases hq with rfl | hq
    · exact ⟨o, hx.2⟩
    · obtain ⟨oq, hat⟩ := h.exists_at hq
      obtain ⟨oq', hat', -⟩ := hold q oq hat
      exact ⟨oq', hat'.2⟩
  · intro q hq
    rw [hlive, Finset.mem_insert] at hq
    rcases hq with rfl | hq
    · exact haddr
    · exact h.addr q hq
  · rw [hforest]
    refine h.wf.add hnew fun q hq => ?_
    obtain ⟨oq, hat, -⟩ := hsrc q hq
    exact hat.1
  · intro q oq hat
    rw [hforest, Forest.card_children_add hnew]
    rcases hinv q oq hat with ⟨rfl, rfl⟩ | ⟨hne, oq₀, hat₀, -, -, hcount⟩
    · have hself : oq.src ≠ some q := by
        intro heq
        obtain ⟨oq', hat', -⟩ := hsrc q heq
        exact hnew hat'.1
      have hnone := h.wf.children_eq_empty (show q ∉ s.forest.nodes from hnew)
      rw [href, hnone, Finset.card_empty, if_neg hself]
    · rw [hcount, h.refcount q oq₀ hat₀]
  · intro w ow q oq hw hq hsrc'
    rcases hinv w ow hw with ⟨rfl, rfl⟩ | ⟨hnew₁, ow₀, hw₀, hsrc₁, hblock₁, -⟩
    · obtain ⟨oq', hq', hsame⟩ := hsrc q hsrc'
      rcases hinv q oq hq with ⟨rfl, -⟩ | ⟨-, oq₀, hq₀, -, hblock₂, -⟩
      · exact absurd hq'.1 hnew
      · rw [hsame, hblock₂, hq'.unique hq₀]
    · rw [hsrc₁] at hsrc'
      obtain ⟨oq', hq'⟩ := h.src_at hw₀ hsrc'
      rcases hinv q oq hq with ⟨rfl, -⟩ | ⟨-, oq₀, hq₀, -, hblock₂, -⟩
      · exact absurd hq'.1 hnew
      · rw [hblock₁, hblock₂, h.src_block w ow₀ q oq₀ hw₀ hq₀ hsrc']
  · intro w q ow oq hw hq hw' hq' hsame
    rcases hinv w ow hw with ⟨rfl, rfl⟩ | ⟨hnew₁, ow₀, hw₀, hsrc₁, hblock₁, -⟩
    · rcases hinv q oq hq with ⟨rfl, -⟩ | ⟨-, oq₀, hq₀, -, hblock₂, -⟩
      · rfl
      · exact absurd (hblock₂.symm.trans hsame.symm) (hroot hw' q oq₀ hq₀)
    · rcases hinv q oq hq with ⟨rfl, rfl⟩ | ⟨-, oq₀, hq₀, hsrc₂, hblock₂, -⟩
      · exact absurd (hblock₁.symm.trans hsame) (hroot hq' w ow₀ hw₀)
      · exact h.root_block w q ow₀ oq₀ hw₀ hq₀ (hsrc₁.symm.trans hw') (hsrc₂.symm.trans hq')
          (hblock₁.symm.trans (hsame.trans hblock₂))

/-- **A buffer without views goes**, and its source counts one less. -/
theorem TreeInv.remove (h : s.TreeInv) (hlive : s'.live = s.live.erase x) (hx : s.At x o)
    (href : o.refcount = 0)
    (hold : ∀ q oq, s.At q oq → q ≠ x → ∃ oq', s'.At q oq' ∧ oq'.src = oq.src ∧ oq'.block = oq.block
      ∧ oq'.refcount = oq.refcount - if o.src = some q then 1 else 0)
    (hblock : ∀ q oq, s'.At q oq → (s'.heap.blocks oq.block).isSome = true) : s'.TreeInv := by
  have hforest : s'.forest = s.forest.remove x := by
    refine h.forest_remove hlive fun q oq hat hne => ?_
    obtain ⟨oq', hat', hsrc', -⟩ := hold q oq hat hne
    exact ⟨oq', hat', hsrc'⟩
  have hinv (q : Nat) (oq : BufObj) (hat : s'.At q oq) : ∃ oq₀, s.At q oq₀ ∧ oq.src = oq₀.src
      ∧ oq.block = oq₀.block ∧ oq.refcount = oq₀.refcount - if o.src = some q then 1 else 0 := by
    have hmem := hat.1
    rw [hlive, Finset.mem_erase] at hmem
    obtain ⟨oq₀, hat₀⟩ := h.exists_at hmem.2
    obtain ⟨oq', hat', hkept⟩ := hold q oq₀ hat₀ hmem.1
    obtain rfl := hat.unique hat'
    exact ⟨oq₀, hat₀, hkept⟩
  refine { obj := ?_, addr := ?_, wf := ?_, refcount := ?_, block := hblock, src_block := ?_,
           root_block := ?_ }
  · intro q hq
    rw [hlive, Finset.mem_erase] at hq
    obtain ⟨oq, hat⟩ := h.exists_at hq.2
    obtain ⟨oq', hat', -⟩ := hold q oq hat hq.1
    exact ⟨oq', hat'.2⟩
  · intro q hq
    rw [hlive, Finset.mem_erase] at hq
    exact h.addr q hq.2
  · rw [hforest]
    refine h.wf.remove (Finset.card_eq_zero.mp ?_)
    rw [← h.refcount x o hx, href]
  · intro q oq hat
    obtain ⟨oq₀, hat₀, -, -, hcount⟩ := hinv q oq hat
    rw [hforest, Forest.card_children_remove hx.1, hx.parent, hcount, h.refcount q oq₀ hat₀]
  · intro w ow q oq hw hq hsrc'
    obtain ⟨ow₀, hw₀, hsrc₁, hblock₁, -⟩ := hinv w ow hw
    obtain ⟨oq₀, hq₀, -, hblock₂, -⟩ := hinv q oq hq
    rw [hblock₁, hblock₂, h.src_block w ow₀ q oq₀ hw₀ hq₀ (hsrc₁.symm.trans hsrc')]
  · intro w q ow oq hw hq hw' hq' hsame
    obtain ⟨ow₀, hw₀, hsrc₁, hblock₁, -⟩ := hinv w ow hw
    obtain ⟨oq₀, hq₀, hsrc₂, hblock₂, -⟩ := hinv q oq hq
    exact h.root_block w q ow₀ oq₀ hw₀ hq₀ (hsrc₁.symm.trans hw') (hsrc₂.symm.trans hq')
      (hblock₁.symm.trans (hsame.trans hblock₂))

/-- **A call on a buffer** leaves its links alone; it has moved to a new block only if it had no
view and was none. -/
theorem TreeInv.update (h : s.TreeInv) (hlive : s'.live = s.live) (hp : s.At p o) (hp' : s'.At p o')
    (hsrc : o'.src = o.src) (href : o'.refcount = o.refcount)
    (hold : ∀ q oq, s.At q oq → q ≠ p → s'.At q oq)
    (hmove : o'.block = o.block ∨ (o.src = none ∧ o.refcount = 0
      ∧ ∀ q oq, s.At q oq → oq.block ≠ o'.block))
    (hblock : ∀ q oq, s'.At q oq → (s'.heap.blocks oq.block).isSome = true) : s'.TreeInv := by
  have hinv (q : Nat) (oq : BufObj) (hat : s'.At q oq) : (q = p ∧ oq = o') ∨ (q ≠ p ∧ s.At q oq) := by
    by_cases hq : q = p
    · subst hq
      exact .inl ⟨rfl, hat.unique hp'⟩
    · obtain ⟨oq₀, hat₀⟩ := h.exists_at (hlive ▸ hat.1)
      obtain rfl := hat.unique (hold q oq₀ hat₀ hq)
      exact .inr ⟨hq, hat₀⟩
  have hforest : s'.forest = s.forest := by
    refine Forest.ext hlive ?_
    funext w
    by_cases hmem : w ∈ s.live
    · obtain ⟨ow, hat⟩ := h.exists_at hmem
      by_cases hw : w = p
      · subst hw
        rw [hp'.parent, hp.parent, hsrc]
      · rw [(hold w ow hat hw).parent, hat.parent]
    · have hmem' : w ∉ s'.live := hlive ▸ hmem
      simp only [forest, if_neg hmem, if_neg hmem']
  -- the block of another buffer is the new block exactly when it was the old one
  have hshare (q : Nat) (oq : BufObj) (hat : s.At q oq) (hq : q ≠ p) :
      oq.block = o'.block ↔ oq.block = o.block := by
    rcases hmove with hsame | ⟨hroot, hzero, hfresh⟩
    · rw [hsame]
    · exact iff_of_false (hfresh q oq hat) fun heq => hq (h.alone hp hroot hzero hat heq)
  refine { obj := ?_, addr := hlive ▸ h.addr, wf := hforest ▸ h.wf, refcount := ?_, block := hblock,
           src_block := ?_, root_block := ?_ }
  · intro q hq
    by_cases hqp : q = p
    · subst hqp
      exact ⟨o', hp'.2⟩
    · obtain ⟨oq, hat⟩ := h.exists_at (hlive ▸ hq)
      exact ⟨oq, (hold q oq hat hqp).2⟩
  · intro q oq hat
    rw [hforest]
    rcases hinv q oq hat with ⟨rfl, rfl⟩ | ⟨-, hat₀⟩
    · rw [href, h.refcount q o hp]
    · exact h.refcount q oq hat₀
  · intro w ow q oq hw hq hsrc'
    rcases hinv w ow hw with ⟨rfl, rfl⟩ | ⟨hne₁, hw₀⟩
    · rcases hinv q oq hq with ⟨rfl, rfl⟩ | ⟨hne₂, hq₀⟩
      · rfl
      · exact ((hshare q oq hq₀ hne₂).mpr
          (h.src_block w o q oq hp hq₀ (hsrc.symm.trans hsrc')).symm).symm
    · rcases hinv q oq hq with ⟨rfl, rfl⟩ | ⟨hne₂, hq₀⟩
      · exact (hshare w ow hw₀ hne₁).mpr (h.src_block w ow q o hw₀ hp hsrc')
      · exact h.src_block w ow q oq hw₀ hq₀ hsrc'
  · intro w q ow oq hw hq hw' hq' hsame
    rcases hinv w ow hw with ⟨rfl, rfl⟩ | ⟨hne₁, hw₀⟩
    · rcases hinv q oq hq with ⟨rfl, rfl⟩ | ⟨hne₂, hq₀⟩
      · rfl
      · exact h.root_block w q o oq hp hq₀ (hsrc.symm.trans hw') hq'
          ((hshare q oq hq₀ hne₂).mp hsame.symm).symm
    · rcases hinv q oq hq with ⟨rfl, rfl⟩ | ⟨hne₂, hq₀⟩
      · exact h.root_block w q ow o hw₀ hp hw' (hsrc.symm.trans hq')
          ((hshare w ow hw₀ hne₁).mp hsame)
      · exact h.root_block w q ow oq hw₀ hq₀ hw' hq' hsame

/-- Fewer views are cached. -/
theorem CacheInv.of_le (h : s.CacheInv) (hle : ∀ q oq c, s'.At q oq → oq.cache = some c →
      (∃ oq₀, s.At q oq₀ ∧ oq₀.cache = some c) ∧ c ∉ s'.live ∧ (s'.heap.objs c).isSome = true) :
    s'.CacheInv where
  not_live q oq c hat hc := (hle q oq c hat hc).2.1
  alloc q oq c hat hc := (hle q oq c hat hc).2.2
  addr q oq c hat hc := by
    obtain ⟨⟨oq₀, hat₀, hc₀⟩, -⟩ := hle q oq c hat hc
    exact h.addr q oq₀ c hat₀ hc₀
  inj w q ow oq c hw hq hcw hcq := by
    obtain ⟨⟨ow₀, hw₀, hcw₀⟩, -⟩ := hle w ow c hw hcw
    obtain ⟨⟨oq₀, hq₀, hcq₀⟩, -⟩ := hle q oq c hq hcq
    exact h.inj w q ow₀ oq₀ c hw₀ hq₀ hcw₀ hcq₀

/-- The view `p` is cached by `q`, and no other one is new. -/
theorem CacheInv.put (h : s.CacheInv) (q : Nat) (hp : p ∉ s'.live)
    (halloc : (s'.heap.objs p).isSome = true) (haddr : 0 < p ∧ p < 2 ^ 64)
    (hle : ∀ w ow c, s'.At w ow → ow.cache = some c →
      (w = q ∧ c = p) ∨ (c ≠ p ∧ (∃ ow₀, s.At w ow₀ ∧ ow₀.cache = some c) ∧ c ∉ s'.live
        ∧ (s'.heap.objs c).isSome = true)) : s'.CacheInv where
  not_live w ow c hw hc := by
    rcases hle w ow c hw hc with ⟨-, rfl⟩ | ⟨-, -, hnot, -⟩
    · exact hp
    · exact hnot
  alloc w ow c hw hc := by
    rcases hle w ow c hw hc with ⟨-, rfl⟩ | ⟨-, -, -, hsome⟩
    · exact halloc
    · exact hsome
  addr w ow c hw hc := by
    rcases hle w ow c hw hc with ⟨-, rfl⟩ | ⟨-, ⟨ow₀, hw₀, hc₀⟩, -⟩
    · exact haddr
    · exact h.addr w ow₀ c hw₀ hc₀
  inj w w' ow ow' c hw hw' hc hc' := by
    rcases hle w ow c hw hc with ⟨rfl, rfl⟩ | ⟨hne, ⟨ow₀, hw₀, hc₀⟩, -⟩
    · rcases hle w' ow' c hw' hc' with ⟨rfl, -⟩ | ⟨hne, -⟩
      · rfl
      · exact absurd rfl hne
    · rcases hle w' ow' c hw' hc' with ⟨-, rfl⟩ | ⟨-, ⟨ow₀', hw₀', hc₀'⟩, -⟩
      · exact absurd rfl hne
      · exact h.inj w w' ow₀ ow₀' c hw₀ hw₀' hc₀ hc₀'

end Steps

/-! ### Every call keeps the invariant -/

/-- **The invariant of a run.** -/
structure Inv (s : BufWorld) : Prop where
  /-- The forest. -/
  tree : s.TreeInv
  /-- The caches. -/
  caches : s.CacheInv

/-- Nothing is live in the beginning. -/
theorem inv_emptyWorld : emptyWorld.Inv where
  tree :=
    { obj := fun p hp => absurd hp (Finset.notMem_empty p)
      addr := fun p hp => absurd hp (Finset.notMem_empty p)
      wf := ⟨fun p hp => absurd hp (Finset.notMem_empty p),
        fun p hp => absurd hp (Finset.notMem_empty p)⟩
      refcount := fun p _ hp => absurd hp.1 (Finset.notMem_empty p)
      block := fun p _ hp => absurd hp.1 (Finset.notMem_empty p)
      src_block := fun v _ _ _ hv => absurd hv.1 (Finset.notMem_empty v)
      root_block := fun p _ _ _ hp => absurd hp.1 (Finset.notMem_empty p) }
  caches :=
    { not_live := fun p _ _ hp => absurd hp.1 (Finset.notMem_empty p)
      alloc := fun p _ _ hp => absurd hp.1 (Finset.notMem_empty p)
      addr := fun p _ _ hp => absurd hp.1 (Finset.notMem_empty p)
      inj := fun p _ _ _ _ hp => absurd hp.1 (Finset.notMem_empty p) }

section Sections

variable {s : BufWorld} {h' : BufHeap} {p k : Nat} {c : BufCall}

/-- An unlocked buffer is no view and has none. -/
theorem not_locked_iff {o : BufObj} {m : List UInt8} :
    bufWriteLocked (o.toBuffer m) = false ↔ o.src = none ∧ o.refcount = 0 := by
  have hview : bufIsReadonlyView (o.toBuffer m) = o.src.isSome := rfl
  have href : (o.toBuffer m).refcount = o.refcount := rfl
  rw [bufWriteLocked, Bool.or_eq_false_iff, decide_eq_false_iff_not, hview, href,
    Option.isSome_eq_false_iff, Option.isNone_iff_eq_none, not_lt, Nat.le_zero]

/-- The position at which a call on `o` stores what it prepends. -/
def prependAt (o : BufObj) (c : BufCall) : Nat := o.off + szSub o.readIdx c.prepended.length

/-- **What a call does to the blocks**: a buffer without views may move to a new block or change its
own; any other buffer keeps its block as it is, but for what the call prepends. -/
inductive BlockStep (h h' : BufHeap) (c : BufCall) (k : Nat) (o o' : BufObj) : Prop
  /-- The old block is freed. -/
  | moved (m' : List UInt8) (hroot : o.src = none) (href : o.refcount = 0) (hblock : o'.block = k)
      (hblocks : h'.blocks = Function.update (Function.update h.blocks o.block none) k (some m'))
  /-- The block is written. -/
  | written (m' : List UInt8) (hroot : o.src = none) (href : o.refcount = 0)
      (hblock : o'.block = o.block) (hblocks : h'.blocks = Function.update h.blocks o.block (some m'))
  /-- The block is the same. -/
  | same (hsz : o'.sz = o.sz) (hoff : o'.off = o.off) (hblock : o'.block = o.block)
      (hblocks : h'.blocks = h.blocks)
  /-- Bytes are prepended. -/
  | prepended (m : List UInt8) (hsz : o'.sz = o.sz) (hoff : o'.off = o.off)
      (hblock : o'.block = o.block) (hm : h.blocks o.block = some m)
      (hin : prependAt o c + c.prepended.length ≤ m.length)
      (hblocks : h'.blocks = Function.update h.blocks o.block
        (some (splice m (prependAt o c) c.prepended)))

/-- **What a call does to the heap.** -/
theorem call_cases {h : BufHeap} (hcall : h.call p c k = .ok h') :
    ∃ o o', h.objs p = some o ∧ h'.objs p = some o' ∧ (∀ q, q ≠ p → h'.objs q = h.objs q)
      ∧ (o'.src = o.src ∧ o'.refcount = o.refcount ∧ o'.cache = o.cache)
      ∧ BlockStep h h' c k o o' := by
  obtain ⟨o, ho, hcall⟩ := exec_bind_eq_ok.mp hcall
  obtain ⟨m, hm, hcall⟩ := exec_bind_eq_ok.mp hcall
  obtain ⟨b, hb, hcall⟩ := exec_bind_eq_ok.mp hcall
  obtain ⟨⟨href, hsrc, hcache⟩, hbytes⟩ := BufCall.effect hb
  rw [not_locked_iff] at hbytes
  rw [BufHeap.deref_eq_ok] at ho
  rw [BufHeap.bytes_eq_ok] at hm
  split at hcall
  · rename_i hswaps
    cases hcall
    refine ⟨o, _, ho, BufHeap.setObj_objs_self _ _ _,
      fun q hq => BufHeap.setObj_objs_of_ne _ hq _, ⟨hsrc, href, hcache⟩, ?_⟩
    rcases hbytes with ⟨hroot, hzero⟩ | ⟨hnot, -⟩
    · exact .moved b.buf hroot hzero rfl rfl
    · rw [hswaps] at hnot
      cases hnot
  · cases hcall
    refine ⟨o, _, ho, BufHeap.setObj_objs_self _ _ _,
      fun q hq => BufHeap.setObj_objs_of_ne _ hq _, ⟨hsrc, href, hcache⟩, ?_⟩
    have hsame : Function.update h.blocks o.block (some m) = h.blocks := by
      rw [← hm, Function.update_eq_self]
    rcases hbytes with ⟨hroot, hzero⟩ | ⟨-, hsz, hbuf | ⟨hin, hbuf⟩⟩
    · exact .written _ hroot hzero rfl rfl
    · refine .same hsz rfl rfl ?_
      rw [BufHeap.setObj_blocks, BufHeap.setBlock, hbuf, BufObj.toBuffer, List.take_append_drop]
      exact hsame
    · rw [hbuf]
      simp only [BufObj.toBuffer] at hin ⊢
      rw [List.length_drop] at hin
      by_cases hoff : o.off ≤ m.length
      · refine .prepended m hsz rfl rfl hm ?_ ?_
        · unfold prependAt
          omega
        · rw [take_append_splice_drop, BufHeap.setObj_blocks, BufHeap.setBlock, prependAt]
      · -- nothing is stored behind the end of the block
        have hnil : c.prepended = [] := List.length_eq_zero_iff.mp (by omega)
        refine .same hsz rfl rfl ?_
        rw [BufHeap.setObj_blocks, BufHeap.setBlock, hnil, splice_nil, List.take_append_drop]
        exact hsame

/-- The blocks behind a call: those of the others stay allocated. -/
theorem BlockStep.isSome {h h' : BufHeap} {o o' : BufObj} (hstep : BlockStep h h' c k o o') {j : Nat}
    (hj : (h.blocks j).isSome = true) (hother : o.src = none → o.refcount = 0 → j ≠ o.block) :
    (h'.blocks j).isSome = true := by
  cases hstep with
  | moved m' hroot href _ hblocks =>
    rw [hblocks]
    by_cases hjk : j = k
    · rw [hjk, Function.update_self]
      rfl
    · rw [Function.update_of_ne hjk, Function.update_of_ne (hother hroot href)]
      exact hj
  | written m' hroot href _ hblocks =>
    rw [hblocks, Function.update_of_ne (hother hroot href)]
    exact hj
  | same _ _ _ hblocks =>
    rw [hblocks]
    exact hj
  | prepended m _ _ _ _ _ hblocks =>
    rw [hblocks]
    by_cases hjo : j = o.block
    · rw [hjo, Function.update_self]
      rfl
    · rw [Function.update_of_ne hjo]
      exact hj

/-- The buffer of the call has its block. -/
theorem BlockStep.isSome_self {h h' : BufHeap} {o o' : BufObj} (hstep : BlockStep h h' c k o o')
    (hj : (h.blocks o.block).isSome = true) : (h'.blocks o'.block).isSome = true := by
  cases hstep with
  | moved m' _ _ hblock hblocks =>
    rw [hblocks, hblock, Function.update_self]
    rfl
  | written m' _ _ hblock hblocks =>
    rw [hblocks, hblock, Function.update_self]
    rfl
  | same _ _ hblock hblocks =>
    rw [hblocks, hblock]
    exact hj
  | prepended m _ _ hblock _ _ hblocks =>
    rw [hblocks, hblock, Function.update_self]
    rfl

/-- An address that `calloc` returns is not that of a live buffer. -/
theorem TreeInv.not_live_of_fresh (h : s.TreeInv) (hp : s.FreshObj p) : p ∉ s.live := by
  intro hmem
  obtain ⟨o, ho⟩ := h.obj p hmem
  have hnone := hp.2.2
  rw [ho] at hnone
  cases hnone

/-- A block that `calloc` returns is not that of a live buffer. -/
theorem TreeInv.block_ne_of_fresh (h : s.TreeInv) (hk : s.FreshBlock k) {q : Nat} {oq : BufObj}
    (hq : s.At q oq) : oq.block ≠ k := by
  intro heq
  have hsome := h.block q oq hq
  rw [heq, Option.isNone_iff_eq_none.mp hk] at hsome
  cases hsome

/-- **A call keeps the invariant.** -/
theorem Inv.call (h : s.Inv) (hp : p ∈ s.live) (hk : s.FreshBlock k)
    (hcall : s.heap.call p c k = .ok h') : (⟨h', s.live⟩ : BufWorld).Inv := by
  obtain ⟨o, o', ho, ho', hothers, ⟨hsrc, href, hcache⟩, hblocks⟩ := call_cases hcall
  have hat : s.At p o := ⟨hp, ho⟩
  have hat' : (⟨h', s.live⟩ : BufWorld).At p o' := ⟨hp, ho'⟩
  have hold (q : Nat) (oq : BufObj) (hq : s.At q oq) (hne : q ≠ p) :
      (⟨h', s.live⟩ : BufWorld).At q oq := ⟨hq.1, (hothers q hne).trans hq.2⟩
  have hback (q : Nat) (oq : BufObj) (hq : (⟨h', s.live⟩ : BufWorld).At q oq) (hne : q ≠ p) :
      s.At q oq := ⟨hq.1, (hothers q hne).symm.trans hq.2⟩
  constructor
  · refine h.tree.update rfl hat hat' hsrc href hold ?_ ?_
    · cases hblocks with
      | moved m' hroot hzero hblock _ =>
        exact .inr ⟨hroot, hzero, fun q oq hq => hblock ▸ h.tree.block_ne_of_fresh hk hq⟩
      | written _ _ _ hblock _ => exact .inl hblock
      | same _ _ hblock _ => exact .inl hblock
      | prepended _ _ _ hblock _ _ _ => exact .inl hblock
    · intro q oq hq
      by_cases hqp : q = p
      · subst hqp
        rw [hq.unique hat']
        exact hblocks.isSome_self (h.tree.block q o hat)
      · have hq₀ := hback q oq hq hqp
        exact hblocks.isSome (h.tree.block q oq hq₀) fun hroot hzero heq =>
          hqp (h.tree.alone hat hroot hzero hq₀ heq)
  · refine h.caches.of_le fun q oq v hq hv => ?_
    obtain ⟨oq₀, hq₀, hv₀⟩ : ∃ oq₀, s.At q oq₀ ∧ oq₀.cache = some v := by
      by_cases hqp : q = p
      · subst hqp
        exact ⟨o, hat, hcache.symm.trans ((hq.unique hat') ▸ hv)⟩
      · exact ⟨oq, hback q oq hq hqp, hv⟩
    have hnot := h.caches.not_live q oq₀ v hq₀ hv₀
    refine ⟨⟨oq₀, hq₀, hv₀⟩, hnot, ?_⟩
    have hvp : v ≠ p := fun heq => hnot (heq ▸ hp)
    show (h'.objs v).isSome = true
    rw [hothers v hvp]
    exact h.caches.alloc q oq₀ v hq₀ hv₀

/-- **`buf_create_ex` keeps the invariant.** -/
theorem Inv.create (h : s.Inv) {o : BufObj} {m : List UInt8} (hp : s.FreshObj p) (hk : s.FreshBlock k)
    (hsrc : o.src = none) (href : o.refcount = 0) (hcache : o.cache = none) (hblock : o.block = k) :
    (⟨(s.heap.setBlock k (some m)).setObj p (some o), insert p s.live⟩ : BufWorld).Inv := by
  have hnew : p ∉ s.live := h.tree.not_live_of_fresh hp
  have hfresh (q : Nat) (oq : BufObj) (hq : s.At q oq) : oq.block ≠ k :=
    h.tree.block_ne_of_fresh hk hq
  obtain ⟨hpos, hlt, hnone⟩ := hp
  rw [Option.isNone_iff_eq_none] at hnone
  have hat : (⟨(s.heap.setBlock k (some m)).setObj p (some o), insert p s.live⟩ : BufWorld).At p o :=
    ⟨Finset.mem_insert_self p _, BufHeap.setObj_objs_self _ _ _⟩
  have hobjs (q : Nat) (hne : q ≠ p) :
      ((s.heap.setBlock k (some m)).setObj p (some o)).objs q = s.heap.objs q :=
    BufHeap.setObj_objs_of_ne _ hne _
  have hinv (q : Nat) (oq : BufObj) (hq : (⟨(s.heap.setBlock k (some m)).setObj p (some o),
      insert p s.live⟩ : BufWorld).At q oq) : (q = p ∧ oq = o) ∨ s.At q oq := by
    rcases Finset.mem_insert.mp hq.1 with rfl | hmem
    · exact .inl ⟨rfl, hq.unique hat⟩
    · have hne : q ≠ p := fun heq => hnew (heq ▸ hmem)
      exact .inr ⟨hmem, (hobjs q hne).symm.trans hq.2⟩
  constructor
  · refine h.tree.add rfl hat hnew ⟨hpos, hlt⟩ href ?_ ?_ ?_ ?_
    · intro q oq hq
      have hne : q ≠ p := fun heq => hnew (heq ▸ hq.1)
      refine ⟨oq, ⟨Finset.mem_insert_of_mem hq.1, (hobjs q hne).trans hq.2⟩, rfl, rfl, ?_⟩
      rw [hsrc, if_neg (fun heq => nomatch heq), Nat.add_zero]
    · intro q hq
      rw [hsrc] at hq
      cases hq
    · intro _ q oq hq
      rw [hblock]
      exact hfresh q oq hq
    · intro q oq hq
      show ((s.heap.setBlock k (some m)).blocks oq.block).isSome = true
      rcases hinv q oq hq with ⟨rfl, rfl⟩ | hq₀
      · rw [hblock, BufHeap.setBlock_blocks_self]
        rfl
      · rw [BufHeap.setBlock_blocks_of_ne _ (hfresh q oq hq₀)]
        exact h.tree.block q oq hq₀
  · refine h.caches.of_le fun q oq v hq hv => ?_
    rcases hinv q oq hq with ⟨rfl, rfl⟩ | hq₀
    · rw [hcache] at hv
      cases hv
    · have halloc := h.caches.alloc q oq v hq₀ hv
      have hvp : v ≠ p := by
        rintro rfl
        rw [hnone] at halloc
        cases halloc
      refine ⟨⟨oq, hq₀, hv⟩, ?_, ?_⟩
      · rw [Finset.mem_insert, not_or]
        exact ⟨hvp, h.caches.not_live q oq v hq₀ hv⟩
      · show (((s.heap.setBlock k (some m)).setObj p (some o)).objs v).isSome = true
        rw [hobjs v hvp]
        exact halloc

/-- Live buffers have addresses, so while an address is free the counters do not wrap. -/
theorem TreeInv.refcount_lt (h : s.TreeInv) {v : Nat} {o : BufObj} (hp : s.At p o) (hv : v ∉ s.live)
    (haddr : 0 < v ∧ v < 2 ^ 64) : o.refcount + 1 < 2 ^ 64 := by
  have hsub : insert v s.live ⊆ Finset.Ioo 0 (2 ^ 64) := by
    intro q hq
    rw [Finset.mem_Ioo]
    rcases Finset.mem_insert.mp hq with rfl | hq
    · exact haddr
    · exact h.addr q hq
  have hcard := Finset.card_le_card hsub
  rw [Finset.card_insert_of_notMem hv, Nat.card_Ioo] at hcard
  have hle : (s.forest.children p).card ≤ s.live.card := Finset.card_filter_le _ _
  rw [h.refcount p o hp]
  omega

/-- **What `buf_readonlyView` does**: it fails to allocate, or hands out the cached view or a new
object. -/
theorem readonlyView_cases {h : BufHeap} {sz : Int} {alloc r : Option Nat}
    (hview : heapReadonlyView h p sz alloc = .ok (r, h')) :
    (r = none ∧ h' = h) ∨ ∃ v o n, r = some v ∧ h.objs p = some o
      ∧ (o.cache = some v ∨ (o.cache = none ∧ alloc = some v))
      ∧ h' = (h.setObj v (some (viewOf p o n))).setObj p
        (some { o with refcount := szAdd o.refcount 1, cache := none }) := by
  obtain ⟨_, _, hview⟩ := exec_bind_eq_ok.mp hview
  obtain ⟨o, ho, hview⟩ := exec_bind_eq_ok.mp hview
  rw [BufHeap.deref_eq_ok] at ho
  dsimp only at hview
  cases hcache : o.cache with
  | some v =>
    rw [hcache] at hview
    obtain ⟨_, _, hview⟩ := exec_bind_eq_ok.mp hview
    cases hview
    exact .inr ⟨v, o, _, rfl, ho, .inl hcache, rfl⟩
  | none =>
    rw [hcache] at hview
    cases alloc with
    | none =>
      cases hview
      exact .inl ⟨rfl, rfl⟩
    | some v =>
      have hsame : { o with refcount := szAdd o.refcount 1, cache := none }
          = { o with refcount := szAdd o.refcount 1 } := by rw [← hcache]
      cases hview
      exact .inr ⟨v, o, _, rfl, ho, .inr ⟨hcache, rfl⟩, by rw [hsame]⟩

/-- **`buf_readonlyView` keeps the invariant.** -/
theorem Inv.view (h : s.Inv) {v n : Nat} {o : BufObj} (hp : s.At p o) (hv : v ∉ s.live)
    (haddr : 0 < v ∧ v < 2 ^ 64) (hcached : ∀ q oq, s.At q oq → q ≠ p → oq.cache ≠ some v) :
    (⟨(s.heap.setObj v (some (viewOf p o n))).setObj p
        (some { o with refcount := szAdd o.refcount 1, cache := none }),
      insert v s.live⟩ : BufWorld).Inv := by
  generalize hs' : (⟨(s.heap.setObj v (some (viewOf p o n))).setObj p
      (some { o with refcount := szAdd o.refcount 1, cache := none }), insert v s.live⟩ : BufWorld) = s'
  have hlive : s'.live = insert v s.live := by rw [← hs']
  have hblocks : s'.heap.blocks = s.heap.blocks := by rw [← hs']; rfl
  have hsrcv : (viewOf p o n).src = some p := rfl
  have hvp : v ≠ p := fun heq => hv (heq ▸ hp.1)
  have hatp : s'.At p { o with refcount := szAdd o.refcount 1, cache := none } := by
    rw [← hs']
    exact ⟨Finset.mem_insert_of_mem hp.1, BufHeap.setObj_objs_self _ _ _⟩
  have hatv : s'.At v (viewOf p o n) := by
    rw [← hs']
    exact ⟨Finset.mem_insert_self v _,
      (BufHeap.setObj_objs_of_ne _ hvp _).trans (BufHeap.setObj_objs_self _ _ _)⟩
  have hobjs (q : Nat) (hqv : q ≠ v) (hqp : q ≠ p) : s'.heap.objs q = s.heap.objs q := by
    rw [← hs']
    exact (BufHeap.setObj_objs_of_ne _ hqp _).trans (BufHeap.setObj_objs_of_ne _ hqv _)
  -- the old buffers: `p` counts one more, the others are as they were
  have hold (q : Nat) (oq : BufObj) (hq : s.At q oq) : ∃ oq', s'.At q oq' ∧ oq'.src = oq.src
      ∧ oq'.block = oq.block
      ∧ oq'.refcount = oq.refcount + if (viewOf p o n).src = some q then 1 else 0 := by
    by_cases hqp : q = p
    · subst hqp
      obtain rfl := hq.unique hp
      refine ⟨_, hatp, rfl, rfl, ?_⟩
      rw [hsrcv, if_pos rfl]
      exact szAdd_eq (h.tree.refcount_lt hp hv haddr)
    · have hqv : q ≠ v := fun heq => hv (heq ▸ hq.1)
      refine ⟨oq, ⟨hlive ▸ Finset.mem_insert_of_mem hq.1, (hobjs q hqv hqp).trans hq.2⟩, rfl, rfl, ?_⟩
      rw [hsrcv, if_neg fun heq => hqp (Option.some.inj heq).symm, Nat.add_zero]
  constructor
  · refine h.tree.add hlive hatv hv haddr rfl hold ?_ ?_ ?_
    · intro q hq
      obtain rfl : p = q := Option.some.inj hq
      exact ⟨o, hp, rfl⟩
    · intro hnone
      cases hnone
    · intro q oq hq
      rw [hblocks]
      have hmem := hq.1
      rw [hlive, Finset.mem_insert] at hmem
      rcases hmem with rfl | hmem
      · rw [hq.unique hatv]
        exact h.tree.block p o hp
      · obtain ⟨oq₀, hq₀⟩ := h.tree.exists_at hmem
        obtain ⟨oq', hq', -, hblock, -⟩ := hold q oq₀ hq₀
        rw [hq.unique hq', hblock]
        exact h.tree.block q oq₀ hq₀
  · refine h.caches.of_le fun q oq w hq hw => ?_
    have hqv : q ≠ v := by
      rintro rfl
      rw [hq.unique hatv] at hw
      cases hw
    have hqp : q ≠ p := by
      rintro rfl
      rw [hq.unique hatp] at hw
      cases hw
    have hmem : q ∈ s.live := (Finset.mem_insert.mp (hlive ▸ hq.1)).resolve_left hqv
    have hq₀ : s.At q oq := ⟨hmem, (hobjs q hqv hqp).symm.trans hq.2⟩
    have hwv : w ≠ v := fun heq => hcached q oq hq₀ hqp (heq ▸ hw)
    have hwlive := h.caches.not_live q oq w hq₀ hw
    have hwp : w ≠ p := fun heq => hwlive (heq ▸ hp.1)
    refine ⟨⟨oq, hq₀, hw⟩, ?_, ?_⟩
    · rw [hlive, Finset.mem_insert, not_or]
      exact ⟨hwv, hwlive⟩
    · rw [hobjs w hwv hwp]
      exact h.caches.alloc q oq w hq₀ hw

/-- The view `p` of `q` has been released: its source `oq`, now `oq'`, counts one less, and the view
is cached or freed. -/
structure ViewReleased (h h' : BufHeap) (p q : Nat) (oq oq' : BufObj) : Prop where
  /-- The blocks are the same. -/
  blocks : h'.blocks = h.blocks
  /-- The source. -/
  source : h'.objs q = some oq'
  /-- The other objects are the same. -/
  others : ∀ w, w ≠ p → w ≠ q → h'.objs w = h.objs w
  /-- The links of the source. -/
  links : oq'.src = oq.src ∧ oq'.refcount = szSub oq.refcount 1
  /-- The bytes of the source. -/
  place : oq'.block = oq.block ∧ oq'.off = oq.off ∧ oq'.sz = oq.sz
  /-- The view. -/
  cache : (oq'.cache = some p ∧ h'.objs p = h.objs p) ∨ oq'.cache = oq.cache

/-- **What `buf_release` does**: a view leaves its source, another buffer is freed with its block
and its cached view. -/
theorem release_cases {h : BufHeap} (hrel : heapRelease h p = .ok h') :
    ∃ o, h.objs p = some o ∧ o.refcount = 0
      ∧ ((∃ q oq oq', o.src = some q ∧ h.objs q = some oq ∧ (q ≠ p → ViewReleased h h' p q oq oq'))
        ∨ (o.src = none ∧ h'.blocks = Function.update h.blocks o.block none
          ∧ ∀ q, q ≠ p → o.cache ≠ some q → h'.objs q = h.objs q)) := by
  obtain ⟨o, ho, hrel⟩ := exec_bind_eq_ok.mp hrel
  obtain ⟨_, hassert, hrel⟩ := exec_bind_eq_ok.mp hrel
  rw [BufHeap.deref_eq_ok] at ho
  have hzero : o.refcount = 0 := by
    by_contra hne
    rw [cassert_of_not hne] at hassert
    cases hassert
  refine ⟨o, ho, hzero, ?_⟩
  cases hsrc : o.src with
  | some q =>
    rw [hsrc] at hrel
    obtain ⟨oq, hoq, hrel⟩ := exec_bind_eq_ok.mp hrel
    rw [BufHeap.deref_eq_ok] at hoq
    cases hcache : oq.cache with
    | none =>
      rw [hcache] at hrel
      cases hrel
      refine .inl ⟨q, oq, { oq with refcount := szSub oq.refcount 1, cache := some p }, rfl, hoq,
        fun hqp => ?_⟩
      exact { blocks := rfl, source := BufHeap.setObj_objs_self _ _ _,
              others := fun w _ hw => BufHeap.setObj_objs_of_ne _ hw _, links := ⟨rfl, rfl⟩,
              place := ⟨rfl, rfl, rfl⟩,
              cache := .inl ⟨rfl, BufHeap.setObj_objs_of_ne _ hqp.symm _⟩ }
    | some c =>
      simp only [hcache] at hrel
      cases hrel
      refine .inl ⟨q, oq, { oq with refcount := szSub oq.refcount 1, cache := some c }, rfl, hoq,
        fun hqp => ?_⟩
      exact { blocks := rfl,
              source := (BufHeap.setObj_objs_of_ne _ hqp _).trans (BufHeap.setObj_objs_self _ _ _),
              others := fun w hwp hwq =>
                (BufHeap.setObj_objs_of_ne _ hwp _).trans (BufHeap.setObj_objs_of_ne _ hwq _),
              links := ⟨rfl, rfl⟩, place := ⟨rfl, rfl, rfl⟩, cache := .inr hcache.symm }
  | none =>
    rw [hsrc] at hrel
    obtain ⟨_, _, hrel⟩ := exec_bind_eq_ok.mp hrel
    cases hcache : o.cache with
    | none =>
      rw [hcache] at hrel
      cases hrel
      exact .inr ⟨rfl, rfl, fun q hq _ => BufHeap.setObj_objs_of_ne _ hq _⟩
    | some c =>
      rw [hcache] at hrel
      cases hrel
      refine .inr ⟨rfl, rfl, fun q hq hc => ?_⟩
      have hqc : q ≠ c := fun heq => hc (heq ▸ rfl)
      exact (BufHeap.setObj_objs_of_ne _ hq _).trans (BufHeap.setObj_objs_of_ne _ hqc _)

/-- A buffer that counts no view is a leaf. -/
theorem TreeInv.leaf (h : s.TreeInv) {o : BufObj} (hp : s.At p o) (href : o.refcount = 0) :
    s.forest.children p = ∅ := by
  rw [← Finset.card_eq_zero, ← h.refcount p o hp, href]

/-- The source of a view that can be released, with the view as one of its children. -/
theorem TreeInv.source_of_leaf (h : s.TreeInv) {q : Nat} {o oq : BufObj} (hp : s.At p o)
    (href : o.refcount = 0) (hsrc : o.src = some q) (hoq : s.heap.objs q = some oq) :
    s.At q oq ∧ q ≠ p ∧ 0 < oq.refcount := by
  obtain ⟨oq', hq⟩ := h.src_at hp hsrc
  obtain rfl : oq' = oq := Option.some.inj (hq.2.symm.trans hoq)
  have hparent := hp.parent.trans hsrc
  refine ⟨hq, Forest.parent_ne_of_leaf (h.leaf hp href) hp.1 hparent, ?_⟩
  rw [h.refcount q oq' hq]
  exact Finset.card_pos.mpr ⟨p, Forest.mem_children.mpr ⟨hp.1, hparent⟩⟩

/-- The number of live buffers is below the number of addresses. -/
theorem TreeInv.card_live_lt (h : s.TreeInv) : s.live.card < 2 ^ 64 := by
  have hsub : s.live ⊆ Finset.Ioo 0 (2 ^ 64) := fun q hq => Finset.mem_Ioo.mpr (h.addr q hq)
  have hcard := Finset.card_le_card hsub
  rw [Nat.card_Ioo] at hcard
  omega

/-- **Releasing a view keeps the invariant.** -/
theorem Inv.releaseView (h : s.Inv) {q : Nat} {o oq oq' : BufObj} (hp : s.At p o)
    (href : o.refcount = 0) (hsrc : o.src = some q) (hq : s.At q oq) (hqp : q ≠ p)
    (hpos : 0 < oq.refcount) (hrel : ViewReleased s.heap h' p q oq oq') :
    (⟨h', s.live.erase p⟩ : BufWorld).Inv := by
  have hcount : oq'.refcount = oq.refcount - 1 := by
    have hle : (s.forest.children q).card ≤ s.live.card := Finset.card_filter_le _ _
    rw [← h.tree.refcount q oq hq] at hle
    rw [hrel.links.2]
    exact szSub_eq hpos (lt_of_le_of_lt hle h.tree.card_live_lt)
  have hatq : (⟨h', s.live.erase p⟩ : BufWorld).At q oq' :=
    ⟨Finset.mem_erase.mpr ⟨hqp, hq.1⟩, hrel.source⟩
  have hold (w : Nat) (ow : BufObj) (hw : s.At w ow) (hwp : w ≠ p) : ∃ ow',
      (⟨h', s.live.erase p⟩ : BufWorld).At w ow' ∧ ow'.src = ow.src ∧ ow'.block = ow.block
        ∧ ow'.refcount = ow.refcount - if o.src = some w then 1 else 0 := by
    by_cases hwq : w = q
    · subst hwq
      obtain rfl := hw.unique hq
      exact ⟨oq', hatq, hrel.links.1, hrel.place.1, by rw [hcount, if_pos hsrc]⟩
    · refine ⟨ow, ⟨Finset.mem_erase.mpr ⟨hwp, hw.1⟩, (hrel.others w hwp hwq).trans hw.2⟩, rfl, rfl, ?_⟩
      rw [hsrc, if_neg fun heq => hwq (Option.some.inj heq).symm, Nat.sub_zero]
  have hinv (w : Nat) (ow : BufObj) (hw : (⟨h', s.live.erase p⟩ : BufWorld).At w ow) :
      (w = q ∧ ow = oq') ∨ (w ≠ q ∧ s.At w ow) := by
    obtain ⟨hwp, hmem⟩ := Finset.mem_erase.mp hw.1
    by_cases hwq : w = q
    · subst hwq
      exact .inl ⟨rfl, hw.unique hatq⟩
    · exact .inr ⟨hwq, hmem, (hrel.others w hwp hwq).symm.trans hw.2⟩
  -- a view that was cached is neither `p` nor `q`
  have hkept {w c : Nat} {ow : BufObj} (hw : s.At w ow) (hc : ow.cache = some c) :
      c ∉ s.live.erase p ∧ (h'.objs c).isSome = true ∧ c ≠ p := by
    have hnot := h.caches.not_live w ow c hw hc
    have hcp : c ≠ p := fun heq => hnot (heq ▸ hp.1)
    have hcq : c ≠ q := fun heq => hnot (heq ▸ hq.1)
    refine ⟨fun hmem => hnot (Finset.mem_of_mem_erase hmem), ?_, hcp⟩
    rw [hrel.others c hcp hcq]
    exact h.caches.alloc w ow c hw hc
  constructor
  · refine h.tree.remove rfl hp href hold fun w ow hw => ?_
    show (h'.blocks ow.block).isSome = true
    rw [hrel.blocks]
    rcases hinv w ow hw with ⟨rfl, rfl⟩ | ⟨-, hw₀⟩
    · rw [hrel.place.1]
      exact h.tree.block w oq hq
    · exact h.tree.block w ow hw₀
  · rcases hrel.cache with ⟨hput, hsame⟩ | hsame
    · have halloc : (h'.objs p).isSome = true := by
        rw [hsame, hp.2]
        rfl
      refine h.caches.put q (Finset.notMem_erase p _) halloc (h.tree.addr p hp.1) ?_
      intro w ow c hw hc
      rcases hinv w ow hw with ⟨rfl, rfl⟩ | ⟨-, hw₀⟩
      · exact .inl ⟨rfl, (Option.some.inj (hput.symm.trans hc)).symm⟩
      · obtain ⟨hnot, hsome, hne⟩ := hkept hw₀ hc
        exact .inr ⟨hne, ⟨ow, hw₀, hc⟩, hnot, hsome⟩
    · refine h.caches.of_le fun w ow c hw hc => ?_
      rcases hinv w ow hw with ⟨rfl, rfl⟩ | ⟨-, hw₀⟩
      · rw [hsame] at hc
        obtain ⟨hnot, halloc, -⟩ := hkept hq hc
        exact ⟨⟨oq, hq, hc⟩, hnot, halloc⟩
      · obtain ⟨hnot, halloc, -⟩ := hkept hw₀ hc
        exact ⟨⟨ow, hw₀, hc⟩, hnot, halloc⟩

/-- **Releasing a buffer that is no view keeps the invariant.** -/
theorem Inv.releaseRoot (h : s.Inv) {o : BufObj} (hp : s.At p o) (href : o.refcount = 0)
    (hsrc : o.src = none) (hblocks : h'.blocks = Function.update s.heap.blocks o.block none)
    (hothers : ∀ q, q ≠ p → o.cache ≠ some q → h'.objs q = s.heap.objs q) :
    (⟨h', s.live.erase p⟩ : BufWorld).Inv := by
  have hlive (q : Nat) (oq : BufObj) (hq : s.At q oq) (hqp : q ≠ p) :
      h'.objs q = s.heap.objs q :=
    hothers q hqp fun hc => h.caches.not_live p o q hp hc hq.1
  have hinv (q : Nat) (oq : BufObj) (hq : (⟨h', s.live.erase p⟩ : BufWorld).At q oq) :
      q ≠ p ∧ s.At q oq := by
    obtain ⟨hqp, hmem⟩ := Finset.mem_erase.mp hq.1
    obtain ⟨oq₀, hq₀⟩ := h.tree.exists_at hmem
    exact ⟨hqp, hmem, (hlive q oq₀ hq₀ hqp).symm.trans hq.2⟩
  constructor
  · refine h.tree.remove rfl hp href ?_ ?_
    · intro q oq hq hqp
      refine ⟨oq, ⟨Finset.mem_erase.mpr ⟨hqp, hq.1⟩, (hlive q oq hq hqp).trans hq.2⟩, rfl, rfl, ?_⟩
      rw [hsrc, if_neg (fun heq => nomatch heq), Nat.sub_zero]
    · intro q oq hq
      obtain ⟨hqp, hq₀⟩ := hinv q oq hq
      have hne : oq.block ≠ o.block := fun heq => hqp (h.tree.alone hp hsrc href hq₀ heq)
      show (h'.blocks oq.block).isSome = true
      rw [hblocks, Function.update_of_ne hne]
      exact h.tree.block q oq hq₀
  · refine h.caches.of_le fun q oq c hq hc => ?_
    obtain ⟨hqp, hq₀⟩ := hinv q oq hq
    have hnot := h.caches.not_live q oq c hq₀ hc
    have hcp : c ≠ p := fun heq => hnot (heq ▸ hp.1)
    refine ⟨⟨oq, hq₀, hc⟩, fun hmem => hnot (Finset.mem_of_mem_erase hmem), ?_⟩
    -- the view that is freed was cached by `p` alone
    show (h'.objs c).isSome = true
    rw [hothers c hcp fun hc' => hqp (h.caches.inj q p oq o c hq₀ hp hc hc')]
    exact h.caches.alloc q oq c hq₀ hc

/-- A new buffer has no links. -/
theorem bufCreateEx_links {size prependSize : Nat} {b : Buffer}
    (h : bufCreateEx size prependSize = .ok b) : b.src = none ∧ b.refcount = 0 ∧ b.cache = none := by
  obtain ⟨_, _, h⟩ := exec_bind_eq_ok.mp h
  cases h
  exact ⟨rfl, rfl, rfl⟩

/-- A view is made of a live buffer. -/
theorem mem_live_of_view {sz : Int} {alloc : Option Nat}
    (hallow : (HeapOp.readonlyView p sz alloc).Allowed s) : p ∈ s.live := by
  cases alloc with
  | none => exact hallow
  | some v => exact hallow.1

/-- **A view that is handed out was not live**: neither a cached one nor a new object. -/
theorem Inv.view_not_live (h : s.Inv) {v : Nat} {sz : Int} {alloc : Option Nat} {o : BufObj}
    (hallow : (HeapOp.readonlyView p sz alloc).Allowed s) (hp : s.At p o)
    (hfrom : o.cache = some v ∨ (o.cache = none ∧ alloc = some v)) :
    v ∉ s.live ∧ (0 < v ∧ v < 2 ^ 64) ∧ ∀ q oq, s.At q oq → q ≠ p → oq.cache ≠ some v := by
  rcases hfrom with hcache | ⟨-, rfl⟩
  · exact ⟨h.caches.not_live p o v hp hcache, h.caches.addr p o v hp hcache,
      fun q oq hq hne hc => hne (h.caches.inj q p oq o v hq hp hc hcache)⟩
  · obtain ⟨-, hfresh⟩ := hallow
    refine ⟨h.tree.not_live_of_fresh hfresh, ⟨hfresh.1, hfresh.2.1⟩, fun q oq hq _ hc => ?_⟩
    -- a cached object is allocated
    have halloc := h.caches.alloc q oq v hq hc
    rw [Option.isNone_iff_eq_none.mp hfresh.2.2] at halloc
    cases halloc

/-- **Every call keeps the invariant.** -/
theorem Inv.step (h : s.Inv) {op : HeapOp} {r : Option Nat} {s' : BufWorld} (hallow : op.Allowed s)
    (hstep : heapStep s op = .ok (r, s')) : s'.Inv := by
  cases op with
  | create size prependSize alloc =>
    obtain ⟨⟨r', h'⟩, hcreate, heq⟩ := exec_bind_eq_ok.mp hstep
    obtain ⟨b, hb, hcreate⟩ := exec_bind_eq_ok.mp hcreate
    obtain ⟨hsrc, href, hcache⟩ := bufCreateEx_links hb
    cases alloc with
    | none =>
      cases hcreate
      cases heq
      exact h
    | some a =>
      obtain ⟨p, k⟩ := a
      cases hcreate
      cases heq
      exact h.create hallow.1 hallow.2 hsrc href hcache rfl
  | call p c k =>
    obtain ⟨h', hcall, heq⟩ := exec_bind_eq_ok.mp hstep
    cases heq
    exact h.call hallow.1 hallow.2 hcall
  | readonlyView p sz alloc =>
    obtain ⟨⟨r', h'⟩, hview, heq⟩ := exec_bind_eq_ok.mp hstep
    rcases readonlyView_cases hview with ⟨rfl, rfl⟩ | ⟨v, o, n, rfl, ho, hfrom, rfl⟩
    · cases heq
      exact h
    · have hp : s.At p o := ⟨mem_live_of_view hallow, ho⟩
      obtain ⟨hnew, haddr, hcached⟩ := h.view_not_live hallow hp hfrom
      cases heq
      exact h.view hp hnew haddr hcached
  | release p =>
    obtain ⟨h', hrel, heq⟩ := exec_bind_eq_ok.mp hstep
    cases heq
    obtain ⟨o, ho, href, hcases⟩ := release_cases hrel
    have hp : s.At p o := ⟨hallow, ho⟩
    rcases hcases with ⟨q, oq, oq', hsrc, hoq, hview⟩ | ⟨hsrc, hblocks, hothers⟩
    · obtain ⟨hq, hqp, hpos⟩ := h.tree.source_of_leaf hp href hsrc hoq
      exact h.releaseView hp href hsrc hq hqp hpos (hview hqp)
    · exact h.releaseRoot hp href hsrc hblocks hothers

end Sections

/-- **The invariant holds in every state that a run reaches.** -/
theorem inv_of_run {ops : List HeapOp} {rs : List (Option Nat)} {s : BufWorld}
    (hadm : Admissible heapStep (fun s o => o.Allowed s) emptyWorld ops)
    (hrun : runOps heapStep emptyWorld ops = .ok (rs, s)) : s.Inv :=
  runOps_invariant_state (I := Inv) (fun _ _ _ _ h hallow hstep => h.step hallow hstep) inv_emptyWorld
    hadm hrun

/-- A live buffer and its block are allocated. -/
theorem Inv.load_eq {s : BufWorld} (h : s.Inv) {p : Nat} {o : BufObj} (hp : s.At p o) :
    ∃ m, s.heap.load p = .ok (o.toBuffer m) := by
  obtain ⟨m, hm⟩ := Option.isSome_iff_exists.mp (h.tree.block p o hp)
  refine ⟨m, exec_bind_eq_ok.mpr ⟨o, BufHeap.deref_eq_ok.mpr hp.2, ?_⟩⟩
  exact exec_bind_eq_ok.mpr ⟨m, BufHeap.bytes_eq_ok.mpr hm, rfl⟩

end BufWorld

/-- **Views are counted.** In every state that a run reaches, `refcount` of a live buffer is the
number of its live views, `buf_readonlyView` never hands out a buffer that is live, and a buffer
that is no view is locked exactly while a view of it, or a view of such a view, is live. -/
theorem buf_views_counted (ops : List HeapOp) (rs : List (Option Nat)) (s : BufWorld)
    (hadm : Admissible heapStep (fun s o => o.Allowed s) emptyWorld ops)
    (hrun : runOps heapStep emptyWorld ops = .ok (rs, s)) :
    ∀ p ∈ s.live, ∃ b, s.heap.load p = .ok b ∧ b.refcount = (s.forest.children p).card
      ∧ (∀ sz alloc v s', (HeapOp.readonlyView p sz alloc).Allowed s →
        heapStep s (.readonlyView p sz alloc) = .ok (some v, s') → v ∉ s.live)
      ∧ (b.src = none → (bufWriteLocked b = true ↔ ∃ v, s.forest.Under p v)) := by
  have h := BufWorld.inv_of_run hadm hrun
  intro p hmem
  obtain ⟨o, hp⟩ := h.tree.exists_at hmem
  obtain ⟨m, hload⟩ := h.load_eq hp
  refine ⟨o.toBuffer m, hload, h.tree.refcount p o hp, ?_, ?_⟩
  · intro sz alloc v s' hallow hstep
    obtain ⟨⟨r, h'⟩, hview, heq⟩ := exec_bind_eq_ok.mp hstep
    rcases BufWorld.readonlyView_cases hview with ⟨rfl, rfl⟩ | ⟨w, o', n, rfl, ho', hfrom, rfl⟩
    · cases heq
    · cases heq
      obtain rfl : o = o' := Option.some.inj (hp.2.symm.trans ho')
      exact (h.view_not_live hallow hp hfrom).1
  · intro hsrc
    rw [Forest.exists_under_iff, ← Finset.card_pos, ← h.tree.refcount p o hp, ← not_iff_not,
      Bool.not_eq_true, BufWorld.not_locked_iff, not_lt, Nat.le_zero]
    exact and_iff_right hsrc

/-- A buffer, a view and a view of the view, released in turn, and a view from the cache. -/
def nestedViews : List HeapOp :=
  [.create 2 0 (some (1, 1)), .call 1 (.append [0x61, 0x62]) 2, .readonlyView 1 2 (some 2),
    .readonlyView 2 1 (some 3), .release 3, .release 2, .readonlyView 1 1 none]

/-- The view that is released last is the one that is handed out again. -/
theorem buf_views_counted_nested : ∃ rs s, runOps heapStep emptyWorld nestedViews = .ok (rs, s)
    ∧ rs = [some 1, none, some 2, some 3, none, none, some 2]
    ∧ ∀ p ∈ s.live, ∃ b, s.heap.load p = .ok b ∧ b.refcount = (s.forest.children p).card
      ∧ (∀ sz alloc v s', (HeapOp.readonlyView p sz alloc).Allowed s →
        heapStep s (.readonlyView p sz alloc) = .ok (some v, s') → v ∉ s.live)
      ∧ (b.src = none → (bufWriteLocked b = true ↔ ∃ v, s.forest.Under p v)) :=
  ⟨_, _, rfl, rfl, buf_views_counted nestedViews _ _ (by decide) rfl⟩

end Wee
