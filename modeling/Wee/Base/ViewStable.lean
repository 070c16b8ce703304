import Wee.Base.ViewRun

/-! # The bytes under a view

A view covers the bytes of its block from its pointer on. As long as it is live, the block is
neither freed nor reallocated, and the calls that write check the lock, all but `buf_prepend`: bytes
that have been retrieved from a source are room for a prepend while the view still covers them. The
bytes under a view stay in every run in which no prepend stores into them. -/

namespace Wee

/-- No byte that the call prepends falls on a byte that the live view `v` covers. -/
def HeapOp.ClearOf (v : Nat) (s : BufWorld) : HeapOp → Prop
  | .call p c _ => ∀ o ov, s.heap.objs p = some o → s.heap.objs v = some ov → o.block = ov.block →
      ∀ i < c.prepended.length,
        BufWorld.prependAt o c + i < ov.off ∨ ov.off + ov.sz ≤ BufWorld.prependAt o c + i
  | _ => True

instance instDecidableClearOf (v : Nat) (s : BufWorld) : ∀ op : HeapOp, Decidable (op.ClearOf v s)
  | .call p c _ =>
    match hp : s.heap.objs p, hv : s.heap.objs v with
    | some o, some ov =>
      decidable_of_iff (o.block = ov.block → ∀ i < c.prepended.length,
          BufWorld.prependAt o c + i < ov.off ∨ ov.off + ov.sz ≤ BufWorld.prependAt o c + i)
        ⟨fun h o' ov' ho hov => by cases hp.symm.trans ho; cases hv.symm.trans hov; exact h,
          fun h => h o ov hp hv⟩
    | none, _ => .isTrue fun _ _ ho => nomatch hp.symm.trans ho
    | some _, none => .isTrue fun _ _ _ hov => nomatch hv.symm.trans hov
  | .create _ _ _ => .isTrue trivial
  | .readonlyView _ _ _ => .isTrue trivial
  | .release _ => .isTrue trivial

/-- A store leaves the ranges that it does not touch. -/
theorem slice_splice_of_clear {m d : List UInt8} {i off n : Nat} (hin : i + d.length ≤ m.length)
    (hclear : ∀ j < d.length, i + j < off ∨ off + n ≤ i + j) :
    slice (splice m i d) off n = slice m off n := by
  rcases Nat.eq_zero_or_pos d.length with hnil | hpos
  · rw [List.length_eq_zero_iff.mp hnil, splice_nil]
  · rcases Nat.eq_zero_or_pos n with rfl | hn
    · rw [slice_zero, slice_zero]
    · rcases hclear 0 hpos with hbefore | hafter
      · -- the first byte is below the range, and so is the last
        refine slice_splice_after ?_ hin
        by_contra hgt
        rcases hclear (off - i) (by omega) with hlt | hge
        · omega
        · omega
      · exact slice_splice_before (by omega) (by omega)

namespace BufWorld

/-- `v` is a live view of `n` bytes of the block `k` from `off` on, which are `bytes`. -/
structure Covers (s : BufWorld) (v k off n : Nat) (bytes : List UInt8) : Prop where
  /-- The view. -/
  view : ∃ o p, s.At v o ∧ o.src = some p ∧ o.block = k ∧ o.off = off ∧ o.sz = n
  /-- The bytes. -/
  bytes : s.heap.bytesAt k off n = some bytes

variable {s : BufWorld} {v k off n : Nat} {bytes : List UInt8}

/-- The bytes depend on the block only. -/
theorem bytesAt_congr {h h' : BufHeap} (hk : h'.blocks k = h.blocks k) :
    h'.bytesAt k off n = h.bytesAt k off n := by
  rw [BufHeap.bytesAt, BufHeap.bytesAt, hk]

/-- The block of a view is allocated. -/
theorem Covers.block_isSome (h : s.Covers v k off n bytes) : (s.heap.blocks k).isSome = true := by
  have hbytes := h.bytes
  rw [BufHeap.bytesAt] at hbytes
  obtain ⟨m, hm, -⟩ := Option.map_eq_some_iff.mp hbytes
  rw [hm]
  rfl

/-- A fresh block is another one. -/
theorem Covers.ne_of_fresh (h : s.Covers v k off n bytes) {j : Nat} (hj : s.FreshBlock j) : k ≠ j := by
  rintro rfl
  have hsome := h.block_isSome
  rw [Option.isNone_iff_eq_none.mp hj] at hsome
  cases hsome

/-- The block of an unlocked buffer is another one. -/
theorem Covers.ne_of_unlocked (h : s.Covers v k off n bytes) (hinv : s.Inv) {p : Nat} {o : BufObj}
    (hp : s.At p o) (hsrc : o.src = none) (href : o.refcount = 0) : k ≠ o.block := by
  obtain ⟨ov, q, hv, hsrcv, rfl, -, -⟩ := h.view
  intro heq
  obtain rfl := hinv.tree.alone hp hsrc href hv heq
  obtain rfl := hv.unique hp
  rw [hsrc] at hsrcv
  cases hsrcv

/-- **A call leaves the bytes under a view**, unless it prepends into them. -/
theorem Covers.call (h : s.Covers v k off n bytes) (hinv : s.Inv) {p j : Nat} {c : BufCall}
    {h' : BufHeap} (hp : p ∈ s.live) (hj : s.FreshBlock j) (hclear : (HeapOp.call p c j).ClearOf v s)
    (hcall : s.heap.call p c j = .ok h') : (⟨h', s.live⟩ : BufWorld).Covers v k off n bytes := by
  obtain ⟨o, o', ho, ho', hothers, ⟨hsrc, -, -⟩, hstep⟩ := call_cases hcall
  have hat : s.At p o := ⟨hp, ho⟩
  obtain ⟨ov, q, hv, hsrcv, hblockv, hoffv, hszv⟩ := h.view
  constructor
  · by_cases hvp : v = p
    · subst hvp
      obtain rfl := hv.unique hat
      -- a view is locked, so that it has not moved
      refine ⟨o', q, ⟨hp, ho'⟩, hsrc.trans hsrcv, ?_⟩
      cases hstep with
      | moved _ hroot _ _ _ =>
        rw [hroot] at hsrcv
        cases hsrcv
      | written _ hroot _ _ _ =>
        rw [hroot] at hsrcv
        cases hsrcv
      | same hsz hoff hblock _ => exact ⟨hblock.trans hblockv, hoff.trans hoffv, hsz.trans hszv⟩
      | prepended _ hsz hoff hblock _ _ _ =>
        exact ⟨hblock.trans hblockv, hoff.trans hoffv, hsz.trans hszv⟩
    · exact ⟨ov, q, ⟨hv.1, (hothers v hvp).trans hv.2⟩, hsrcv, hblockv, hoffv, hszv⟩
  · show h'.bytesAt k off n = some bytes
    rw [← h.bytes]
    cases hstep with
    | moved m' hroot href _ hblocks =>
      refine bytesAt_congr ?_
      rw [hblocks, Function.update_of_ne (h.ne_of_fresh hj),
        Function.update_of_ne (h.ne_of_unlocked hinv hat hroot href)]
    | written m' hroot href _ hblocks =>
      refine bytesAt_congr ?_
      rw [hblocks, Function.update_of_ne (h.ne_of_unlocked hinv hat hroot href)]
    | same _ _ _ hblocks => rw [BufHeap.bytesAt, BufHeap.bytesAt, hblocks]
    | prepended m _ _ _ hm hin hblocks =>
      by_cases hk : k = o.block
      · have hrange := hclear o ov ho hv.2 (hk.symm.trans hblockv.symm)
        rw [hoffv, hszv] at hrange
        rw [BufHeap.bytesAt, BufHeap.bytesAt, hblocks, hk, Function.update_self, hm, Option.map_some,
          Option.map_some, slice_splice_of_clear hin hrange]
      · refine bytesAt_congr ?_
        rw [hblocks, Function.update_of_ne hk]

/-- **Every call leaves the bytes under a view**, unless it prepends into them or releases the
view. -/
theorem Covers.step (h : s.Covers v k off n bytes) (hinv : s.Inv) {op : HeapOp} {r : Option Nat}
    {s' : BufWorld} (hallow : op.Allowed s) (hclear : op.ClearOf v s) (hne : op ≠ .release v)
    (hstep : heapStep s op = .ok (r, s')) : s'.Covers v k off n bytes := by
  obtain ⟨ov, q, hv, hsrcv, hblockv, hoffv, hszv⟩ := h.view
  -- it is enough that the block and the fields of the view are the same
  have hkeep {s' : BufWorld} {o' : BufObj} (hat : s'.At v o') (hsrc : o'.src = ov.src)
      (hfields : o'.block = ov.block ∧ o'.off = ov.off ∧ o'.sz = ov.sz)
      (hblocks : s'.heap.blocks k = s.heap.blocks k) : s'.Covers v k off n bytes :=
    ⟨⟨o', q, hat, hsrc.trans hsrcv, hfields.1.trans hblockv, hfields.2.1.trans hoffv,
      hfields.2.2.trans hszv⟩, (bytesAt_congr hblocks).trans h.bytes⟩
  cases op with
  | create size prependSize alloc =>
    obtain ⟨⟨r', h'⟩, hcreate, heq⟩ := exec_bind_eq_ok.mp hstep
    obtain ⟨b, _, hcreate⟩ := exec_bind_eq_ok.mp hcreate
    cases alloc with
    | none =>
      cases hcreate
      cases heq
      exact h
    | some a =>
      obtain ⟨p, j⟩ := a
      cases hcreate
      cases heq
      have hvp : v ≠ p := fun heq => hinv.tree.not_live_of_fresh hallow.1 (heq ▸ hv.1)
      refine hkeep ⟨Finset.mem_insert_of_mem hv.1, (BufHeap.setObj_objs_of_ne _ hvp _).trans hv.2⟩
        rfl ⟨rfl, rfl, rfl⟩ (BufHeap.setBlock_blocks_of_ne _ (h.ne_of_fresh hallow.2) _)
  | call p c j =>
    obtain ⟨h', hcall, heq⟩ := exec_bind_eq_ok.mp hstep
    cases heq
    exact h.call hinv hallow.1 hallow.2 hclear hcall
  | readonlyView p sz alloc =>
    obtain ⟨⟨r', h'⟩, hview, heq⟩ := exec_bind_eq_ok.mp hstep
    rcases readonlyView_cases hview with ⟨rfl, rfl⟩ | ⟨w, o, n', rfl, ho, hfrom, rfl⟩
    · cases heq
      exact h
    · have hp : s.At p o := ⟨mem_live_of_view hallow, ho⟩
      obtain ⟨hnew, -, -⟩ := hinv.view_not_live hallow hp hfrom
      have hvw : v ≠ w := fun heq => hnew (heq ▸ hv.1)
      cases heq
      by_cases hvp : v = p
      · subst hvp
        obtain rfl := hv.unique hp
        exact hkeep ⟨Finset.mem_insert_of_mem hv.1, BufHeap.setObj_objs_self _ _ _⟩ rfl
          ⟨rfl, rfl, rfl⟩ rfl
      · exact hkeep ⟨Finset.mem_insert_of_mem hv.1, (BufHeap.setObj_objs_of_ne _ hvp _).trans
          ((BufHeap.setObj_objs_of_ne _ hvw _).trans hv.2)⟩ rfl ⟨rfl, rfl, rfl⟩ rfl
  | release p =>
    obtain ⟨h', hrel, heq⟩ := exec_bind_eq_ok.mp hstep
    cases heq
    have hvp : v ≠ p := fun heq => hne (heq ▸ rfl)
    have hlive : v ∈ s.live.erase p := Finset.mem_erase.mpr ⟨hvp, hv.1⟩
    obtain ⟨o, ho, href, hcases⟩ := release_cases hrel
    have hp : s.At p o := ⟨hallow, ho⟩
    rcases hcases with ⟨q', oq, oq', hsrc, hoq, hview⟩ | ⟨hsrc, hblocks, hothers⟩
    · obtain ⟨hq, hqp, -⟩ := hinv.tree.source_of_leaf hp href hsrc hoq
      have hrel := hview hqp
      have hblock : h'.blocks k = s.heap.blocks k := by rw [hrel.blocks]
      by_cases hvq : v = q'
      · subst hvq
        obtain rfl := hv.unique hq
        exact hkeep ⟨hlive, hrel.source⟩ hrel.links.1 hrel.place hblock
      · exact hkeep ⟨hlive, (hrel.others v hvp hvq).trans hv.2⟩ rfl ⟨rfl, rfl, rfl⟩ hblock
    · have hvc : o.cache ≠ some v := fun hc => hinv.caches.not_live p o v hp hc hv.1
      have hother : h'.objs v = s.heap.objs v := hothers v hvp hvc
      refine hkeep ⟨hlive, hother.trans hv.2⟩ rfl ⟨rfl, rfl, rfl⟩ ?_
      show h'.blocks k = s.heap.blocks k
      rw [hblocks, Function.update_of_ne (h.ne_of_unlocked hinv hp hsrc href)]

/-- What a new view covers. -/
theorem Inv.covers_view (hinv : s.Inv) {p : Nat} {sz : Int} {alloc : Option Nat} {s' : BufWorld}
    (hallow : (HeapOp.readonlyView p sz alloc).Allowed s)
    (hstep : heapStep s (.readonlyView p sz alloc) = .ok (some v, s')) :
    ∃ o bytes, s'.heap.objs v = some o ∧ s'.Covers v o.block o.off o.sz bytes := by
  obtain ⟨⟨r', h'⟩, hview, heq⟩ := exec_bind_eq_ok.mp hstep
  rcases readonlyView_cases hview with ⟨rfl, rfl⟩ | ⟨w, o, n, rfl, ho, hfrom, rfl⟩
  · cases heq
  · have hp : s.At p o := ⟨mem_live_of_view hallow, ho⟩
    cases heq
    obtain ⟨hnew, -, -⟩ := hinv.view_not_live hallow hp hfrom
    have hvp : v ≠ p := fun heq => hnew (heq ▸ hp.1)
    obtain ⟨m, hm⟩ := Option.isSome_iff_exists.mp (hinv.tree.block p o hp)
    have hobj : ((s.heap.setObj v (some (viewOf p o n))).setObj p
        (some { o with refcount := szAdd o.refcount 1, cache := none })).objs v
        = some (viewOf p o n) :=
      (BufHeap.setObj_objs_of_ne _ hvp _).trans (BufHeap.setObj_objs_self _ _ _)
    refine ⟨viewOf p o n, slice m (o.off + o.readIdx) n, hobj, ⟨viewOf p o n, p,
      ⟨Finset.mem_insert_self v _, hobj⟩, rfl, rfl, rfl, rfl⟩, ?_⟩
    show (s.heap.blocks o.block).map (fun m => slice m (o.off + o.readIdx) n) = _
    rw [hm, Option.map_some]

end BufWorld

/-- **The bytes under a view stay as they were when it was made**, until it is released, in every
run in which no prepend stores into them. -/
theorem buf_view_stable (ops₁ ops₂ : List HeapOp) (rs₁ rs₂ : List (Option Nat)) (s₁ s₂ s₃ : BufWorld)
    (p : Nat) (sz : Int) (alloc : Option Nat) (v : Nat)
    (hadm₁ : Admissible heapStep (fun s o => o.Allowed s) emptyWorld ops₁)
    (hrun₁ : runOps heapStep emptyWorld ops₁ = .ok (rs₁, s₁))
    (hallow : (HeapOp.readonlyView p sz alloc).Allowed s₁)
    (hview : heapStep s₁ (.readonlyView p sz alloc) = .ok (some v, s₂))
    (hadm₂ : Admissible heapStep (fun s o => o.Allowed s ∧ o ≠ .release v ∧ o.ClearOf v s) s₂ ops₂)
    (hrun₂ : runOps heapStep s₂ ops₂ = .ok (rs₂, s₃)) :
    ∃ o bytes, s₂.heap.objs v = some o ∧ s₂.heap.bytesAt o.block o.off o.sz = some bytes
      ∧ s₃.heap.bytesAt o.block o.off o.sz = some bytes := by
  have hinv₁ := BufWorld.inv_of_run hadm₁ hrun₁
  have hinv₂ := hinv₁.step hallow hview
  obtain ⟨o, bytes, hobj, hcovers⟩ := hinv₁.covers_view hallow hview
  obtain ⟨-, hcovers₃⟩ := runOps_invariant_state
    (I := fun s => s.Inv ∧ s.Covers v o.block o.off o.sz bytes)
    (fun s op r s' h hpre hstep => ⟨h.1.step hpre.1 hstep,
      h.2.step h.1 hpre.1 hpre.2.2 hpre.2.1 hstep⟩) ⟨hinv₂, hcovers⟩ hadm₂ hrun₂
  exact ⟨o, bytes, hobj, hcovers.bytes, hcovers₃.bytes⟩

/-- A buffer of two bytes and one in front. -/
def twoBytes : List HeapOp := [.create 2 1 (some (1, 1)), .call 1 (.append [0x61, 0x62]) 2]

/-- A byte is prepended to the buffer, in front of the view, and the first byte of the view is
read. -/
def prependInFront : List HeapOp := [.call 1 (.prepend [0x63]) 2, .call 2 (.readInt 1) 2]

/-- A prepend in front of the view is harmless. -/
theorem buf_view_stable_front : ∃ rs₁ s₁ s₂ rs₂ s₃,
    runOps heapStep emptyWorld twoBytes = .ok (rs₁, s₁)
      ∧ heapStep s₁ (.readonlyView 1 2 (some 2)) = .ok (some 2, s₂)
      ∧ runOps heapStep s₂ prependInFront = .ok (rs₂, s₃)
      ∧ ∃ o bytes, s₂.heap.objs 2 = some o ∧ s₂.heap.bytesAt o.block o.off o.sz = some bytes
        ∧ s₃.heap.bytesAt o.block o.off o.sz = some bytes :=
  ⟨_, _, _, _, _, rfl, rfl, rfl, buf_view_stable twoBytes prependInFront _ _ _ _ _ 1 2 (some 2) 2
    (by decide) rfl (by decide) rfl (by decide) rfl⟩

/-- A byte is retrieved from the buffer and another one is prepended in its place. -/
def prependOver : List HeapOp := [.call 1 (.retrieve 1) 2, .call 1 (.prepend [0x63]) 2]

/-- The view of `ab` then covers `cb`. -/
theorem buf_view_changes : ∃ rs₁ s₁ s₂ rs₂ s₃,
    Admissible heapStep (fun s o => o.Allowed s) emptyWorld twoBytes
      ∧ runOps heapStep emptyWorld twoBytes = .ok (rs₁, s₁)
      ∧ (HeapOp.readonlyView 1 2 (some 2)).Allowed s₁
      ∧ heapStep s₁ (.readonlyView 1 2 (some 2)) = .ok (some 2, s₂)
      ∧ Admissible heapStep (fun s o => o.Allowed s ∧ o ≠ .release 2) s₂ prependOver
      ∧ runOps heapStep s₂ prependOver = .ok (rs₂, s₃)
      ∧ ∃ o, s₂.heap.objs 2 = some o ∧ s₂.heap.bytesAt o.block o.off o.sz = some [0x61, 0x62]
        ∧ s₃.heap.bytesAt o.block o.off o.sz = some [0x63, 0x62] :=
  ⟨_, _, _, _, _, by decide, rfl, by decide, rfl, by decide, rfl, _, rfl, rfl, rfl⟩

end Wee
