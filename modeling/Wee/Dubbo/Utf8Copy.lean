import Wee.Dubbo.HessianString
import Wee.Lib.Ring
import Wee.Lib.Word

/-! # Counting and copying UTF-8 characters

`utf8cpyInto` is `utf8cpy` between two memory objects, with its `int` offset. It hops from lead byte
to lead byte and looks at nothing in between, so it copies blocks: a lead byte and as many bytes as
that announces. For well-formed characters this is right; what is ill-formed it refuses only where a
byte that is no lead byte stands in the place of one, and it takes `0x80` for a character. `utf8len`
never advances its pointer: it counts the bytes of a well-formed text, not the characters. -/

namespace Wee

/-! ### The source -/

/-- `i + k` in an `int`. -/
def intAdd (i : Int) (k : Nat) : Int := toSigned 32 (toUnsigned 32 (i + k))

/-- `src[i]`. -/
def charAt (src : List UInt8) (i : Int) : Exec UInt8 :=
  if i < 0 then .error .outOfBounds else cellLoad src i.toNat

/-- The `while (sz--)` loop of `utf8cpy`: `i` after `sz` more characters (`none` is the early
`return -1`). -/
def utf8cpyIntoLoop (src : List UInt8) : Nat → Int → Exec (Option Int)
  | 0, i => .ok (some i)
  | sz + 1, i => do
    let c ← charAt src i
    match charStep c with
    | none => .ok none
    | some k => utf8cpyIntoLoop src sz (intAdd i k)

/-- The end of `utf8cpy`: `if (i) memcpy(dst, src, i)`. -/
def utf8cpyCopy (dst src : List UInt8) (i : Int) : Exec (Int × List UInt8) :=
  if i = 0 then .ok (i, dst)
  -- as a `size_t` a negative `i` is longer than any object
  else if i < 0 then .error .outOfBounds
  else do
    let d ← memLoad src 0 i.toNat
    let dst ← memStore dst 0 d
    return (i, dst)

/-- `utf8cpy` with both its objects: the return value, and `dst` after the call. -/
def utf8cpyInto (dst src : List UInt8) (sz : Nat) : Exec (Int × List UInt8) := do
  match ← utf8cpyIntoLoop src sz 0 with
  | none => return (-1, dst)
  | some i => utf8cpyCopy dst src i

/-- The loop of `utf8len`. It loads `*s` in every round. -/
def utf8lenLoop (s : List UInt8) : Nat → Nat → Exec Nat
  | 0, len => .ok len
  | sz + 1, len => do
    let c ← cellLoad s 0
    utf8lenLoop s sz (if c &&& 0xC0 ≠ 0x80 then len + 1 else len)

/-- `utf8len`. -/
def utf8len (s : List UInt8) (sz : Nat) : Exec Nat := utf8lenLoop s sz 0

/-! ### Offsets -/

variable {src dst t : List UInt8} {n i : Nat}

/-- A sum that fits is the plain sum. -/
theorem intAdd_of_lt {k : Nat} (h : i + k < 2 ^ 31) : intAdd i k = (i + k : Nat) := by
  rw [intAdd, ← Int.natCast_add, toUnsigned_natCast (by omega), toSigned_of_lt (by omega)]

/-- One character takes an offset that no longer fits below zero. -/
theorem intAdd_neg {k : Nat} (hi : i < 2 ^ 31) (hk : k ≤ 4) (h : 2 ^ 31 ≤ i + k) :
    intAdd i k < 0 := by
  rw [intAdd, ← Int.natCast_add, toUnsigned_natCast (by omega), toSigned, if_neg (by omega)]
  omega

/-- A load of a byte that is there. -/
theorem charAt_of_drop {c : UInt8} (h : src.drop i = c :: t) : charAt src i = .ok c := by
  rw [charAt, if_neg (by omega), Int.toNat_natCast]
  apply cellLoad_of_some
  rw [← List.head?_drop, h, List.head?_cons]

/-- A load behind the object faults. -/
theorem charAt_of_drop_nil (h : src.drop i = []) : charAt src i = .error .outOfBounds := by
  rw [charAt, if_neg (by omega), Int.toNat_natCast, cellLoad, ← List.head?_drop, h, List.head?_nil]

/-! ### The loop -/

/-- One more character. -/
theorem utf8cpyIntoLoop_succ {c : UInt8} {k : Nat} (hsrc : src.drop i = c :: t)
    (hstep : charStep c = some k) (hlt : i + k < 2 ^ 31) :
    utf8cpyIntoLoop src (n + 1) i = utf8cpyIntoLoop src n (i + k : Nat) := by
  rw [utf8cpyIntoLoop, charAt_of_drop hsrc, exec_ok_bind, hstep]
  show utf8cpyIntoLoop src n (intAdd i k) = _
  rw [intAdd_of_lt hlt]

/-- A byte that is no lead byte ends the loop. -/
theorem utf8cpyIntoLoop_bad {c : UInt8} (hsrc : src.drop i = c :: t) (hstep : charStep c = none) :
    utf8cpyIntoLoop src (n + 1) i = .ok none := by
  rw [utf8cpyIntoLoop, charAt_of_drop hsrc, exec_ok_bind, hstep]

/-- Behind the object the loop faults. -/
theorem utf8cpyIntoLoop_end (hsrc : src.drop i = []) :
    utf8cpyIntoLoop src (n + 1) i = .error .outOfBounds := by
  rw [utf8cpyIntoLoop, charAt_of_drop_nil hsrc, exec_error_bind]

/-- **The loop passes over blocks.** -/
theorem utf8cpyIntoLoop_blocks {blocks : List (List UInt8)} (h : ∀ b ∈ blocks, LeadBlock b)
    (hsrc : src.drop i = blocks.flatten ++ t) (hlt : i + blocks.flatten.length < 2 ^ 31) :
    utf8cpyIntoLoop src (blocks.length + n) i
      = utf8cpyIntoLoop src n (i + blocks.flatten.length : Nat) := by
  induction blocks generalizing i with
  | nil => rw [List.length_nil, Nat.zero_add, List.flatten_nil, List.length_nil, Nat.add_zero]
  | cons b blocks ih =>
    obtain ⟨hb, hblocks⟩ := List.forall_mem_cons.mp h
    obtain ⟨a, rest, rfl, hstep⟩ := hb.step
    rw [List.flatten_cons, List.length_append] at hlt ⊢
    have hrest : src.drop (i + (a :: rest).length) = blocks.flatten ++ t := by
      rw [← List.drop_drop, hsrc, List.flatten_cons, List.append_assoc, List.drop_left]
    rw [List.flatten_cons, List.cons_append, List.cons_append] at hsrc
    rw [List.length_cons, Nat.add_right_comm, utf8cpyIntoLoop_succ hsrc hstep (by omega),
      ih hblocks hrest (by omega), Nat.add_assoc]

/-- The loop from the start of `src` on passes over blocks. -/
theorem utf8cpyIntoLoop_start {blocks : List (List UInt8)} (h : ∀ b ∈ blocks, LeadBlock b) (n : Nat)
    (t : List UInt8) (hlt : blocks.flatten.length < 2 ^ 31) :
    utf8cpyIntoLoop (blocks.flatten ++ t) (blocks.length + n) 0
      = utf8cpyIntoLoop (blocks.flatten ++ t) n blocks.flatten.length := by
  have hrun := utf8cpyIntoLoop_blocks (t := t) (n := n) (i := 0) h rfl (by omega)
  rwa [Nat.zero_add] at hrun

/-- The loop from the start of `src` on passes over well-formed characters. -/
theorem utf8cpyIntoLoop_utf8 (s : List Utf8Char) (n : Nat) (t : List UInt8)
    (hlt : (utf8Bytes s).length < 2 ^ 31) :
    utf8cpyIntoLoop (utf8Bytes s ++ t) (s.length + n) 0
      = utf8cpyIntoLoop (utf8Bytes s ++ t) n (utf8Bytes s).length := by
  rw [utf8Bytes, List.flatMap_def] at *
  have hrun := utf8cpyIntoLoop_start (leadBlock_of_mem_chars s) n t hlt
  rwa [List.length_map] at hrun

/-- Below zero the loop can only end at once. -/
theorem utf8cpyIntoLoop_of_neg {j : Int} {r : Option Int} (hj : j < 0)
    (h : utf8cpyIntoLoop src n j = .ok r) : r = some j := by
  cases n with
  | zero =>
    rw [utf8cpyIntoLoop, Except.ok.injEq] at h
    exact h.symm
  | succ n =>
    rw [utf8cpyIntoLoop, charAt, if_pos hj] at h
    cases h

/-- **Inversion of one round** that leads to no negative offset: the byte at `i` is there, and it is
no lead byte, or the offset behind what it announces still fits. -/
theorem utf8cpyIntoLoop_succ_inv {r : Option Int} (hi : i < 2 ^ 31)
    (h : utf8cpyIntoLoop src (n + 1) i = .ok r) (hr : ∀ j, r = some j → 0 ≤ j) :
    ∃ c t, src.drop i = c :: t ∧ (charStep c = none ∧ r = none ∨
      ∃ k, charStep c = some k ∧ i + k < 2 ^ 31
        ∧ utf8cpyIntoLoop src n (i + k : Nat) = .ok r) := by
  cases hsrc : src.drop i with
  | nil =>
    rw [utf8cpyIntoLoop_end hsrc] at h
    cases h
  | cons c t =>
    refine ⟨c, t, rfl, ?_⟩
    rw [utf8cpyIntoLoop, charAt_of_drop hsrc, exec_ok_bind] at h
    cases hstep : charStep c with
    | none =>
      rw [hstep, Except.ok.injEq] at h
      exact .inl ⟨rfl, h.symm⟩
    | some k =>
      rw [hstep] at h
      change utf8cpyIntoLoop src n (intAdd i k) = .ok r at h
      by_cases hlt : i + k < 2 ^ 31
      · rw [intAdd_of_lt hlt] at h
        exact .inr ⟨k, rfl, hlt, h⟩
      · -- the offset has wrapped around
        have hneg := intAdd_neg hi (charStep_le hstep) (by omega)
        have hj := hr _ (utf8cpyIntoLoop_of_neg hneg h)
        omega

/-- An offset the loop ends at stays below `2 ^ 31`. -/
theorem utf8cpyIntoLoop_lt {j : Int} (hi : i < 2 ^ 31)
    (h : utf8cpyIntoLoop src n i = .ok (some j)) (hj : 0 ≤ j) : j < 2 ^ 31 := by
  induction n generalizing i with
  | zero =>
    rw [utf8cpyIntoLoop, Except.ok.injEq, Option.some.injEq] at h
    omega
  | succ n ih =>
    obtain ⟨c, t, -, ⟨-, hnone⟩ | ⟨k, -, hlt, hrest⟩⟩ :=
      utf8cpyIntoLoop_succ_inv hi h fun _ he => Option.some.inj he ▸ hj
    · cases hnone
    · exact ih hlt hrest

/-- `c` is no lead byte. `0x80` passes for one, of a character of one byte. -/
def BadLead (c : UInt8) : Prop := 0x80 < c.toNat ∧ c.toNat < 0xC0 ∨ 0xF8 ≤ c.toNat

/-- **Inversion of the early return**: before it the loop has passed over blocks only. -/
theorem utf8cpyIntoLoop_none (hi : i < 2 ^ 31) (h : utf8cpyIntoLoop src n i = .ok none) :
    ∃ (blocks : List (List UInt8)) (c : UInt8) (t : List UInt8),
      src.drop i = blocks.flatten ++ c :: t ∧ blocks.length < n ∧ (∀ b ∈ blocks, LeadBlock b)
        ∧ BadLead c ∧ i + blocks.flatten.length < 2 ^ 31 := by
  induction n generalizing i with
  | zero =>
    rw [utf8cpyIntoLoop, Except.ok.injEq] at h
    cases h
  | succ n ih =>
    obtain ⟨c, t, hsrc, ⟨hbad, -⟩ | ⟨k, hstep, hlt, hrest⟩⟩ :=
      utf8cpyIntoLoop_succ_inv hi h fun _ he => by cases he
    · exact ⟨[], c, t, hsrc, Nat.succ_pos n, by simp, charStep_eq_none.mp hbad, hi⟩
    · obtain ⟨blocks, c', t', htail, hn, hblocks, hbad, hlen⟩ := ih hlt hrest
      -- the next byte is there, so all the bytes `c` announces are
      have hk : k ≤ t.length + 1 := by
        have hcount := congrArg List.length htail
        have hrest := congrArg List.length hsrc
        rw [List.length_drop, List.length_append, List.length_cons] at hcount
        rw [List.length_drop, List.length_cons] at hrest
        omega
      refine ⟨(c :: t).take k :: blocks, c', t', ?_, Nat.succ_lt_succ hn,
        List.forall_mem_cons.mpr ⟨leadBlock_take hstep hk, hblocks⟩, hbad, ?_⟩
      · rw [List.flatten_cons, List.append_assoc, ← htail, ← List.drop_drop, hsrc,
          List.take_append_drop]
      · rw [List.flatten_cons, List.length_append, List.length_take, List.length_cons]
        omega

/-! ### The whole call -/

/-- Storing `d` at the start of `dst`. -/
theorem splice_start (dst d : List UInt8) : splice dst 0 d = d ++ dst.drop d.length := by
  rw [splice, List.take_zero, List.nil_append, Nat.zero_add]

/-- The early return leaves `dst` as it is. -/
theorem utf8cpyInto_of_none (h : utf8cpyIntoLoop src n 0 = .ok none) :
    utf8cpyInto dst src n = .ok (-1, dst) := by
  rw [utf8cpyInto, h]
  rfl

/-- A run of the loop to an offset inside both objects copies the bytes before it. -/
theorem utf8cpyInto_of_some (h : utf8cpyIntoLoop src n 0 = .ok (some (i : Int)))
    (hsrc : i ≤ src.length) (hdst : i ≤ dst.length) :
    utf8cpyInto dst src n = .ok (i, splice dst 0 (src.take i)) := by
  rw [utf8cpyInto, h, exec_ok_bind]
  show utf8cpyCopy dst src i = _
  rcases Nat.eq_zero_or_pos i with rfl | hpos
  · rw [utf8cpyCopy, if_pos (by omega), List.take_zero, splice_nil]
  · have hlen : (src.take i).length = i := by rw [List.length_take, Nat.min_eq_left hsrc]
    rw [utf8cpyCopy, if_neg (by omega), if_neg (by omega), Int.toNat_natCast,
      memLoad_of_le (by omega), exec_ok_bind, slice, List.drop_zero, memStore_of_le (by omega)]
    rfl

/-- **Inversion of a call that returns.** -/
theorem utf8cpyInto_inv {r : Int} {d : List UInt8} (h : utf8cpyInto dst src n = .ok (r, d)) :
    (r = -1 ∧ d = dst ∧ utf8cpyIntoLoop src n 0 = .ok none) ∨
      ∃ k : Nat, r = k ∧ k ≤ src.length ∧ d = splice dst 0 (src.take k)
        ∧ utf8cpyIntoLoop src n 0 = .ok (some (k : Int)) := by
  obtain ⟨o, hloop, hrest⟩ := exec_bind_eq_ok.mp h
  cases o with
  | none =>
    cases hrest
    exact .inl ⟨rfl, rfl, hloop⟩
  | some j =>
    change utf8cpyCopy dst src j = .ok (r, d) at hrest
    rw [utf8cpyCopy] at hrest
    split_ifs at hrest with hzero hneg
    · cases hrest
      subst hzero
      refine .inr ⟨0, rfl, Nat.zero_le _, ?_, hloop⟩
      rw [List.take_zero, splice_nil]
    · obtain ⟨k, rfl⟩ := Int.eq_ofNat_of_zero_le (Int.not_lt.mp hneg)
      rw [Int.toNat_natCast] at hrest
      obtain ⟨bs, hload, hrest⟩ := exec_bind_eq_ok.mp hrest
      obtain ⟨d', hstore, hrest⟩ := exec_bind_eq_ok.mp hrest
      cases hrest
      obtain ⟨hle, rfl⟩ := memLoad_inv hload
      have hd := (memStore_inv hstore).1
      rw [memStore_of_le hd, Except.ok.injEq] at hstore
      exact .inr ⟨k, rfl, by omega, hstore.symm, hloop⟩

/-! ### The call on raw memory -/

/-- Where the loop neither faults nor wraps around, it is the one on raw memory, and loads only
bytes of `src`. -/
theorem utf8cpyIntoLoop_refines {mem : Nat → UInt8} (hmem : Holds mem 0 src) {r : Option Int}
    (hi : i < 2 ^ 31) (h : utf8cpyIntoLoop src n i = .ok r) (hr : ∀ j, r = some j → 0 ≤ j) :
    r = (utf8cpyLoop mem n i).1.map Int.ofNat
      ∧ ∀ x ∈ (utf8cpyLoop mem n i).2, x < src.length := by
  induction n generalizing i with
  | zero =>
    rw [utf8cpyIntoLoop, Except.ok.injEq] at h
    exact ⟨h.symm, by simp [utf8cpyLoop]⟩
  | succ n ih =>
    obtain ⟨c, t, hsrc, hcases⟩ := utf8cpyIntoLoop_succ_inv hi h hr
    have hlt : i < src.length := by
      rw [← List.drop_eq_nil_iff.not.trans Nat.not_le, hsrc]
      exact List.cons_ne_nil c t
    have hc : mem i = c := by
      have hdrop := hmem.drop (Nat.le_of_lt hlt)
      rw [Nat.zero_add, hsrc] at hdrop
      exact hdrop.1
    obtain ⟨hbad, rfl⟩ | ⟨k, hstep, hk, hrest⟩ := hcases
    · rw [← hc] at hbad
      simp [utf8cpyLoop, hbad, hlt]
    · rw [← hc] at hstep
      rw [utf8cpyLoop_succ hstep]
      obtain ⟨hret, hreads⟩ := ih hk hrest
      exact ⟨hret, List.forall_mem_cons.mpr ⟨hlt, hreads⟩⟩

/-- **A call that returns is the one on raw memory**: it loads bytes of `src` only, returns the same
and stores the same bytes. -/
theorem utf8cpyInto_refines {mem : Nat → UInt8} (hmem : Holds mem 0 src) {r : Int}
    {d : List UInt8} (h : utf8cpyInto dst src n = .ok (r, d)) :
    (utf8cpy mem n).ret = (if r = -1 then none else some r.toNat)
      ∧ d = splice dst 0 (utf8cpy mem n).copied
      ∧ ∀ x ∈ (utf8cpy mem n).reads, x < src.length := by
  obtain ⟨rfl, rfl, hloop⟩ | ⟨k, rfl, hk, rfl, hloop⟩ := utf8cpyInto_inv h
  · obtain ⟨hret, hreads⟩ := utf8cpyIntoLoop_refines (i := 0) hmem (by omega) hloop
      fun _ he => by cases he
    have hnone := Option.map_eq_none_iff.mp hret.symm
    have hrun : utf8cpyLoop mem n 0 = (none, (utf8cpyLoop mem n 0).2) := Prod.ext hnone rfl
    rw [utf8cpy, hrun]
    exact ⟨rfl, (splice_nil _ 0).symm, hreads⟩
  · obtain ⟨hret, hreads⟩ := utf8cpyIntoLoop_refines (i := 0) hmem (by omega) hloop
      fun _ he => Option.some.inj he ▸ Int.natCast_nonneg k
    obtain ⟨j, hj, hjk⟩ := Option.map_eq_some_iff.mp hret.symm
    obtain rfl : j = k := Int.ofNat.inj hjk
    have hrun : utf8cpyLoop mem n 0 = (some j, (utf8cpyLoop mem n 0).2) := Prod.ext hj rfl
    have htake : (List.range j).map mem = src.take j := by
      have hmap := (hmem.take j).map_range
      rw [List.length_take, Nat.min_eq_left hk] at hmap
      simpa only [Nat.zero_add] using hmap
    rw [utf8cpy, hrun]
    refine ⟨?_, congrArg (splice dst 0) htake.symm, ?_⟩
    · rw [if_neg (by omega), Int.toNat_natCast]
    · intro x hx
      rcases List.mem_append.mp hx with hx | hx
      · exact hreads x hx
      · have := List.mem_range.mp hx
        omega

/-! ### Characters -/

/-- **`utf8cpy` copies well-formed characters.** -/
theorem utf8cpyInto_utf8 (s : List Utf8Char) (hsrc : utf8Bytes s <+: src)
    (hlt : (utf8Bytes s).length < 2 ^ 31) (hdst : (utf8Bytes s).length ≤ dst.length) :
    utf8cpyInto dst src s.length
      = .ok ((utf8Bytes s).length, utf8Bytes s ++ dst.drop (utf8Bytes s).length) := by
  obtain ⟨t, rfl⟩ := hsrc
  have hloop := utf8cpyIntoLoop_utf8 s 0 t hlt
  rw [Nat.add_zero, utf8cpyIntoLoop] at hloop
  rw [utf8cpyInto_of_some hloop (by rw [List.length_append]; omega) hdst, List.take_left,
    splice_start]

/-- Asked for more characters than the text `s` has, `utf8cpy` leaves it. -/
theorem utf8cpyInto_outside (s : List Utf8Char) (hn : s.length < n)
    (hlt : (utf8Bytes s).length < 2 ^ 31) :
    utf8cpyInto dst (utf8Bytes s) n = .error .outOfBounds := by
  obtain ⟨m, rfl⟩ := Nat.exists_eq_add_of_lt hn
  have hloop := utf8cpyIntoLoop_utf8 s (m + 1) [] hlt
  rw [List.append_nil, utf8cpyIntoLoop_end List.drop_length, ← Nat.add_assoc] at hloop
  rw [utf8cpyInto, hloop, exec_error_bind]

/-- Before the `n`th character `src` has a byte that is no lead byte where a character should begin,
at an offset an `int` can hold. -/
def MeetsBadLead (src : List UInt8) (n : Nat) : Prop :=
  ∃ (blocks : List (List UInt8)) (c : UInt8) (t : List UInt8),
    src = blocks.flatten ++ c :: t ∧ blocks.length < n ∧ (∀ b ∈ blocks, LeadBlock b)
      ∧ BadLead c ∧ blocks.flatten.length < 2 ^ 31

/-- **The early return is taken exactly at a bad lead byte.** -/
theorem utf8cpyIntoLoop_eq_none_iff :
    utf8cpyIntoLoop src n 0 = .ok none ↔ MeetsBadLead src n := by
  constructor
  · intro h
    obtain ⟨blocks, c, t, hsrc, hn, hblocks, hbad, hlen⟩ :=
      utf8cpyIntoLoop_none (i := 0) (by omega) h
    rw [Nat.zero_add] at hlen
    exact ⟨blocks, c, t, hsrc, hn, hblocks, hbad, hlen⟩
  · rintro ⟨blocks, c, t, rfl, hn, hblocks, hbad, hlen⟩
    obtain ⟨m, rfl⟩ := Nat.exists_eq_add_of_lt hn
    have hrun := utf8cpyIntoLoop_start hblocks (m + 1) (c :: t) hlen
    rw [← Nat.add_assoc] at hrun
    exact hrun.trans (utf8cpyIntoLoop_bad List.drop_left (charStep_eq_none.mpr hbad))

/-- A bad lead byte is met before `n` characters only where `src` does not begin with them. -/
theorem MeetsBadLead.not_prefix (h : MeetsBadLead src n) {s : List Utf8Char}
    (hs : utf8Bytes s <+: src) : s.length ≠ n := by
  rintro rfl
  obtain ⟨blocks, c, t, rfl, hn, hblocks, hbad, -⟩ := h
  obtain ⟨m, hm⟩ := Nat.exists_eq_add_of_lt hn
  -- the scan by lead bytes would both end and be refused
  have hinvalid : scanChars s.length (blocks.flatten ++ c :: t) = .invalid := by
    rw [hm, Nat.add_assoc, scanChars_blocks hblocks, scanChars, charStep_eq_none.mpr hbad,
      Scan.shift]
  obtain ⟨u, hu⟩ := hs
  have hdone := scanChars_utf8 s 0 u
  rw [Nat.add_zero, hu, hinvalid, scanChars, Scan.shift] at hdone
  cases hdone

/-- The number of characters at the start of `src` tells how many bytes they take. -/
theorem length_utf8Bytes_of_prefix {s s' : List Utf8Char} (hn : s.length = s'.length)
    (hs : utf8Bytes s <+: src) (hs' : utf8Bytes s' <+: src) :
    (utf8Bytes s).length = (utf8Bytes s').length := by
  obtain ⟨u, hu⟩ := hs
  obtain ⟨u', hu'⟩ := hs'
  have hscan := scanChars_utf8 s 0 u
  have hscan' := scanChars_utf8 s' 0 u'
  rw [hu, Nat.add_zero, hn] at hscan
  rw [hu', Nat.add_zero, hscan, scanChars, scanChars, Scan.shift, Scan.shift, Scan.done.injEq]
    at hscan'
  omega

/-! ### Copying exactly `n` characters -/

/-- **`utf8cpy` copies exactly `n` well-formed characters**: where `src` begins with `n` of them, it
returns their length and stores their bytes, and where it does not, it returns `-1`. -/
def CopiesExactly (src : List UInt8) (n : Nat) : Prop :=
  (∀ s : List Utf8Char, s.length = n → utf8Bytes s <+: src →
    ∀ dst : List UInt8, (utf8Bytes s).length ≤ dst.length →
      utf8cpyInto dst src n
        = .ok ((utf8Bytes s).length, utf8Bytes s ++ dst.drop (utf8Bytes s).length))
  ∧ ((¬ ∃ s : List Utf8Char, s.length = n ∧ utf8Bytes s <+: src) →
    ∀ dst : List UInt8, utf8cpyInto dst src n = .ok (-1, dst))

/-- A length that `utf8cpy` returns is one of an `int`. -/
theorem utf8cpyInto_lt {d : List UInt8} (h : utf8cpyInto dst src n = .ok ((i : Int), d)) :
    i < 2 ^ 31 := by
  obtain ⟨hr, -⟩ | ⟨k, hk, -, -, hloop⟩ := utf8cpyInto_inv h
  · omega
  · have := utf8cpyIntoLoop_lt (i := 0) (by omega) hloop (Int.natCast_nonneg k)
    omega

/-- **When `utf8cpy` copies exactly `n` characters**: `src` begins with `n` well-formed characters
whose length an `int` holds, or a byte that is no lead byte stands where a character should begin.
What is wrong elsewhere (a lead byte `0x80`, a continuation byte that is missing or none, an
overlong form) passes. -/
theorem utf8cpy_exact_iff (src : List UInt8) (n : Nat) : CopiesExactly src n ↔
    (∃ s : List Utf8Char, s.length = n ∧ utf8Bytes s <+: src ∧ (utf8Bytes s).length < 2 ^ 31)
      ∨ MeetsBadLead src n := by
  constructor
  · rintro ⟨hcopies, hrefuses⟩
    by_cases hwf : ∃ s : List Utf8Char, s.length = n ∧ utf8Bytes s <+: src
    · obtain ⟨s, hn, hs⟩ := hwf
      have hcopy := hcopies s hn hs (List.replicate (utf8Bytes s).length 0)
        (by rw [List.length_replicate])
      exact .inl ⟨s, hn, hs, utf8cpyInto_lt hcopy⟩
    · obtain ⟨-, -, hloop⟩ | ⟨k, hk, -⟩ := utf8cpyInto_inv (hrefuses hwf [])
      · exact .inr (utf8cpyIntoLoop_eq_none_iff.mp hloop)
      · omega
  · rintro (⟨s, rfl, hs, hlt⟩ | hbad)
    · refine ⟨fun s' hn hs' dst hdst => ?_, fun hwf => absurd ⟨s, rfl, hs⟩ hwf⟩
      have hbytes := length_utf8Bytes_of_prefix hn hs' hs
      rw [← hn]
      exact utf8cpyInto_utf8 s' hs' (by omega) hdst
    · refine ⟨fun s hn hs => absurd hn (hbad.not_prefix hs), fun _ dst => ?_⟩
      exact utf8cpyInto_of_none (utf8cpyIntoLoop_eq_none_iff.mpr hbad)

/-- The stray continuation byte `0x80` is copied as a character, and so is a lead byte of two with
an `A` behind it. -/
theorem utf8cpy_exact_fails :
    utf8cpyInto [0, 0] [0x80, 0x41] 1 = .ok (1, [0x80, 0])
      ∧ utf8cpyInto [0, 0] [0xC3, 0x41] 1 = .ok (2, [0xC3, 0x41])
      ∧ ¬ CopiesExactly [0x80, 0x41] 1 := by
  have hcopied : utf8cpyInto [0, 0] [0x80, 0x41] 1 = .ok (1, [0x80, 0]) := by rfl
  refine ⟨hcopied, by rfl, fun ⟨_, hrefuses⟩ => ?_⟩
  have hwf : ¬ ∃ s : List Utf8Char, s.length = 1 ∧ utf8Bytes s <+: [0x80, 0x41] := by
    rintro ⟨s, hn, t, ht⟩
    obtain ⟨c, rfl⟩ := List.length_eq_one_iff.mp hn
    obtain ⟨a, rest, hc, hlead⟩ := c.lead_cases
    rw [utf8Bytes_cons, hc, List.append_assoc, List.cons_append] at ht
    obtain rfl : a = 0x80 := (List.cons.inj ht).1
    rw [show (0x80 : UInt8).toNat = 0x80 from rfl] at hlead
    omega
  have hrefused := hrefuses hwf [0, 0]
  rw [hcopied, Except.ok.injEq, Prod.mk.injEq] at hrefused
  exact absurd hrefused.1 (by decide)

/-! ### Counting characters -/

/-- The continuation-byte test of `utf8len` as a range, checked byte by byte. -/
theorem utf8Tail_table : ∀ n : Fin 256,
    UInt8.ofNat n &&& 0xC0 = 0x80 ↔ 0x80 ≤ n.val ∧ n.val < 0xC0 := by
  decide +kernel

/-- The continuation-byte test of `utf8len` as a range. -/
theorem isTail_iff {c : UInt8} : c &&& 0xC0 = 0x80 ↔ IsTail c := by
  have h := utf8Tail_table ⟨c.toNat, c.toNat_lt⟩
  rwa [UInt8.ofNat_toNat] at h

/-- **Every round of `utf8len` looks at the first byte.** -/
theorem utf8lenLoop_cons (c : UInt8) (bs : List UInt8) (sz len : Nat) :
    utf8lenLoop (c :: bs) sz len = .ok (if c &&& 0xC0 ≠ 0x80 then len + sz else len) := by
  induction sz generalizing len with
  | zero => rw [utf8lenLoop, Nat.add_zero, ite_self]
  | succ sz ih =>
    rw [utf8lenLoop, cellLoad_of_some rfl, exec_ok_bind, ih]
    split_ifs
    · rw [Nat.add_assoc, Nat.add_comm 1 sz]
    · rfl

/-- **`utf8len` counts the bytes** of a well-formed text. -/
theorem utf8len_utf8Bytes (s : List Utf8Char) :
    utf8len (utf8Bytes s) (utf8Bytes s).length = .ok (utf8Bytes s).length := by
  cases s with
  | nil => rfl
  | cons c s =>
    obtain ⟨a, rest, hc, hlead⟩ := c.lead_cases
    have ha : a &&& 0xC0 ≠ 0x80 := by
      intro htail
      obtain ⟨hlo, hhi⟩ := isTail_iff.mp htail
      omega
    rw [utf8len, utf8Bytes_cons, hc, List.cons_append, utf8lenLoop_cons, if_pos ha, Nat.zero_add]

/-- **Counting and copying agree** on the text `s`: `utf8len` counts its characters, and `utf8cpy`
of that many copies all of it. -/
def CountsAndCopies (s : List Utf8Char) : Prop :=
  ∃ len, utf8len (utf8Bytes s) (utf8Bytes s).length = .ok len ∧ len = s.length
    ∧ ∀ dst : List UInt8, (utf8Bytes s).length ≤ dst.length →
      utf8cpyInto dst (utf8Bytes s) len
        = .ok ((utf8Bytes s).length, utf8Bytes s ++ dst.drop (utf8Bytes s).length)

/-- **A text that is not ASCII is left**: `utf8cpy` looks for as many characters as `utf8len` has
counted bytes. -/
theorem utf8cpyInto_utf8len (s : List Utf8Char) (hascii : ¬ ∀ b ∈ utf8Bytes s, b < 0x80)
    (hlt : (utf8Bytes s).length < 2 ^ 31) :
    (utf8len (utf8Bytes s) (utf8Bytes s).length >>= utf8cpyInto dst (utf8Bytes s))
      = .error .outOfBounds := by
  have hle := length_le_utf8Bytes s
  have hne := mt (length_utf8Bytes_eq_iff s).mp hascii
  rw [utf8len_utf8Bytes, exec_ok_bind]
  exact utf8cpyInto_outside s (by omega) hlt

/-- **Counting and copying agree exactly on ASCII text** whose length an `int` holds. -/
theorem utf8len_utf8cpy_iff (s : List Utf8Char) : CountsAndCopies s ↔
    (∀ b ∈ utf8Bytes s, b < 0x80) ∧ (utf8Bytes s).length < 2 ^ 31 := by
  rw [CountsAndCopies, utf8len_utf8Bytes, ← length_utf8Bytes_eq_iff]
  constructor
  · rintro ⟨len, hlen, hcount, hcopies⟩
    rw [Except.ok.injEq] at hlen
    have hcopy := hcopies (List.replicate (utf8Bytes s).length 0) (by rw [List.length_replicate])
    exact ⟨hlen.trans hcount, utf8cpyInto_lt hcopy⟩
  · rintro ⟨hcount, hlt⟩
    refine ⟨_, rfl, hcount, fun dst hdst => ?_⟩
    have hcopy := utf8cpyInto_utf8 s List.prefix_rfl hlt hdst
    rwa [← hcount] at hcopy

/-- The two bytes of the text `é` are counted as two characters, and the second one is looked for
behind the text. -/
theorem utf8len_utf8cpy_fails :
    utf8len (utf8Bytes [⟨[0xC3, 0xA9], rfl⟩]) 2 = .ok 2
      ∧ utf8cpyInto [0, 0] (utf8Bytes [⟨[0xC3, 0xA9], rfl⟩]) 2 = .error .outOfBounds
      ∧ ¬ CountsAndCopies [⟨[0xC3, 0xA9], rfl⟩] := by
  have hlen : utf8len (utf8Bytes [⟨[0xC3, 0xA9], rfl⟩]) 2 = .ok 2 := by rfl
  refine ⟨hlen, by rfl, ?_⟩
  rintro ⟨len, hlen', hcount, -⟩
  have hok := hlen.symm.trans hlen'
  rw [hcount, Except.ok.injEq] at hok
  exact absurd hok (by decide)

end Wee
