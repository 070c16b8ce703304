import Wee.Dubbo.Hessian
import Wee.Dubbo.HessianGrammar
import Wee.Lib.Memory

/-! # The Hessian string codec

`utf8cpy` walks over well-formed characters by their lead bytes and stops exactly behind the last
one, so the decoder reads every single-chunk string of the grammar, and nothing behind it. The
encoder announces bytes where the decoder counts characters, so the pair round-trips exactly on
ASCII text. A non-final chunk that is in order is never left: the loop behind it decodes the same
chunk again. -/

namespace Wee

/-! ### Characters -/

/-- The lead-byte tests as ranges, checked byte by byte. -/
theorem charStep_table : ∀ n : Fin 256, charStep (UInt8.ofNat n) =
    if n.val ≤ 0x80 then some 1 else if n.val < 0xC0 then none else if n.val < 0xE0 then some 2
    else if n.val < 0xF0 then some 3 else if n.val < 0xF8 then some 4 else none := by
  decide +kernel

/-- The lead-byte tests as ranges. -/
theorem charStep_eq (c : UInt8) : charStep c =
    if c.toNat ≤ 0x80 then some 1 else if c.toNat < 0xC0 then none
    else if c.toNat < 0xE0 then some 2 else if c.toNat < 0xF0 then some 3
    else if c.toNat < 0xF8 then some 4 else none := by
  have h := charStep_table ⟨c.toNat, c.toNat_lt⟩
  rwa [UInt8.ofNat_toNat] at h

/-- The lead bytes for each length. -/
theorem charStep_eq_some {c : UInt8} {k : Nat} : charStep c = some k ↔
    k = 1 ∧ c.toNat ≤ 0x80 ∨ k = 2 ∧ 0xC0 ≤ c.toNat ∧ c.toNat < 0xE0 ∨
      k = 3 ∧ 0xE0 ≤ c.toNat ∧ c.toNat < 0xF0 ∨ k = 4 ∧ 0xF0 ≤ c.toNat ∧ c.toNat < 0xF8 := by
  rw [charStep_eq]
  split_ifs <;> grind

/-- The bytes that are no lead byte. -/
theorem charStep_eq_none {c : UInt8} :
    charStep c = none ↔ 0x80 < c.toNat ∧ c.toNat < 0xC0 ∨ 0xF8 ≤ c.toNat := by
  rw [charStep_eq]
  split_ifs <;> grind

/-- A character advances by at least one byte. -/
theorem charStep_pos {c : UInt8} {k : Nat} (h : charStep c = some k) : 0 < k := by
  have := charStep_eq_some.mp h
  omega

/-- A character advances by at most four bytes. -/
theorem charStep_le {c : UInt8} {k : Nat} (h : charStep c = some k) : k ≤ 4 := by
  have := charStep_eq_some.mp h
  omega

/-- **The lead byte of a well-formed character gives its length.** -/
theorem charStep_lead (c : Utf8Char) {a : UInt8} {rest : List UInt8} (h : c.bytes = a :: rest) :
    charStep a = some c.bytes.length := by
  obtain ⟨a', rest', h', hlead⟩ := c.lead_cases
  rw [h] at h'
  obtain ⟨rfl, rfl⟩ := List.cons.inj h'
  rw [charStep_eq_some, h, List.length_cons]
  omega

/-- A byte that `utf8cpy` takes for a lead byte, and as many bytes behind it as it announces,
whatever they are. -/
def LeadBlock : List UInt8 → Prop
  | [a] => a.toNat ≤ 0x80
  | [a, _] => 0xC0 ≤ a.toNat ∧ a.toNat < 0xE0
  | [a, _, _] => 0xE0 ≤ a.toNat ∧ a.toNat < 0xF0
  | [a, _, _, _] => 0xF0 ≤ a.toNat ∧ a.toNat < 0xF8
  | _ => False

/-- **A block is a byte and what it announces.** -/
theorem leadBlock_cons {a : UInt8} {rest : List UInt8} :
    LeadBlock (a :: rest) ↔ charStep a = some (rest.length + 1) := by
  rw [charStep_eq_some]
  match rest with
  | [] => simp [LeadBlock]
  | [_] => simp [LeadBlock]
  | [_, _] => simp [LeadBlock]
  | [_, _, _] => simp [LeadBlock]
  | _ :: _ :: _ :: _ :: _ => simp [LeadBlock]

/-- A byte and the bytes behind it are a block as far as it announces them. -/
theorem leadBlock_take {c : UInt8} {t : List UInt8} {k : Nat} (hstep : charStep c = some k)
    (hk : k ≤ t.length + 1) : LeadBlock ((c :: t).take k) := by
  have hpos := charStep_pos hstep
  have hcons : (c :: t).take k = c :: t.take (k - 1) := List.take_cons hpos
  have hlen : (t.take (k - 1)).length + 1 = k := by
    rw [List.length_take]
    omega
  rw [hcons, leadBlock_cons, hlen, hstep]

/-- The lead byte of a block gives its length. -/
theorem LeadBlock.step {b : List UInt8} (h : LeadBlock b) :
    ∃ a rest, b = a :: rest ∧ charStep a = some b.length := by
  cases b with
  | nil => exact h.elim
  | cons a rest => exact ⟨a, rest, rfl, leadBlock_cons.mp h⟩

/-- A well-formed character is a block. -/
theorem Utf8Char.leadBlock (c : Utf8Char) : LeadBlock c.bytes := by
  obtain ⟨a, rest, hc, -⟩ := c.lead_cases
  have hstep := charStep_lead c hc
  rw [hc] at hstep ⊢
  exact leadBlock_cons.mpr hstep

/-- Well-formed characters are blocks. -/
theorem leadBlock_of_mem_chars (s : List Utf8Char) : ∀ b ∈ s.map Utf8Char.bytes, LeadBlock b :=
  List.forall_mem_map.mpr fun c _ => c.leadBlock

/-! ### Scanning characters inside a buffer -/

/-- How a scan for characters by their lead bytes ends inside a buffer. -/
inductive Scan
  /-- The characters take `k` bytes of the buffer. -/
  | done (k : Nat)
  /-- The lead byte of one of them is invalid. -/
  | invalid
  /-- One of them begins or ends behind the buffer. -/
  | outside
  deriving DecidableEq, Repr

/-- The same scan, begun `k` bytes earlier. -/
def Scan.shift (k : Nat) : Scan → Scan
  | .done j => .done (k + j)
  | .invalid => .invalid
  | .outside => .outside

/-- Scan for `n` characters from the start of `bs` on. -/
def scanChars : Nat → List UInt8 → Scan
  | 0, _ => .done 0
  | _ + 1, [] => .outside
  | n + 1, c :: bs =>
    match charStep c with
    | none => .invalid
    | some k => if bs.length + 1 < k then .outside else (scanChars n ((c :: bs).drop k)).shift k

/-- A shift by a sum. -/
theorem Scan.shift_shift (j k : Nat) (r : Scan) : (r.shift k).shift j = r.shift (j + k) := by
  cases r with
  | done i => rw [shift, shift, shift, Nat.add_assoc]
  | invalid => rfl
  | outside => rfl

/-- A shift by nothing. -/
@[simp] theorem Scan.shift_zero (r : Scan) : r.shift 0 = r := by
  cases r with
  | done i => rw [shift, Nat.zero_add]
  | invalid => rfl
  | outside => rfl

/-- One character that lies inside the buffer. -/
theorem scanChars_succ {c : UInt8} {bs : List UInt8} {n k : Nat} (h : charStep c = some k)
    (hk : k ≤ bs.length + 1) :
    scanChars (n + 1) (c :: bs) = (scanChars n ((c :: bs).drop k)).shift k := by
  rw [scanChars, h]
  exact if_neg (by omega)

/-- One character that ends behind the buffer. -/
theorem scanChars_succ_outside {c : UInt8} {bs : List UInt8} {n k : Nat}
    (h : charStep c = some k) (hk : bs.length + 1 < k) :
    scanChars (n + 1) (c :: bs) = .outside := by
  rw [scanChars, h]
  exact if_pos hk

/-- **The scan passes over blocks**, each by its own length. -/
theorem scanChars_blocks {blocks : List (List UInt8)} (h : ∀ b ∈ blocks, LeadBlock b) (n : Nat)
    (t : List UInt8) : scanChars (blocks.length + n) (blocks.flatten ++ t)
      = (scanChars n t).shift blocks.flatten.length := by
  induction blocks with
  | nil => simp
  | cons b blocks ih =>
    obtain ⟨hb, hblocks⟩ := List.forall_mem_cons.mp h
    obtain ⟨a, rest, rfl, hstep⟩ := hb.step
    have hfits : (a :: rest).length ≤ (rest ++ (blocks.flatten ++ t)).length + 1 := by
      rw [List.length_append, List.length_cons]
      omega
    have hdrop : (a :: (rest ++ (blocks.flatten ++ t))).drop (a :: rest).length
        = blocks.flatten ++ t := by
      rw [List.length_cons, List.drop_succ_cons, List.drop_left]
    rw [List.flatten_cons, List.length_append, ← Scan.shift_shift, ← ih hblocks, List.length_cons,
      Nat.add_right_comm]
    calc scanChars (blocks.length + n + 1) (a :: rest ++ blocks.flatten ++ t)
        = scanChars (blocks.length + n + 1) (a :: (rest ++ (blocks.flatten ++ t))) := by
          rw [List.append_assoc, List.cons_append]
      _ = (scanChars (blocks.length + n) (blocks.flatten ++ t)).shift (a :: rest).length := by
          rw [scanChars_succ hstep hfits, hdrop]

/-- **The scan passes over well-formed characters**, each by its own length. -/
theorem scanChars_utf8 (s : List Utf8Char) (n : Nat) (t : List UInt8) :
    scanChars (s.length + n) (utf8Bytes s ++ t)
      = (scanChars n t).shift (utf8Bytes s).length := by
  have hscan := scanChars_blocks (leadBlock_of_mem_chars s) n t
  rwa [List.length_map, ← List.flatMap_def, ← utf8Bytes] at hscan

/-- The scan of a whole text. -/
theorem scanChars_text (s : List Utf8Char) :
    scanChars s.length (utf8Bytes s) = .done (utf8Bytes s).length := by
  have := scanChars_utf8 s 0 []
  rwa [Nat.add_zero, List.append_nil, scanChars, Scan.shift, Nat.add_zero] at this

/-- A completed scan has found every character inside the buffer, one byte or more each. -/
theorem le_of_scanChars_done {n k : Nat} {bs : List UInt8} (h : scanChars n bs = .done k) :
    n ≤ k ∧ k ≤ bs.length := by
  induction n, bs using scanChars.induct generalizing k with
  | case1 bs =>
    rw [scanChars, Scan.done.injEq] at h
    omega
  | case2 n => cases h
  | case3 n c bs hstep =>
    rw [scanChars, hstep] at h
    cases h
  | case4 n c bs j hstep hj =>
    rw [scanChars_succ_outside hstep hj] at h
    cases h
  | case5 n c bs j hstep hj ih =>
    rw [scanChars_succ hstep (by omega)] at h
    have hpos := charStep_pos hstep
    cases hrest : scanChars n ((c :: bs).drop j) with
    | done i =>
      rw [hrest, Scan.shift, Scan.done.injEq] at h
      have hi := ih hrest
      rw [List.length_drop, List.length_cons] at hi
      rw [List.length_cons]
      omega
    | invalid => rw [hrest] at h; cases h
    | outside => rw [hrest] at h; cases h

/-! ### The loop of `utf8cpy` against the scan -/

/-- One more character. -/
theorem utf8cpyLoop_succ {src : Nat → UInt8} {n i k : Nat} (h : charStep (src i) = some k) :
    utf8cpyLoop src (n + 1) i
      = ((utf8cpyLoop src n (i + k)).1, i :: (utf8cpyLoop src n (i + k)).2) := by
  simp only [utf8cpyLoop, h]

/-- The loop ends behind every lead byte it has loaded, and not before its start. -/
theorem utf8cpyLoop_ge {src : Nat → UInt8} {n i j : Nat} (h : (utf8cpyLoop src n i).1 = some j) :
    i ≤ j ∧ ∀ x ∈ (utf8cpyLoop src n i).2, x < j := by
  induction n generalizing i with
  | zero =>
    simp only [utf8cpyLoop, Option.some.injEq] at h
    exact ⟨Nat.le_of_eq h, by simp [utf8cpyLoop]⟩
  | succ n ih =>
    cases hstep : charStep (src i) with
    | none => simp [utf8cpyLoop, hstep] at h
    | some k =>
      rw [utf8cpyLoop_succ hstep] at h ⊢
      have hpos := charStep_pos hstep
      obtain ⟨hle, hrs⟩ := ih h
      exact ⟨by omega, List.forall_mem_cons.mpr ⟨by omega, hrs⟩⟩

/-- What the loop does over a buffer that ends at offset `e`, for each way the scan can end. -/
def LoopMeets (e i : Nat) (r : Option Nat × List Nat) : Scan → Prop
  | .done k => r.1 = some (i + k) ∧ ∀ x ∈ r.2, x < e
  | .invalid => r.1 = none ∧ ∀ x ∈ r.2, x < e
  | .outside => (∃ x ∈ r.2, e ≤ x) ∨ ∃ j, r.1 = some j ∧ e < j

/-- One step of the loop inside the buffer. -/
theorem LoopMeets.step {e i k : Nat} {r : Option Nat × List Nat} {sc : Scan} (hi : i < e)
    (h : LoopMeets e (i + k) r sc) : LoopMeets e i (r.1, i :: r.2) (sc.shift k) := by
  cases sc with
  | done j =>
    refine ⟨by rw [h.1, Nat.add_assoc], ?_⟩
    exact List.forall_mem_cons.mpr ⟨hi, h.2⟩
  | invalid => exact ⟨h.1, List.forall_mem_cons.mpr ⟨hi, h.2⟩⟩
  | outside =>
    rcases h with ⟨x, hx, hex⟩ | hj
    · exact .inl ⟨x, List.mem_cons_of_mem _ hx, hex⟩
    · exact .inr hj

/-- **The loop of `utf8cpy` follows the scan**: inside the buffer it ends where the scan ends and
loads only bytes of the buffer; a scan that leaves the buffer takes the loop behind it. -/
theorem utf8cpyLoop_meets (src : Nat → UInt8) (n : Nat) (bs : List UInt8) {i : Nat}
    (h : Holds src i bs) : LoopMeets (i + bs.length) i (utf8cpyLoop src n i) (scanChars n bs) := by
  induction n, bs using scanChars.induct generalizing i with
  | case1 bs => exact ⟨by rw [utf8cpyLoop, Nat.add_zero], by simp [utf8cpyLoop]⟩
  | case2 n =>
    -- the lead byte is already behind the buffer
    refine .inl ⟨i, ?_, Nat.le_refl i⟩
    cases hstep : charStep (src i) with
    | none => simp [utf8cpyLoop, hstep]
    | some k => simp [utf8cpyLoop, hstep]
  | case3 n c bs hstep =>
    rw [scanChars, hstep]
    rw [← h.1] at hstep
    simp [utf8cpyLoop, hstep, LoopMeets]
  | case4 n c bs k hstep hk =>
    rw [scanChars_succ_outside hstep hk]
    rw [← h.1] at hstep
    rw [utf8cpyLoop_succ hstep, List.length_cons]
    -- this character ends behind the buffer: the loop ends there, or loads the next lead byte there
    cases n with
    | zero => exact .inr ⟨i + k, rfl, by omega⟩
    | succ n =>
      refine .inl ⟨i + k, List.mem_cons_of_mem _ ?_, by omega⟩
      cases hnext : charStep (src (i + k)) with
      | none => simp [utf8cpyLoop, hnext]
      | some k' => simp [utf8cpyLoop, hnext]
  | case5 n c bs k hstep hk ih =>
    rw [scanChars_succ hstep (by omega)]
    have hpos := charStep_pos hstep
    have hrest : Holds src (i + k) ((c :: bs).drop k) := h.drop (by rw [List.length_cons]; omega)
    have hend : i + k + ((c :: bs).drop k).length = i + (c :: bs).length := by
      rw [List.length_drop, List.length_cons]
      omega
    have hmeets := ih hrest
    rw [hend] at hmeets
    rw [← h.1] at hstep
    rw [utf8cpyLoop_succ hstep]
    refine LoopMeets.step ?_ hmeets
    rw [List.length_cons]
    omega

/-- Where zeros follow the buffer, only an invalid lead byte ends the loop early. -/
theorem utf8cpyLoop_zeros {src : Nat → UInt8} (n : Nat) (bs : List UInt8) {i : Nat}
    (h : Holds src i bs) (hzero : ∀ j, i + bs.length ≤ j → src j = 0)
    (hvalid : scanChars n bs ≠ .invalid) : ∃ j, (utf8cpyLoop src n i).1 = some j := by
  induction n generalizing bs i with
  | zero => exact ⟨i, rfl⟩
  | succ n ih =>
    have hcz : charStep 0 = some 1 := rfl
    cases bs with
    | nil =>
      have hi : charStep (src i) = some 1 := by rw [hzero i (Nat.le_refl i), hcz]
      rw [utf8cpyLoop_succ hi]
      refine ih [] (holds_nil _ _) (fun j hj => hzero j (by simp at hj ⊢; omega)) ?_
      cases n <;> simp [scanChars]
    | cons c bs =>
      cases hstep : charStep c with
      | none => exact absurd (by rw [scanChars, hstep]) hvalid
      | some k =>
        rw [utf8cpyLoop_succ (by rw [h.1, hstep])]
        by_cases hk : k ≤ bs.length + 1
        · refine ih ((c :: bs).drop k) (h.drop hk) (fun j hj => hzero j ?_) fun hinv => hvalid ?_
          · rw [List.length_drop, List.length_cons] at hj
            rw [List.length_cons]
            omega
          · rw [scanChars_succ hstep hk, hinv, Scan.shift]
        · refine ih [] (holds_nil _ _) (fun j hj => hzero j ?_) ?_
          · rw [List.length_nil] at hj
            rw [List.length_cons]
            omega
          · cases n <;> simp [scanChars]

/-! ### Copying a chunk -/

/-- The state after the bytes `cs` have been copied to `out_str` with the loads `rs`. -/
def DecodeState.copy (st : DecodeState) (cs : List UInt8) (rs : List Nat) : DecodeState :=
  { st with
    outStr := st.outStr.take st.outLength ++ cs
    outLength := st.outLength + cs.length
    reads := st.reads ++ rs
    writes := st.writes ++ (List.range cs.length).map (st.outLength + ·) }

/-- The loop of `utf8cpy` at `buf + off`, with the loads as offsets of `buf`. -/
theorem utf8cpyLoop_meets_at {buf : Nat → UInt8} {off : Nat} {bs : List UInt8} (n : Nat)
    (h : Holds buf off bs) :
    LoopMeets bs.length 0 (utf8cpyLoop (fun i => buf (off + i)) n 0) (scanChars n bs) := by
  have := utf8cpyLoop_meets (fun i => buf (off + i)) n bs ((holds_shift off 0 bs).mpr h)
  rwa [Nat.zero_add] at this

section CopyChunk

variable {buf : Nat → UInt8} {bufLength off n : Nat} {bs : List UInt8}

/-- A chunk that announces more characters than there are bytes is refused. -/
theorem copyChunk_short (hlen : bufLength < off + n) (st : DecodeState) :
    copyChunk buf bufLength off n st = (false, st) := by
  rw [copyChunk, if_pos hlen]

/-- Characters inside the buffer are copied. -/
theorem copyChunk_done {k : Nat} (hlen : off + n ≤ bufLength) (h : Holds buf off bs)
    (hscan : scanChars n bs = .done k) (st : DecodeState) :
    ∃ rs, copyChunk buf bufLength off n st = (true, st.copy (bs.take k) rs)
      ∧ ∀ r ∈ rs, r < off + bs.length := by
  have hmeets := utf8cpyLoop_meets_at n h
  have hk := (le_of_scanChars_done hscan).2
  rw [hscan, LoopMeets, Nat.zero_add] at hmeets
  have hpair : utf8cpyLoop (fun i => buf (off + i)) n 0
      = (some k, (utf8cpyLoop (fun i => buf (off + i)) n 0).2) := Prod.ext hmeets.1 rfl
  have htake : (List.range k).map (fun i => buf (off + i)) = bs.take k := by
    have := (h.take k).map_range
    rwa [List.length_take, Nat.min_eq_left hk] at this
  have hlentake : (bs.take k).length = k := by rw [List.length_take, Nat.min_eq_left hk]
  refine ⟨((utf8cpyLoop (fun i => buf (off + i)) n 0).2 ++ List.range k).map (off + ·), ?_, ?_⟩
  · rw [copyChunk, if_neg (by omega)]
    -- `utf8cpy` returns the offset the loop ended at and copies that many bytes
    simp only [utf8cpy]
    rw [hpair]
    simp only [htake, hlentake, DecodeState.copy]
  · intro r hr
    obtain ⟨x, hx, rfl⟩ := List.mem_map.mp hr
    rcases List.mem_append.mp hx with hx | hx
    · have := hmeets.2 x hx
      omega
    · have := List.mem_range.mp hx
      omega

/-- An invalid lead byte inside the buffer ends the copy before it starts. -/
theorem copyChunk_invalid (hlen : off + n ≤ bufLength) (h : Holds buf off bs)
    (hscan : scanChars n bs = .invalid) (st : DecodeState) :
    ∃ rs, copyChunk buf bufLength off n st = (false, st.copy [] rs)
      ∧ ∀ r ∈ rs, r < off + bs.length := by
  have hmeets := utf8cpyLoop_meets_at n h
  rw [hscan, LoopMeets] at hmeets
  have hpair : utf8cpyLoop (fun i => buf (off + i)) n 0
      = (none, (utf8cpyLoop (fun i => buf (off + i)) n 0).2) := Prod.ext hmeets.1 rfl
  refine ⟨(utf8cpyLoop (fun i => buf (off + i)) n 0).2.map (off + ·), ?_, ?_⟩
  · rw [copyChunk, if_neg (by omega)]
    simp only [utf8cpy]
    rw [hpair]
    simp [DecodeState.copy]
  · intro r hr
    obtain ⟨x, hx, rfl⟩ := List.mem_map.mp hr
    have := hmeets.2 x hx
    omega

/-- The loads of a copy. -/
theorem copyChunk_reads (hlen : off + n ≤ bufLength) (st : DecodeState) :
    (copyChunk buf bufLength off n st).2.reads
      = st.reads ++ (utf8cpy (fun i => buf (off + i)) n).reads.map (off + ·) := by
  simp only [copyChunk, if_neg (show ¬ bufLength < off + n by omega)]
  split <;> rfl

/-- Characters that leave the buffer are loaded from behind it, and more of them are copied than the
buffer has. -/
theorem copyChunk_outside (hlen : off + n ≤ bufLength) (h : Holds buf off bs)
    (hscan : scanChars n bs = .outside) (st : DecodeState) :
    (∃ r ∈ (copyChunk buf bufLength off n st).2.reads, off + bs.length ≤ r)
      ∧ ((copyChunk buf bufLength off n st).1 = true →
        st.outLength + bs.length < (copyChunk buf bufLength off n st).2.outLength) := by
  have hmeets := utf8cpyLoop_meets_at n h
  rw [hscan] at hmeets
  rcases hloop : utf8cpyLoop (fun i => buf (off + i)) n 0 with ⟨ret, rs⟩
  -- where the loop returns at all, it returns behind the buffer
  have hge {j : Nat} (hret : ret = some j) : bs.length < j := by
    have hbounds := utf8cpyLoop_ge (by rw [hloop, hret])
    rw [hloop] at hmeets hbounds
    rcases hmeets with ⟨x, hx, hle⟩ | ⟨j', hj', hlt⟩
    · have := hbounds.2 x hx
      omega
    · rw [hret, Option.some.injEq] at hj'
      omega
  constructor
  · obtain ⟨x, hx, hle⟩ : ∃ x ∈ (utf8cpy (fun i => buf (off + i)) n).reads, bs.length ≤ x := by
      rw [utf8cpy, hloop]
      rw [hloop] at hmeets
      cases ret with
      | none =>
        rcases hmeets with hx | ⟨j, hj, -⟩
        · exact hx
        · cases hj
      | some j =>
        -- the loop ended behind the buffer, so the `memcpy` loads the byte at its end
        exact ⟨bs.length, List.mem_append_right _ (List.mem_range.mpr (hge rfl)), Nat.le_refl _⟩
    refine ⟨off + x, ?_, by omega⟩
    rw [copyChunk_reads hlen]
    exact List.mem_append_right _ (List.mem_map_of_mem hx)
  · simp only [copyChunk, if_neg (show ¬ bufLength < off + n by omega), utf8cpy, hloop]
    cases ret with
    | none => simp
    | some j =>
      intro _
      have := hge rfl
      simp only
      omega

end CopyChunk

/-! ### The header of a chunk -/

/-- What the header of a chunk says. -/
structure ChunkHead where
  /-- It is the header of a final chunk. -/
  final : Bool
  /-- Its length. -/
  off : Nat
  /-- The number of characters it announces. -/
  count : Nat
  deriving DecidableEq, Repr

/-- The header at the start of a buffer; `none` when it is cut off or no header of a string. -/
def chunkHead : List UInt8 → Option ChunkHead
  | [] => none
  | code :: bs =>
    if code.toNat ≤ 0x1f then some ⟨true, 1, code.toNat⟩
    else if 0x30 ≤ code.toNat ∧ code.toNat ≤ 0x33 then
      match bs with
      | b0 :: _ => some ⟨true, 2, (code.toNat - 0x30) * 256 + b0.toNat⟩
      | [] => none
    else if code.toNat = 0x53 then
      match bs with
      | b1 :: b0 :: _ => some ⟨true, 3, beNat [b1, b0]⟩
      | _ => none
    else if code.toNat = 0x52 then
      match bs with
      | b1 :: b0 :: _ => some ⟨false, 3, beNat [b1, b0]⟩
      | _ => none
    else none

/-- The state once the header has been read. -/
def DecodeState.enter (st : DecodeState) (hd : ChunkHead) : DecodeState :=
  { st with isLastChunk := hd.final, reads := st.reads ++ List.range hd.off }

/-- What `internal_decode_string` does behind the header. -/
def decodeChunk (buf : Nat → UInt8) (bufLength fuel : Nat) (hd : ChunkHead) (st : DecodeState) :
    Option Bool × DecodeState :=
  let r := copyChunk buf bufLength hd.off hd.count (st.enter hd)
  if hd.final then (some r.1, r.2)
  else if r.1 then chunkLoop buf bufLength fuel r.2 else (some false, r.2)

variable {buf : Nat → UInt8} {b : List UInt8} {hd : ChunkHead}

/-- A header lies inside the buffer. -/
theorem chunkHead_off_le (h : chunkHead b = some hd) : hd.off ≤ b.length := by
  unfold chunkHead at h
  grind

/-- What stands behind the header. -/
theorem holds_behind_head (hbuf : Holds buf 0 b) (h : chunkHead b = some hd) :
    Holds buf hd.off (b.drop hd.off) ∧ hd.off + (b.drop hd.off).length = b.length := by
  have hoff := chunkHead_off_le h
  have hdrop := hbuf.drop hoff
  rw [Nat.zero_add] at hdrop
  refine ⟨hdrop, ?_⟩
  rw [List.length_drop]
  omega

/-- **The header decides** what `internal_decode_string` does. -/
theorem internalDecodeString_head (hbuf : Holds buf 0 b) (h : chunkHead b = some hd) (fuel : Nat)
    (st : DecodeState) :
    internalDecodeString buf b.length (fuel + 1) st = decodeChunk buf b.length fuel hd st := by
  cases b with
  | nil => cases h
  | cons code bs =>
    have h0 : buf 0 = code := hbuf.1
    rw [internalDecodeString, h0]
    by_cases hshort : code.toNat ≤ 0x1f
    · rw [chunkHead.eq_def] at h
      simp only [if_pos hshort, Option.some.injEq] at h
      subst h
      simp only [if_pos hshort]
      rfl
    by_cases hmedium : 0x30 ≤ code.toNat ∧ code.toNat ≤ 0x33
    · rw [chunkHead.eq_def] at h
      simp only [if_neg hshort, if_pos hmedium] at h
      simp only [if_neg hshort, if_pos hmedium]
      match bs, hbuf, h with
      | [], _, h => cases h
      | b0 :: bs, hbuf, h =>
        cases h
        rw [if_neg (by simp only [List.length_cons]; omega), hbuf.2.1, List.append_assoc]
        rfl
    by_cases hlong : code.toNat = 0x53
    · rw [chunkHead.eq_def] at h
      simp only [if_neg hshort, if_neg hmedium, if_pos hlong] at h
      simp only [if_neg hshort, if_neg hmedium, if_pos hlong]
      match bs, hbuf, h with
      | [], _, h => cases h
      | [_], _, h => cases h
      | b1 :: b0 :: bs, hbuf, h =>
        cases h
        rw [if_neg (by simp only [List.length_cons]; omega), hbuf.2.1, hbuf.2.2.1,
          List.append_assoc]
        rfl
    by_cases hnonfinal : code.toNat = 0x52
    · rw [chunkHead.eq_def] at h
      simp only [if_neg hshort, if_neg hmedium, if_neg hlong, if_pos hnonfinal] at h
      simp only [if_neg hshort, if_neg hmedium, if_neg hlong, if_pos hnonfinal]
      match bs, hbuf, h with
      | [], _, h => cases h
      | [_], _, h => cases h
      | b1 :: b0 :: bs, hbuf, h =>
        cases h
        rw [if_neg (by simp only [List.length_cons]; omega), hbuf.2.1, hbuf.2.2.1,
          List.append_assoc]
        rfl
    · rw [chunkHead.eq_def] at h
      simp only [if_neg hshort, if_neg hmedium, if_neg hlong, if_neg hnonfinal] at h
      cases h

/-- Without a header, `internal_decode_string` reads the first byte and refuses. -/
theorem internalDecodeString_no_head (hbuf : Holds buf 0 b) (h : chunkHead b = none) (fuel : Nat)
    (st : DecodeState) :
    ∃ st', internalDecodeString buf b.length (fuel + 1) st = (some false, st')
      ∧ st'.reads = st.reads ++ [0] ∧ st'.writes = st.writes := by
  cases b with
  | nil =>
    -- whatever byte is read there, no length check passes
    rw [internalDecodeString, List.length_nil]
    by_cases hshort : (buf 0).toNat ≤ 0x1f
    · simp only [if_pos hshort]
      rw [copyChunk_short (by omega)]
      exact ⟨_, rfl, rfl, rfl⟩
    · simp only [if_neg hshort, Nat.reduceLT, if_true]
      split_ifs <;> exact ⟨_, rfl, rfl, rfl⟩
  | cons code bs =>
    have h0 : buf 0 = code := hbuf.1
    rw [internalDecodeString, h0]
    by_cases hshort : code.toNat ≤ 0x1f
    · rw [chunkHead.eq_def] at h
      simp only [if_pos hshort] at h
      cases h
    by_cases hmedium : 0x30 ≤ code.toNat ∧ code.toNat ≤ 0x33
    · rw [chunkHead.eq_def] at h
      simp only [if_neg hshort, if_pos hmedium] at h
      simp only [if_neg hshort, if_pos hmedium]
      match bs, h with
      | [], _ => exact ⟨_, rfl, rfl, rfl⟩
      | b0 :: bs, h => cases h
    by_cases hlong : code.toNat = 0x53
    · rw [chunkHead.eq_def] at h
      simp only [if_neg hshort, if_neg hmedium, if_pos hlong] at h
      simp only [if_neg hshort, if_neg hmedium, if_pos hlong]
      match bs, h with
      | [], _ => exact ⟨_, rfl, rfl, rfl⟩
      | [_], _ => exact ⟨_, rfl, rfl, rfl⟩
      | b1 :: b0 :: bs, h => cases h
    by_cases hnonfinal : code.toNat = 0x52
    · rw [chunkHead.eq_def] at h
      simp only [if_neg hshort, if_neg hmedium, if_neg hlong, if_pos hnonfinal] at h
      simp only [if_neg hshort, if_neg hmedium, if_neg hlong, if_pos hnonfinal]
      match bs, h with
      | [], _ => exact ⟨_, rfl, rfl, rfl⟩
      | [_], _ => exact ⟨_, rfl, rfl, rfl⟩
      | b1 :: b0 :: bs, h => cases h
    · simp only [if_neg hshort, if_neg hmedium, if_neg hlong, if_neg hnonfinal]
      exact ⟨_, rfl, rfl, rfl⟩

/-! ### Single-chunk strings -/

/-- The header of a final chunk is read as what it announces. -/
theorem chunkHead_header (form : StrForm) {n : Nat} (h : n ≤ form.limit) (rest : List UInt8) :
    chunkHead (form.header n ++ rest) = some ⟨true, (form.header n).length, n⟩ := by
  rw [chunkHead.eq_def]
  cases form with
  | short =>
    rw [StrForm.limit] at h
    have hn : (UInt8.ofNat n).toNat = n := by
      rw [UInt8.toNat_ofNat']
      omega
    simp only [StrForm.header, List.cons_append, hn]
    rw [if_pos h]
    rfl
  | medium =>
    rw [StrForm.limit] at h
    have hcode : (UInt8.ofNat (0x30 + n / 256)).toNat = 0x30 + n / 256 := by
      rw [UInt8.toNat_ofNat']
      omega
    have hlow : (UInt8.ofNat (n % 256)).toNat = n % 256 := by
      rw [UInt8.toNat_ofNat']
      omega
    simp only [StrForm.header, List.cons_append, hcode, hlow]
    rw [if_neg (by omega), if_pos (by omega), Option.some.injEq, ChunkHead.mk.injEq]
    refine ⟨rfl, rfl, ?_⟩
    omega
  | long =>
    rw [StrForm.limit] at h
    have hn := beNat_beBytes 2 n
    rw [Nat.mod_eq_of_lt (by omega)] at hn
    simp only [StrForm.header, List.cons_append, beBytes]
    rw [if_neg (by decide), if_neg (by decide), if_pos (by decide), Option.some.injEq,
      ChunkHead.mk.injEq]
    exact ⟨rfl, rfl, hn⟩

/-- A final chunk whose characters lie inside the buffer is decoded to their bytes. -/
theorem hsDecodeString_final {off n k : Nat} {bs : List UInt8} (hbuf : Holds buf 0 b)
    (hhead : chunkHead b = some ⟨true, off, n⟩) (hlen : off + n ≤ b.length)
    (hbs : Holds buf off bs) (hscan : scanChars n bs = .done k) (fuel : Nat) :
    ∃ rs, hsDecodeString true buf b.length (fuel + 1)
        = ⟨.retTrue (bs.take k) k, List.range off ++ rs, List.range k⟩
      ∧ ∀ r ∈ rs, r < off + bs.length := by
  obtain ⟨rs, hcopy, hrs⟩ := copyChunk_done hlen hbs hscan (decodeStart.enter ⟨true, off, n⟩)
  have hk : (bs.take k).length = k := by
    rw [List.length_take, Nat.min_eq_left (le_of_scanChars_done hscan).2]
  have htake : (bs.take k).take k = bs.take k := List.take_of_length_le (Nat.le_of_eq hk)
  refine ⟨rs, ?_, hrs⟩
  simp only [hsDecodeString, internalDecodeString_head hbuf hhead, decodeChunk, hcopy]
  simp [DecodeState.copy, DecodeState.enter, decodeStart, hk, htake]

/-- A final chunk is decoded to exactly its text, with no load behind it and one store a byte. -/
theorem hsDecodeString_finalChunk (f : FinalChunk) (t : List UInt8) {mem : Nat → UInt8}
    (h : Holds mem 0 (f.bytes ++ t)) (fuel : Nat) :
    (hsDecodeString true mem (f.bytes ++ t).length (fuel + 1)).ret
        = .retTrue f.text f.text.length
      ∧ (∀ r ∈ (hsDecodeString true mem (f.bytes ++ t).length (fuel + 1)).reads,
        r < f.bytes.length)
      ∧ (hsDecodeString true mem (f.bytes ++ t).length (fuel + 1)).writes
        = List.range f.text.length := by
  have hhead := chunkHead_header f.form f.fits (f.text ++ t)
  rw [← List.append_assoc, ← FinalChunk.bytes] at hhead
  have hbs : Holds mem (f.form.header f.chars.length).length f.text := by
    rw [FinalChunk.bytes, List.append_assoc, holds_append, Nat.zero_add, holds_append] at h
    exact h.2.1
  have hscan : scanChars f.chars.length f.text = .done f.text.length := scanChars_text f.chars
  have hbytes : f.bytes.length = (f.form.header f.chars.length).length + f.text.length := by
    rw [FinalChunk.bytes, List.length_append]
  have hchars : f.chars.length ≤ f.text.length := length_le_utf8Bytes f.chars
  obtain ⟨rs, hrun, hrs⟩ := hsDecodeString_final h hhead
    (by rw [List.length_append]; omega) hbs hscan fuel
  rw [hrun, List.take_length]
  refine ⟨rfl, fun r hr => ?_, rfl⟩
  rcases List.mem_append.mp hr with hr | hr
  · have := List.mem_range.mp hr
    omega
  · have := hrs r hr
    omega

/-- **Single-chunk strings are decoded as the grammar says**: whatever follows a final chunk, the
decoder returns exactly its text and loads no byte behind it. -/
theorem hs_decode_single_chunk (f : FinalChunk) (t : List UInt8) (mem : Nat → UInt8)
    (h : Holds mem 0 (f.bytes ++ t)) (fuel : Nat) (hfuel : 0 < fuel) :
    (hsDecodeString true mem (f.bytes ++ t).length fuel).ret = .retTrue f.text f.text.length
      ∧ ∀ r ∈ (hsDecodeString true mem (f.bytes ++ t).length fuel).reads, r < f.bytes.length := by
  obtain ⟨fuel, rfl⟩ := Nat.exists_eq_add_of_le' hfuel
  obtain ⟨hret, hreads, -⟩ := hsDecodeString_finalChunk f t h fuel
  exact ⟨hret, hreads⟩

/-- The two characters `éA`, followed by a null. -/
theorem hs_decode_single_chunk_two :
    (hsDecodeString true (zeroExt [0x02, 0xC3, 0xA9, 0x41, 0x4E]) 5 1).ret
        = .retTrue [0xC3, 0xA9, 0x41] 3
      ∧ ∀ r ∈ (hsDecodeString true (zeroExt [0x02, 0xC3, 0xA9, 0x41, 0x4E]) 5 1).reads, r < 4 :=
  hs_decode_single_chunk ⟨.short, [⟨[0xC3, 0xA9], rfl⟩, ⟨[0x41], rfl⟩], by decide⟩ [0x4E]
    (zeroExt [0x02, 0xC3, 0xA9, 0x41, 0x4E]) (holds_zeroExt _) 1 (by decide)

/-! ### The round trip -/

/-- The shortest header can announce up to 65535 characters. -/
theorem StrForm.le_limit_least {n : Nat} (h : n ≤ 65535) : n ≤ (StrForm.least n).limit := by
  unfold StrForm.least
  split
  · assumption
  · split
    · assumption
    · exact h

/-- The bytes `hs_encode_string` writes for a string it accepts: the shortest header for the number
of *bytes*, then the bytes. -/
theorem hsEncodeString_eq {str : CStr} (h : str.bytes.length ≤ 0x8000) :
    hsEncodeString str = .ok (some (asciiString str.bytes)) := by
  have hlen : toSigned 32 (strlen str) = (str.bytes.length : Int) :=
    toSigned_of_lt (by rw [strlen]; omega)
  have hbyte (x : Nat) : toU8 (x : Int) = UInt8.ofNat x := by
    rw [toU8]
    norm_cast
    exact UInt8.ofNat_mod_size
  have hdiv : (str.bytes.length : Int) / (2 ^ 8 : Nat) = (str.bytes.length / 256 : Nat) := by
    norm_cast
  simp only [hsEncodeString, hlen, asciiString, StrForm.least]
  rw [if_neg (by omega), if_neg (by omega), Int.toNat_natCast, List.take_length,
    Int.shiftRight_eq_div_pow]
  by_cases hshort : str.bytes.length ≤ 31
  · rw [if_pos (by omega), if_pos hshort, hbyte]
    rfl
  by_cases hmedium : str.bytes.length ≤ 1023
  · have hcode : (48 : Int) + (str.bytes.length / 256 : Nat)
        = (0x30 + str.bytes.length / 256 : Nat) := by push_cast; rfl
    rw [if_neg (by omega), if_neg hshort, if_pos (by omega), if_pos hmedium, hdiv, hcode, hbyte,
      hbyte]
    simp only [StrForm.header]
    rw [UInt8.ofNat_mod_size]
  · rw [if_neg (by omega), if_neg hshort, if_neg (by omega), if_neg hmedium, hdiv, hbyte, hbyte]
    simp only [StrForm.header, beBytes, Nat.pow_zero, Nat.div_one, Nat.pow_one]

/-- `hs_decode_string` returns `r`: with enough fuel the run ends, and it ends so. -/
def HsReturns (mem : Nat → UInt8) (sz : Nat) (r : HsRet) : Prop :=
  ∃ N, ∀ fuel, N ≤ fuel → (hsDecodeString true mem sz fuel).ret = r

/-- **The string round trip**: `str` is encoded, and whatever follows the encoding, the decoder
returns the bytes of `str`. -/
def StringRoundTrips (str : CStr) : Prop :=
  ∃ enc, hsEncodeString str = .ok (some enc) ∧
    ∀ (t : List UInt8) (mem : Nat → UInt8), Holds mem 0 (enc ++ t) →
      HsReturns mem (enc ++ t).length (.retTrue str.bytes str.bytes.length)

/-- A final chunk is decoded to its text. -/
theorem hsReturns_finalChunk (f : FinalChunk) (t : List UInt8) {mem : Nat → UInt8}
    (h : Holds mem 0 (f.bytes ++ t)) :
    HsReturns mem (f.bytes ++ t).length (.retTrue f.text f.text.length) := by
  refine ⟨1, fun fuel hfuel => ?_⟩
  obtain ⟨fuel, rfl⟩ := Nat.exists_eq_add_of_le' hfuel
  exact (hsDecodeString_finalChunk f t h fuel).1

/-- The encoding of a text with more bytes than characters announces too many characters: the
decoder goes on behind the text. -/
theorem not_hsReturns_of_lt {form : StrForm} {s : List Utf8Char}
    (hfits : (utf8Bytes s).length ≤ form.limit) (hlt : s.length < (utf8Bytes s).length)
    {mem : Nat → UInt8} {enc : List UInt8}
    (henc : enc = form.header (utf8Bytes s).length ++ utf8Bytes s) (h : Holds mem 0 enc)
    (out : List UInt8) : ¬ HsReturns mem enc.length (.retTrue out (utf8Bytes s).length) := by
  rintro ⟨N, hret⟩
  have hret := hret (N + 1) (Nat.le_succ N)
  have hhead : chunkHead enc = some ⟨true, (form.header (utf8Bytes s).length).length,
      (utf8Bytes s).length⟩ := by
    rw [henc]
    exact chunkHead_header form hfits (utf8Bytes s)
  have hbs : Holds mem (form.header (utf8Bytes s).length).length (utf8Bytes s) := by
    rw [henc, holds_append, Nat.zero_add] at h
    exact h.2
  -- behind the last character the scan still expects one for every byte too many
  have hscan : scanChars (utf8Bytes s).length (utf8Bytes s) = .outside := by
    have := scanChars_utf8 s ((utf8Bytes s).length - s.length - 1 + 1) []
    rwa [List.append_nil, scanChars, Scan.shift, show s.length +
      ((utf8Bytes s).length - s.length - 1 + 1) = (utf8Bytes s).length by omega] at this
  have hlen : (form.header (utf8Bytes s).length).length + (utf8Bytes s).length ≤ enc.length := by
    rw [henc, List.length_append]
  have hcopy := (copyChunk_outside hlen hbs hscan (decodeStart.enter ⟨true,
    (form.header (utf8Bytes s).length).length, (utf8Bytes s).length⟩)).2
  simp only [hsDecodeString, internalDecodeString_head h hhead, decodeChunk, if_true] at hret
  split at hret
  · cases hret
  · cases hret
  next hok =>
    rw [HsRet.retTrue.injEq] at hret
    have := hcopy (Option.some.inj hok)
    rw [hret.2] at this
    omega

/-- **The string codec round-trips exactly on ASCII text**: elsewhere the encoder announces more
characters than there are. -/
theorem hs_string_round_trip_iff (str : CStr) (hwf : WellFormedUtf8 str.bytes)
    (hlen : str.bytes.length ≤ 0x8000) :
    StringRoundTrips str ↔ ∀ c ∈ str.bytes, c < 0x80 := by
  obtain ⟨s, hs⟩ := hwf
  have hfits := StrForm.le_limit_least (show str.bytes.length ≤ 65535 by omega)
  have henc := hsEncodeString_eq hlen
  constructor
  · rintro ⟨enc, henc', hdec⟩
    rw [henc, Except.ok.injEq, Option.some.injEq, asciiString] at henc'
    -- some character has more than one byte, so there are more bytes than characters
    by_contra hascii
    rw [← hs] at hascii henc' hfits
    have hlt : s.length < (utf8Bytes s).length := by
      have := length_le_utf8Bytes s
      have := mt (length_utf8Bytes_eq_iff s).mp hascii
      omega
    have hrun := hdec [] (zeroExt enc) (by rw [List.append_nil]; exact holds_zeroExt enc)
    rw [List.append_nil, ← hs] at hrun
    exact not_hsReturns_of_lt hfits hlt henc'.symm (holds_zeroExt enc) _ hrun
  · intro hascii
    obtain ⟨cs, hcs, hcount⟩ := exists_utf8_of_ascii str.bytes hascii
    refine ⟨_, henc, fun t mem hmem => ?_⟩
    -- one character a byte: the encoding is a final chunk of the grammar
    let f : FinalChunk := ⟨StrForm.least str.bytes.length, cs, by rw [hcount]; exact hfits⟩
    have htext : f.text = str.bytes := hcs
    have hbytes : f.bytes = asciiString str.bytes := by
      rw [FinalChunk.bytes, htext, hcount, asciiString]
    have := hsReturns_finalChunk f t (by rwa [hbytes])
    rwa [hbytes, htext] at this

/-- The text `ab`. -/
theorem hs_string_round_trip_ab : StringRoundTrips ⟨[0x61, 0x62], by decide⟩ :=
  (hs_string_round_trip_iff ⟨[0x61, 0x62], by decide⟩ ⟨[⟨[0x61], rfl⟩, ⟨[0x62], rfl⟩], rfl⟩
    (by decide)).mpr
    (List.forall_mem_cons.mpr ⟨by decide, List.forall_mem_singleton.mpr (by decide)⟩)

/-- The text `é` is encoded as `02 c3 a9`. Followed by `A`, it is decoded as the two characters
`éA`. -/
theorem hs_string_round_trip_fails :
    WellFormedUtf8 [0xC3, 0xA9]
      ∧ hsEncodeString ⟨[0xC3, 0xA9], by decide⟩ = .ok (some [0x02, 0xC3, 0xA9])
      ∧ (hsDecodeString true (zeroExt [0x02, 0xC3, 0xA9, 0x41]) 4 1).ret
          = .retTrue [0xC3, 0xA9, 0x41] 3
      ∧ ¬ StringRoundTrips ⟨[0xC3, 0xA9], by decide⟩ := by
  have henc : hsEncodeString ⟨[0xC3, 0xA9], by decide⟩ = .ok (some [0x02, 0xC3, 0xA9]) := by rfl
  -- for the decoder the bytes are the chunk of the two characters `éA`
  have hdec (fuel : Nat) : (hsDecodeString true (zeroExt [0x02, 0xC3, 0xA9, 0x41]) 4
      (fuel + 1)).ret = .retTrue [0xC3, 0xA9, 0x41] 3 :=
    (hsDecodeString_finalChunk ⟨.short, [⟨[0xC3, 0xA9], rfl⟩, ⟨[0x41], rfl⟩], by decide⟩ []
      (holds_zeroExt [0x02, 0xC3, 0xA9, 0x41]) fuel).1
  refine ⟨⟨[⟨[0xC3, 0xA9], rfl⟩], rfl⟩, henc, hdec 0, ?_⟩
  rintro ⟨enc, henc', hrt⟩
  rw [henc, Except.ok.injEq, Option.some.injEq] at henc'
  subst henc'
  obtain ⟨N, hN⟩ := hrt [0x41] (zeroExt [0x02, 0xC3, 0xA9, 0x41]) (holds_zeroExt _)
  have hN := (hdec N).symm.trans (hN (N + 1) (Nat.le_succ N))
  rw [HsRet.retTrue.injEq] at hN
  exact absurd hN.2 (by decide)

end Wee
