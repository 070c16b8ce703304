import Wee.Base.BufferFields

/-! # C strings out of a buffer

`buf_dupCStr` and `buf_readCStr` hand out the readable bytes up to the first NUL. Both copy a
number of bytes that need not be readable: one more than there are when no NUL is among them, and,
in `buf_readCStr`, as many as the string of the caller holds. What such a copy stores depends on the
block behind the write index, so the outcome is stated for every block that agrees on the readable
bytes. -/

namespace Wee

/-! ### The string in front of a queue -/

/-- The bytes up to the first NUL. -/
def cStr (q : List UInt8) : List UInt8 := q.takeWhile (· != 0)

/-- What taking the string takes with it: its NUL, if there is one. -/
def cStrTaken (q : List UInt8) : Nat := if 0 ∈ q then (cStr q).length + 1 else (cStr q).length

/-- `memchr` for NUL: nothing, and the string is all of the bytes, or the index of its end. -/
theorem findIdx_nul (q : List UInt8) :
    (q.findIdx? (· == 0) = none ∧ 0 ∉ q ∧ (cStr q).length = q.length)
      ∨ (q.findIdx? (· == 0) = some (cStr q).length ∧ 0 ∈ q ∧ (cStr q).length < q.length
        ∧ q.take ((cStr q).length + 1) = cStr q ++ [0]) := by
  induction q with
  | nil => exact Or.inl ⟨rfl, List.not_mem_nil, rfl⟩
  | cons c q ih =>
    by_cases hc : c = 0
    · -- the string ends here
      subst hc
      exact Or.inr ⟨rfl, List.mem_cons_self, Nat.succ_pos _, rfl⟩
    · have hbeq : (c == 0) = false := beq_false_of_ne hc
      have hstr : cStr (c :: q) = c :: cStr q := by
        exact List.takeWhile_cons_of_pos (p := (· != 0)) (bne_iff_ne.mpr hc)
      rw [List.findIdx?_cons, hbeq, hstr, List.length_cons, List.length_cons]
      rcases ih with ⟨hfind, hmem, hlen⟩ | ⟨hfind, hmem, hlt, htake⟩
      · refine Or.inl ⟨?_, ?_, by omega⟩
        · rw [hfind]
          rfl
        · rw [List.mem_cons, not_or]
          exact ⟨Ne.symm hc, hmem⟩
      · refine Or.inr ⟨?_, List.mem_cons_of_mem _ hmem, by omega, ?_⟩
        · rw [hfind]
          rfl
        · rw [List.take_succ_cons, htake, List.cons_append]

/-- There is a byte behind the string exactly when it has a NUL. -/
theorem nul_mem_iff (q : List UInt8) : 0 ∈ q ↔ (cStr q).length + 1 ≤ q.length := by
  rcases findIdx_nul q with ⟨-, hmem, hlen⟩ | ⟨-, hmem, hlt, -⟩
  · exact ⟨fun h => absurd h hmem, fun h => by omega⟩
  · exact ⟨fun _ => hlt, fun _ => hmem⟩

/-- The string and its NUL are the front of the bytes. -/
theorem take_cStr {q : List UInt8} (h : 0 ∈ q) : q.take ((cStr q).length + 1) = cStr q ++ [0] := by
  rcases findIdx_nul q with ⟨-, hmem, -⟩ | ⟨-, -, -, htake⟩
  · exact absurd h hmem
  · exact htake

/-! ### The size of the string as an `int` -/

/-- `n` and one more survive the `int` they are kept in. -/
def IntSized (n : Nat) : Prop := toUnsigned 64 (toSigned 32 (n + 1)) = n + 1

/-- Within the sizes `malloc` gives out these are the sizes below `INT_MAX`. -/
theorem intSized_iff {n : Nat} (h : n < 2 ^ 63) : IntSized n ↔ n + 1 < 2 ^ 31 := by
  unfold IntSized toUnsigned toSigned
  constructor
  · intro hn
    split at hn <;> omega
  · intro hn
    split <;> omega

/-- The `int` is not above the size. -/
theorem toSigned_le (n : Nat) : toSigned 32 n ≤ n := by
  unfold toSigned
  split <;> omega

/-- `size_t` wraps around where `int` does. -/
theorem toSigned_szAdd (n k : Nat) : toSigned 32 (szAdd n k) = toSigned 32 (n + k) := by
  unfold toSigned szAdd
  rw [Nat.mod_mod_of_dvd _ (by decide)]

/-! ### The steps of both functions -/

section Steps

variable {b : Buffer}

/-- `buf_findChar` for NUL. -/
theorem BufShape.findNul (h : BufShape b) :
    bufFindChar b 0 = .ok (((bufBytes b).findIdx? (· == 0)).map (b.readIdx + ·)) := by
  have hlen := h.length_bufBytes
  rw [bufFindChar, h.load_front (le_refl _), exec_ok_bind, List.take_of_length_le (by omega)]
  rfl

/-- The size both functions compute. -/
theorem BufShape.cStrSize_eq (h : BufShape b) :
    bufCStrSize b (((bufBytes b).findIdx? (· == 0)).map (b.readIdx + ·))
      = toSigned 32 ((cStr (bufBytes b)).length + 1) := by
  have hr := h.read_le_write
  have hw := h.write_le_sz
  have hs := h.sz_lt
  have hread := h.readable_eq
  have hlen := h.length_bufBytes
  rcases findIdx_nul (bufBytes b) with ⟨hfind, -, hall⟩ | ⟨hfind, -, hlt, -⟩
  · rw [hfind, Option.map_none, bufCStrSize, toSigned_szAdd, hall, hlen]
  · rw [hfind, Option.map_some, bufCStrSize, toSigned_szAdd, szSub_eq (by omega) (by omega),
      Nat.add_sub_cancel_left]

/-- With a NUL among the bytes and a size that survived, the string and its NUL are retrieved. -/
theorem BufShape.retrieveCStr_spec (h : BufShape b) (hnul : 0 ∈ bufBytes b)
    (hint : IntSized (cStr (bufBytes b)).length) :
    Returns (bufRetrieveCStr b (((bufBytes b).findIdx? (· == 0)).map (b.readIdx + ·))
      (toSigned 32 ((cStr (bufBytes b)).length + 1))) (Consumed (cStrTaken (bufBytes b)) b) := by
  have hlen := h.length_bufBytes
  have htaken : cStrTaken (bufBytes b) = (cStr (bufBytes b)).length + 1 := if_pos hnul
  have hlt := (nul_mem_iff _).mp hnul
  rcases findIdx_nul (bufBytes b) with ⟨-, hno, -⟩ | ⟨hfind, -, -, -⟩
  · exact absurd hnul hno
  · rw [hfind, Option.map_some, bufRetrieveCStr, hint, htaken]
    exact h.retrieve_spec (by omega)

/-- `buf_dupCStr` once the NUL has been searched for. -/
theorem BufShape.dupCStr_eq (h : BufShape b) :
    bufDupCStr b
      = memLoad b.buf b.readIdx (toUnsigned 64 (toSigned 32 ((cStr (bufBytes b)).length + 1)))
        >>= fun d => bufRetrieveCStr b (((bufBytes b).findIdx? (· == 0)).map (b.readIdx + ·))
          (toSigned 32 ((cStr (bufBytes b)).length + 1)) >>= fun b₁ => .ok (d, b₁) := by
  rw [bufDupCStr, h.findNul, exec_ok_bind]
  dsimp only
  rw [h.cStrSize_eq]
  rfl

/-- `buf_readCStr` once the NUL has been searched for. -/
theorem BufShape.readCStr_eq (h : BufShape b) (sz : Int) :
    bufReadCStr b sz
      = if sz < toSigned 32 ((cStr (bufBytes b)).length + 1) then .ok (none, b)
        else memLoad b.buf b.readIdx (toUnsigned 64 sz)
          >>= fun d => bufRetrieveCStr b (((bufBytes b).findIdx? (· == 0)).map (b.readIdx + ·))
            (toSigned 32 ((cStr (bufBytes b)).length + 1)) >>= fun b₁ => .ok (some d, b₁) := by
  rw [bufReadCStr, h.findNul, exec_ok_bind]
  dsimp only
  rw [h.cStrSize_eq]
  rfl

end Steps

/-! ### Blocks with the same readable bytes -/

/-- `b'` has the readable bytes of `b` at the same place; the rest of its block, and its size, may
be different. -/
structure SameReadable (b b' : Buffer) : Prop where
  /-- The shape. -/
  shape : BufShape b'
  /-- The read index. -/
  readIdx : b'.readIdx = b.readIdx
  /-- The write index. -/
  writeIdx : b'.writeIdx = b.writeIdx
  /-- The readable bytes. -/
  bytes : bufBytes b' = bufBytes b

/-- The block that ends with the readable bytes. -/
def cutBlock (b : Buffer) : Buffer :=
  { b with pSz := 0, sz := b.writeIdx, buf := b.buf.take b.writeIdx }

/-- It has the same readable bytes. -/
theorem cutBlock_same {b : Buffer} (h : BufShape b) : SameReadable b (cutBlock b) where
  shape := by
    have hw := h.write_le_sz
    have hl := h.length_buf
    have hs := h.sz_lt
    exact { read_le_write := h.read_le_write, write_le_sz := le_refl _, pSz_le_sz := Nat.zero_le _,
            length_buf := by dsimp only [cutBlock]; rw [List.length_take]; omega,
            sz_lt := lt_of_le_of_lt hw hs }
  readIdx := rfl
  writeIdx := rfl
  bytes := by
    rw [bufBytes, bufBytes, cutBlock, slice, slice, List.drop_take, List.take_take, Nat.min_self]

/-- A load from it reads no byte behind the readable ones. -/
theorem cutBlock_load {b : Buffer} {len : Nat} {d : List UInt8} (h : BufShape b)
    (hok : memLoad (cutBlock b).buf (cutBlock b).readIdx len = .ok d) :
    len ≤ bufReadable b ∧ d = (bufBytes b).take len := by
  have hsame := cutBlock_same h
  have hread := h.readable_eq
  have hr := h.read_le_write
  obtain ⟨hle, -⟩ := memLoad_inv hok
  have hlen : (cutBlock b).buf.length = b.writeIdx := hsame.shape.length_buf
  have hidx : (cutBlock b).readIdx = b.readIdx := rfl
  have hfit : len ≤ bufReadable b := by omega
  have hcut : len ≤ bufReadable (cutBlock b) := by
    rw [← hsame.shape.length_bufBytes, hsame.bytes, h.length_bufBytes]
    exact hfit
  refine ⟨hfit, ?_⟩
  rw [hsame.shape.load_front hcut, hsame.bytes] at hok
  exact (Except.ok.inj hok).symm

/-! ### What the functions should do -/

/-- `buf_dupCStr` returns the string and its terminator, takes them, and reads no other byte. -/
def DupsCStr (b : Buffer) : Prop :=
  ∀ b', SameReadable b b' →
    Returns (bufDupCStr b') fun r =>
      r.1 = cStr (bufBytes b) ++ [0] ∧ Consumed (cStrTaken (bufBytes b)) b' r.2

/-- `buf_readCStr` with room for `sz` bytes: `NULL` and nothing changed when the string and its
terminator do not fit, else it fills `str` with bytes for which `stored` holds, takes the string,
and reads no byte that is not readable. -/
def ReadsCStr (b : Buffer) (sz : Int) (stored : List UInt8 → Prop) : Prop :=
  ∀ b', SameReadable b b' →
    Returns (bufReadCStr b' sz) fun r =>
      if sz < (cStr (bufBytes b)).length + 1 then r = (none, b')
      else (∃ d, r.1 = some d ∧ stored d) ∧ Consumed (cStrTaken (bufBytes b)) b' r.2

/-- **When `buf_dupCStr` works**: a NUL is among the readable bytes, and the size survives. -/
theorem BufShape.dupsCStr_iff {b : Buffer} (h : BufShape b) :
    DupsCStr b ↔ 0 ∈ bufBytes b ∧ IntSized (cStr (bufBytes b)).length := by
  constructor
  · intro hdup
    have hsame := cutBlock_same h
    obtain ⟨r, hok, hstr, -⟩ := hdup _ hsame
    rw [hsame.shape.dupCStr_eq, hsame.bytes] at hok
    obtain ⟨d, hload, hrest⟩ := exec_bind_eq_ok.mp hok
    obtain ⟨b₁, -, heq⟩ := exec_bind_eq_ok.mp hrest
    cases heq
    obtain ⟨hle, hd⟩ := cutBlock_load h hload
    -- the copy is as long as the string and its terminator, and all of it is readable
    have hlen := h.length_bufBytes
    have hcopy := congrArg List.length (hd.symm.trans hstr)
    rw [List.length_take, List.length_append, List.length_singleton] at hcopy
    have hint : IntSized (cStr (bufBytes b)).length := by
      unfold IntSized
      omega
    exact ⟨(nul_mem_iff _).mpr (by omega), hint⟩
  · rintro ⟨hnul, hint⟩ b' hsame
    have hlen := hsame.shape.length_bufBytes
    rw [← hsame.bytes] at hnul hint ⊢
    have hlt := (nul_mem_iff _).mp hnul
    rw [hsame.shape.dupCStr_eq, hint, hsame.shape.load_front (by omega), exec_ok_bind]
    refine (hsame.shape.retrieveCStr_spec hnul hint).bind fun b₁ hb₁ => returns_ok ⟨?_, hb₁⟩
    exact take_cStr hnul

/-- A `buf_readCStr` that works gives up, or copies readable bytes that hold what they should: on
the block that ends with the readable bytes it can copy no others. -/
theorem ReadsCStr.needs {b : Buffer} {sz : Int} {stored : List UInt8 → Prop}
    (hread : ReadsCStr b sz stored) (h : BufShape b) (hsz : FitsInt 4 sz) :
    sz < toSigned 32 ((cStr (bufBytes b)).length + 1)
      ∨ ((cStr (bufBytes b)).length + 1 ≤ sz ∧ sz ≤ bufReadable b
          ∧ stored ((bufBytes b).take sz.toNat)) := by
  obtain ⟨hlo, hhi⟩ := hsz
  have hsame := cutBlock_same h
  obtain ⟨r, hok, hr⟩ := hread _ hsame
  rw [hsame.shape.readCStr_eq, hsame.bytes] at hok
  by_cases hsmall : sz < toSigned 32 ((cStr (bufBytes b)).length + 1)
  · exact Or.inl hsmall
  · -- the copy is made, so that the string has to fit
    rw [if_neg hsmall] at hok
    obtain ⟨d, hload, hrest⟩ := exec_bind_eq_ok.mp hok
    obtain ⟨b₁, -, heq⟩ := exec_bind_eq_ok.mp hrest
    cases heq
    by_cases hshort : sz < (cStr (bufBytes b)).length + 1
    · rw [if_pos hshort] at hr
      cases (Prod.mk.inj hr).1
    · rw [if_neg hshort] at hr
      obtain ⟨⟨d', hd', hstored⟩, -⟩ := hr
      obtain rfl := Option.some.inj hd'
      obtain ⟨hfit, hd⟩ := cutBlock_load h hload
      have hnat : toUnsigned 64 sz = sz.toNat := by
        unfold toUnsigned
        omega
      rw [hnat] at hfit hd
      rw [hd] at hstored
      exact Or.inr ⟨by omega, by omega, hstored⟩

/-- With a `str` that is too small `buf_readCStr` gives up. -/
theorem readsCStr_of_small {b : Buffer} {sz : Int} {stored : List UInt8 → Prop}
    (hsmall : sz < toSigned 32 ((cStr (bufBytes b)).length + 1)) : ReadsCStr b sz stored := by
  intro b' hsame
  have hle := toSigned_le ((cStr (bufBytes b)).length + 1)
  rw [hsame.shape.readCStr_eq, hsame.bytes, if_pos hsmall]
  refine returns_ok ?_
  rw [if_pos (by omega)]

/-- With `sz` readable bytes that hold what they should, the string and its NUL among them,
`buf_readCStr` copies them. -/
theorem readsCStr_of_readable {b : Buffer} {sz : Int} {stored : List UInt8 → Prop}
    (h : BufShape b) (hsz : FitsInt 4 sz) (hneed : (cStr (bufBytes b)).length + 1 ≤ sz)
    (hfit : sz ≤ bufReadable b) (hstored : stored ((bufBytes b).take sz.toNat)) :
    ReadsCStr b sz stored := by
  obtain ⟨hlo, hhi⟩ := hsz
  intro b' hsame
  have hint : toSigned 32 ((cStr (bufBytes b)).length + 1) = (cStr (bufBytes b)).length + 1 :=
    toSigned_of_lt (by omega)
  have hnat : toUnsigned 64 sz = sz.toNat := by
    unfold toUnsigned
    omega
  have hlength := h.length_bufBytes
  have hnul : 0 ∈ bufBytes b := (nul_mem_iff _).mpr (by omega)
  have hsized : IntSized (cStr (bufBytes b)).length := by
    rw [IntSized, hint]
    exact_mod_cast toUnsigned_natCast (w := 64) (n := (cStr (bufBytes b)).length + 1) (by omega)
  have hlen := hsame.shape.length_bufBytes
  have hretr := hsame.shape.retrieveCStr_spec
  rw [hsame.bytes] at hlen hretr
  rw [hsame.shape.readCStr_eq, hsame.bytes, if_neg (by omega), hnat,
    hsame.shape.load_front (by omega), exec_ok_bind, hsame.bytes]
  refine (hretr hnul hsized).bind fun b₁ hb₁ => returns_ok ?_
  rw [if_neg (by omega)]
  exact ⟨⟨_, rfl, hstored⟩, hb₁⟩

/-- **When `buf_readCStr` works**: the size it computes is above `sz`, or `sz` bytes are readable
and hold what they should. -/
theorem BufShape.readsCStr_iff {b : Buffer} {sz : Int} {stored : List UInt8 → Prop} (h : BufShape b)
    (hsz : FitsInt 4 sz) :
    ReadsCStr b sz stored ↔
      sz < toSigned 32 ((cStr (bufBytes b)).length + 1)
        ∨ ((cStr (bufBytes b)).length + 1 ≤ sz ∧ sz ≤ bufReadable b
            ∧ stored ((bufBytes b).take sz.toNat)) := by
  constructor
  · intro hread
    exact hread.needs h hsz
  · rintro (hsmall | ⟨hneed, hfit, hstored⟩)
    · exact readsCStr_of_small hsmall
    · exact readsCStr_of_readable h hsz hneed hfit hstored

/-- **C-string extraction.** `buf_dupCStr` works exactly when a NUL is readable and the size
survives. `buf_readCStr` works exactly when the string does not fit the `str` of the caller, or fits
it to the byte and has a NUL. Asked only for the string at the front of `str`, `buf_readCStr` works
exactly when it does not fit or all of `str` can be filled from the readable bytes. -/
theorem cstr_extraction_iff {b : Buffer} {sz : Int} (h : BufShape b) (hsz : FitsInt 4 sz) :
    (DupsCStr b ↔ 0 ∈ bufBytes b ∧ IntSized (cStr (bufBytes b)).length)
      ∧ (ReadsCStr b sz (fun d => d = cStr (bufBytes b) ++ [0]) ↔
          sz < toSigned 32 ((cStr (bufBytes b)).length + 1)
            ∨ (sz = (cStr (bufBytes b)).length + 1 ∧ 0 ∈ bufBytes b))
      ∧ (ReadsCStr b sz (fun d => cStr (bufBytes b) ++ [0] <+: d) ↔
          sz < toSigned 32 ((cStr (bufBytes b)).length + 1)
            ∨ ((cStr (bufBytes b)).length + 1 ≤ sz ∧ sz ≤ bufReadable b)) := by
  have hlen := h.length_bufBytes
  refine ⟨h.dupsCStr_iff, ?_, ?_⟩
  · rw [h.readsCStr_iff hsz]
    refine or_congr_right ⟨?_, ?_⟩
    · rintro ⟨hneed, hfit, hstored⟩
      have hcopy := congrArg List.length hstored
      rw [List.length_take, List.length_append, List.length_singleton] at hcopy
      exact ⟨by omega, (nul_mem_iff _).mpr (by omega)⟩
    · rintro ⟨rfl, hnul⟩
      have hlt := (nul_mem_iff _).mp hnul
      refine ⟨le_refl _, by omega, ?_⟩
      exact take_cStr hnul
  · rw [h.readsCStr_iff hsz]
    refine or_congr_right ⟨fun hcond => ⟨hcond.1, hcond.2.1⟩, ?_⟩
    rintro ⟨hneed, hfit⟩
    refine ⟨hneed, hfit, ?_⟩
    rw [← take_cStr ((nul_mem_iff _).mpr (by omega))]
    exact List.take_prefix_take_left (by omega)

/-- A string with its NUL and one more byte. -/
theorem cstr_extraction_iff_hi :
    (DupsCStr (exactBuf [72, 0, 73]) ↔ 0 ∈ bufBytes (exactBuf [72, 0, 73])
        ∧ IntSized (cStr (bufBytes (exactBuf [72, 0, 73]))).length)
      ∧ (ReadsCStr (exactBuf [72, 0, 73]) 2
          (fun d => d = cStr (bufBytes (exactBuf [72, 0, 73])) ++ [0]) ↔
          2 < toSigned 32 ((cStr (bufBytes (exactBuf [72, 0, 73]))).length + 1)
            ∨ (2 = ((cStr (bufBytes (exactBuf [72, 0, 73]))).length : Int) + 1
              ∧ 0 ∈ bufBytes (exactBuf [72, 0, 73])))
      ∧ (ReadsCStr (exactBuf [72, 0, 73]) 2
          (fun d => cStr (bufBytes (exactBuf [72, 0, 73])) ++ [0] <+: d) ↔
          2 < toSigned 32 ((cStr (bufBytes (exactBuf [72, 0, 73]))).length + 1)
            ∨ (((cStr (bufBytes (exactBuf [72, 0, 73]))).length : Int) + 1 ≤ 2
              ∧ 2 ≤ (bufReadable (exactBuf [72, 0, 73]) : Int))) :=
  cstr_extraction_iff (exactBuf_shape (by decide)) ⟨by decide, by decide⟩

/-- **A stale byte in the string**: without a NUL among the readable bytes, the byte that ends the
copy is left from an earlier use of the block. -/
theorem cstr_extraction_fails :
    ∃ b₀ rs b, bufCreateEx 4 1 = .ok b₀
      ∧ Admissible bufStep BufPre b₀ [.append [65, 65, 65, 65], .retrieveAll, .append [72, 73]]
      ∧ runOps bufStep b₀ [.append [65, 65, 65, 65], .retrieveAll, .append [72, 73]] = .ok (rs, b)
      ∧ bufBytes b = [72, 73]
      ∧ (Returns (bufDupCStr b) fun r => r.1 = [72, 73, 65])
      ∧ (Returns (bufReadCStr b 3) fun r => r.1 = some [72, 73, 65])
      ∧ ¬ DupsCStr b ∧ ¬ ReadsCStr b 3 (fun d => d = cStr (bufBytes b) ++ [0]) := by
  refine ⟨_, _, _, rfl, by decide, rfl, rfl, by decide, by decide, ?_, ?_⟩
  · intro hdup
    obtain ⟨r, hok, hstr, -⟩ := hdup _
      ⟨⟨by decide, by decide, by decide, rfl, by decide⟩, rfl, rfl, rfl⟩
    obtain rfl := Except.ok.inj hok
    revert hstr
    decide
  · intro hread
    obtain ⟨r, hok, hr⟩ := hread _
      ⟨⟨by decide, by decide, by decide, rfl, by decide⟩, rfl, rfl, rfl⟩
    obtain rfl := Except.ok.inj hok
    rw [if_neg (by decide)] at hr
    obtain ⟨⟨d, hd, hstored⟩, -⟩ := hr
    obtain rfl := Option.some.inj hd
    revert hstored
    decide

end Wee
