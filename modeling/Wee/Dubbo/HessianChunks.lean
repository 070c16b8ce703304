import Wee.Dubbo.HessianString
import Wee.Base.BufferQueue

/-! # Non-final chunks and the bounds of the string decoder

The case of a non-final chunk copies the chunk and then calls `internal_decode_string` on the same
pointer until it meets a final chunk, which it never does: every level copies the first chunk once
more behind the bytes copied so far. So a string with a non-final chunk is never decoded, and when
the chunk has a character the copies leave `out_str`.

A single chunk stays inside the buffers exactly when its characters, sized by their lead bytes, end
inside the buffer or an invalid lead byte comes first. -/

namespace Wee

variable {buf : Nat → UInt8} {b : List UInt8} {off n : Nat}

/-! ### The loop behind a non-final chunk -/

/-- A copy does not change `*is_last_chunk`. -/
theorem copyChunk_isLastChunk (bufLength : Nat) (st : DecodeState) :
    (copyChunk buf bufLength off n st).2.isLastChunk = st.isLastChunk := by
  simp only [copyChunk]
  split
  · rfl
  · split <;> rfl

/-- Behind the copy of a non-final chunk, the loop body is the same call one level deeper. -/
theorem internalDecodeString_nonFinal (hbuf : Holds buf 0 b)
    (hhead : chunkHead b = some ⟨false, off, n⟩) {fuel : Nat} {st st' : DecodeState}
    (hcopy : copyChunk buf b.length off n (st.enter ⟨false, off, n⟩) = (true, st'))
    (hnone : (internalDecodeString buf b.length fuel st').1 = none) :
    internalDecodeString buf b.length (fuel + 2) st
      = internalDecodeString buf b.length fuel st' := by
  have hlast : st'.isLastChunk = false := by
    have hst' : st' = (copyChunk buf b.length off n (st.enter ⟨false, off, n⟩)).2 := by
      rw [hcopy]
    rw [hst', copyChunk_isLastChunk]
    rfl
  rw [internalDecodeString_head hbuf hhead]
  simp only [decodeChunk, hcopy, if_true, Bool.false_eq_true, if_false]
  rw [chunkLoop, hlast]
  rcases hres : internalDecodeString buf b.length fuel st' with ⟨ret, st''⟩
  rw [hres] at hnone
  obtain rfl : ret = none := hnone
  rfl

/-- **A non-final chunk that is copied is copied again and again**: the nested calls never return,
and whatever one copy preserves holds at every depth. -/
theorem nonFinal_invariant {P : DecodeState → Prop} (hbuf : Holds buf 0 b)
    (hhead : chunkHead b = some ⟨false, off, n⟩)
    (hcopy : ∀ st, (copyChunk buf b.length off n st).1 = true)
    (hstep : ∀ st, P st → P (copyChunk buf b.length off n (st.enter ⟨false, off, n⟩)).2)
    (fuel : Nat) {st : DecodeState} (hst : P st) :
    (internalDecodeString buf b.length fuel st).1 = none
      ∧ P (internalDecodeString buf b.length fuel st).2 := by
  -- one level takes two units of fuel: the call and the loop behind the copy
  induction fuel using Nat.strongRecOn generalizing st with
  | ind fuel ih =>
    match fuel with
    | 0 => exact ⟨by rw [internalDecodeString], by rwa [internalDecodeString]⟩
    | 1 =>
      rw [internalDecodeString_head hbuf hhead]
      simp only [decodeChunk, hcopy, if_true, Bool.false_eq_true, if_false, chunkLoop]
      exact ⟨trivial, hstep st hst⟩
    | fuel + 2 =>
      obtain ⟨hnone, hP⟩ := ih fuel (by omega) (hstep st hst)
      rw [internalDecodeString_nonFinal hbuf hhead (Prod.ext (hcopy _) rfl) hnone]
      exact ⟨hnone, hP⟩

/-- A copy succeeds exactly when the loop of `utf8cpy` does. -/
theorem copyChunk_fst {bufLength : Nat} (hlen : off + n ≤ bufLength) (st : DecodeState) :
    (copyChunk buf bufLength off n st).1
      = (utf8cpyLoop (fun i => buf (off + i)) n 0).1.isSome := by
  simp only [copyChunk, if_neg (show ¬ bufLength < off + n by omega), utf8cpy]
  split
  · next h => split at h <;> simp_all
  · next h => split at h <;> simp_all

/-! ### Termination -/

/-- The buffer begins with a non-final chunk that passes the length check and in which no invalid
lead byte is met. -/
def LoopsOnChunk (b : List UInt8) : Prop :=
  ∃ hd, chunkHead b = some hd ∧ hd.final = false ∧ hd.off + hd.count ≤ b.length
    ∧ scanChars hd.count (b.drop hd.off) ≠ .invalid

/-- The decoder returns, whatever stands behind the buffer. -/
def Terminates (b : List UInt8) : Prop :=
  ∀ mem, Holds mem 0 b →
    ∃ N, ∀ fuel, N ≤ fuel → (hsDecodeString true mem b.length fuel).ret ≠ .running

/-- The decoder runs on exactly while the nested calls do. -/
theorem hsDecodeString_running_iff (mem : Nat → UInt8) (sz fuel : Nat) :
    (hsDecodeString true mem sz fuel).ret = .running
      ↔ (internalDecodeString mem sz fuel decodeStart).1 = none := by
  simp only [hsDecodeString, if_true]
  split <;> simp_all

/-- A non-final chunk whose characters are all accepted is never left. -/
theorem running_of_loop (hbuf : Holds buf 0 b) (hhead : chunkHead b = some ⟨false, off, n⟩)
    (hlen : off + n ≤ b.length) {j : Nat}
    (hloop : (utf8cpyLoop (fun i => buf (off + i)) n 0).1 = some j) (fuel : Nat) :
    (hsDecodeString true buf b.length fuel).ret = .running := by
  rw [hsDecodeString_running_iff]
  have hcopy : ∀ st, (copyChunk buf b.length off n st).1 = true := fun st => by
    rw [copyChunk_fst hlen, hloop, Option.isSome_some]
  exact (nonFinal_invariant (P := fun _ => True) hbuf hhead hcopy (fun _ _ => trivial) fuel
    trivial).1

/-- The decoder returns unless the buffer begins with such a chunk. -/
theorem terminates_of_not_loops (h : ¬ LoopsOnChunk b) : Terminates b := by
  intro mem hmem
  refine ⟨1, fun fuel hfuel => ?_⟩
  obtain ⟨fuel, rfl⟩ := Nat.exists_eq_add_of_le' hfuel
  rw [Ne, hsDecodeString_running_iff]
  cases hhead : chunkHead b with
  | none =>
    obtain ⟨st', hret, -⟩ := internalDecodeString_no_head hmem hhead fuel decodeStart
    rw [hret]
    exact Option.some_ne_none false
  | some hd =>
    obtain ⟨final, off, n⟩ := hd
    rw [internalDecodeString_head hmem hhead]
    cases final with
    | true => exact Option.some_ne_none _
    | false =>
      -- the copy fails, by the length check or by an invalid lead byte
      have hfail : (copyChunk mem b.length off n (decodeStart.enter ⟨false, off, n⟩)).1
          = false := by
        by_cases hlen : off + n ≤ b.length
        · have hinv : scanChars n (b.drop off) = .invalid := by
            by_contra hvalid
            exact h ⟨_, hhead, rfl, hlen, hvalid⟩
          obtain ⟨rs, hcopy, -⟩ := copyChunk_invalid hlen (holds_behind_head hmem hhead).1 hinv
            (decodeStart.enter ⟨false, off, n⟩)
          rw [hcopy]
        · rw [copyChunk_short (by omega)]
      simp only [decodeChunk, hfail, Bool.false_eq_true, if_false]
      exact Option.some_ne_none false

/-- Zeros behind the buffer keep the decoder running on such a chunk. -/
theorem not_terminates_of_loops (h : LoopsOnChunk b) : ¬ Terminates b := by
  obtain ⟨⟨final, off, n⟩, hhead, hfinal, hlen, hvalid⟩ := h
  obtain rfl : final = false := hfinal
  intro hterm
  -- a zero is a lead byte of one character, so nothing behind the buffer stops the copy
  obtain ⟨N, hN⟩ := hterm (zeroExt b) (holds_zeroExt b)
  have hoff := chunkHead_off_le hhead
  have hdrop : Holds (fun i => zeroExt b (off + i)) 0 (b.drop off) := by
    rw [holds_shift]
    have := (holds_zeroExt b).drop hoff
    rwa [Nat.zero_add] at this
  obtain ⟨j, hloop⟩ := utf8cpyLoop_zeros n (b.drop off) hdrop
    (fun j hj => by
      rw [List.length_drop] at hj
      exact List.getD_eq_default _ _ (by omega)) hvalid
  exact hN N (Nat.le_refl N) (running_of_loop (holds_zeroExt b) hhead hlen hloop N)

/-! ### Chunked strings -/

/-- A string of the grammar is decoded to its text, whatever follows it. -/
def DecodesTo (s : HsString) (t : List UInt8) : Prop :=
  ∀ mem, Holds mem 0 (s.bytes ++ t) →
    HsReturns mem (s.bytes ++ t).length (.retTrue s.text s.text.length)

/-- The header of a non-final chunk is read as what it announces. -/
theorem chunkHead_nonFinal (c : Chunk) (rest : List UInt8) :
    chunkHead (c.bytes ++ rest) = some ⟨false, 3, c.chars.length⟩ := by
  have hn := beNat_beBytes 2 c.chars.length
  have hfits := c.fits
  rw [Nat.mod_eq_of_lt (by omega)] at hn
  rw [chunkHead.eq_def]
  simp only [Chunk.bytes, beBytes, List.cons_append]
  rw [if_neg (by decide), if_neg (by decide), if_neg (by decide), if_pos (by decide),
    Option.some.injEq, ChunkHead.mk.injEq]
  exact ⟨rfl, rfl, hn⟩

/-- The decoder runs on forever on a string with a non-final chunk. -/
theorem running_of_nonFinal (c : Chunk) (rest : List UInt8) {mem : Nat → UInt8}
    (h : Holds mem 0 (c.bytes ++ rest)) (fuel : Nat) :
    (hsDecodeString true mem (c.bytes ++ rest).length fuel).ret = .running := by
  have hchars : c.chars.length ≤ c.text.length := length_le_utf8Bytes c.chars
  have htext : Holds mem 3 c.text := by
    rw [Chunk.bytes, List.append_assoc, holds_append, holds_append] at h
    exact h.2.1
  have hscan : scanChars c.chars.length c.text = .done c.text.length := scanChars_text c.chars
  have hmeets := utf8cpyLoop_meets_at c.chars.length htext
  rw [hscan] at hmeets
  refine running_of_loop h (chunkHead_nonFinal c rest) ?_ hmeets.1 fuel
  rw [Chunk.bytes, List.length_append, List.length_append, List.length_cons, length_beBytes]
  omega

/-- **Chunked strings**: the decoder returns on a buffer unless this begins with a non-final chunk
in which no invalid lead byte is met, and it decodes a string of the grammar exactly when that has
no non-final chunk. -/
theorem hs_chunked_string_iff (b : List UInt8) (s : HsString) (t : List UInt8) :
    (Terminates b ↔ ¬ LoopsOnChunk b) ∧ (DecodesTo s t ↔ s.chunks = []) := by
  refine ⟨⟨fun hterm hloops => not_terminates_of_loops hloops hterm,
    terminates_of_not_loops⟩, fun hdec => ?_, fun hnil => ?_⟩
  · by_contra hne
    obtain ⟨c, cs, hcs⟩ := List.exists_cons_of_ne_nil hne
    have hbytes : s.bytes ++ t
        = c.bytes ++ (cs.flatMap Chunk.bytes ++ s.final.bytes ++ t) := by
      rw [HsString.bytes, hcs, List.flatMap_cons, List.append_assoc, List.append_assoc,
        List.append_assoc]
    obtain ⟨N, hN⟩ := hdec (zeroExt (s.bytes ++ t)) (holds_zeroExt _)
    have hrun := hN N (Nat.le_refl N)
    rw [hbytes, running_of_nonFinal c _ (holds_zeroExt _)] at hrun
    cases hrun
  · have hbytes : s.bytes = s.final.bytes := by rw [HsString.bytes, hnil]; rfl
    have htext : s.text = s.final.text := by rw [HsString.text, hnil]; rfl
    intro mem hmem
    rw [hbytes] at hmem ⊢
    rw [htext]
    exact hsReturns_finalChunk s.final t hmem

/-- The string `ab` in two chunks of one character is never decoded. -/
theorem hs_chunked_string_runs_on :
    ∃ s : HsString, s.bytes = [0x52, 0x00, 0x01, 0x61, 0x01, 0x62] ∧ s.text = [0x61, 0x62]
      ∧ ∀ fuel, (hsDecodeString true (zeroExt [0x52, 0x00, 0x01, 0x61, 0x01, 0x62]) 6 fuel).ret
        = .running :=
  ⟨⟨[⟨[⟨[0x61], rfl⟩], by decide⟩], ⟨.short, [⟨[0x62], rfl⟩], by decide⟩⟩, rfl, rfl,
    running_of_nonFinal ⟨[⟨[0x61], rfl⟩], by decide⟩ [0x01, 0x62] (holds_zeroExt _)⟩

/-! ### Bounds -/

/-- **The decoder stays in bounds** on the buffer `b`: every load lies in `buf`, every store in
`out_str`, and the length returned can be retrieved from any buffer with these readable bytes, as
`read_hs_str` does. -/
def DecodesInBounds (b : List UInt8) : Prop :=
  ∀ malloc mem fuel, Holds mem 0 b →
    (∀ r ∈ (hsDecodeString malloc mem b.length fuel).reads, r < b.length)
      ∧ (∀ w ∈ (hsDecodeString malloc mem b.length fuel).writes, w < b.length)
      ∧ ∀ out sz, (hsDecodeString malloc mem b.length fuel).ret = .retTrue out sz →
        sz ≤ b.length ∧ ∀ buf, BufInv buf → bufBytes buf = b → ∃ buf', bufRetrieve buf sz = .ok buf'

/-- The buffer is not empty, and when its header passes the length check, the characters announced
end inside the buffer, unless an invalid lead byte comes first; a non-final chunk announces none or
has an invalid lead byte. -/
def StringInBounds (b : List UInt8) : Prop :=
  b ≠ [] ∧ ∀ hd, chunkHead b = some hd → hd.off + hd.count ≤ b.length →
    scanChars hd.count (b.drop hd.off) ≠ .outside
      ∧ (hd.final = false → hd.count = 0 ∨ scanChars hd.count (b.drop hd.off) = .invalid)

/-- The loads and stores of a decoder state are in bounds. -/
def DecodeState.InBounds (st : DecodeState) (sz : Nat) : Prop :=
  (∀ r ∈ st.reads, r < sz) ∧ ∀ w ∈ st.writes, w < sz

/-- The start is in bounds. -/
theorem inBounds_decodeStart (sz : Nat) : decodeStart.InBounds sz :=
  ⟨fun _ hr => absurd hr List.not_mem_nil, fun _ hw => absurd hw List.not_mem_nil⟩

/-- Reading a header that lies inside the buffer. -/
theorem DecodeState.InBounds.enter {st : DecodeState} {sz : Nat} (h : st.InBounds sz)
    {hd : ChunkHead} (hoff : hd.off ≤ sz) : (st.enter hd).InBounds sz := by
  refine ⟨fun r hr => ?_, h.2⟩
  rcases List.mem_append.mp hr with hr | hr
  · exact h.1 r hr
  · have := List.mem_range.mp hr
    omega

/-- Copying with loads in bounds and room for the bytes copied. -/
theorem DecodeState.InBounds.copy {st : DecodeState} {sz : Nat} (h : st.InBounds sz)
    {cs : List UInt8} {rs : List Nat} (hcs : st.outLength + cs.length ≤ sz)
    (hrs : ∀ r ∈ rs, r < sz) : (st.copy cs rs).InBounds sz := by
  constructor
  · intro r hr
    rcases List.mem_append.mp hr with hr | hr
    · exact h.1 r hr
    · exact hrs r hr
  · intro w hw
    rcases List.mem_append.mp hw with hw | hw
    · exact h.2 w hw
    · obtain ⟨x, hx, rfl⟩ := List.mem_map.mp hw
      have := List.mem_range.mp hx
      omega

/-- **One copy stays in bounds** when the scan does not leave the buffer. -/
theorem copyChunk_inBounds {st : DecodeState} {hd : ChunkHead} (hbuf : Holds buf 0 b)
    (hhead : chunkHead b = some hd)
    (hscan : hd.off + hd.count ≤ b.length → scanChars hd.count (b.drop hd.off) ≠ .outside)
    (hst : st.InBounds b.length) (hzero : st.outLength = 0) :
    (copyChunk buf b.length hd.off hd.count (st.enter hd)).2.InBounds b.length
      ∧ (copyChunk buf b.length hd.off hd.count (st.enter hd)).2.outLength ≤ b.length
      ∧ (hd.count = 0 →
        (copyChunk buf b.length hd.off hd.count (st.enter hd)).2.outLength = 0) := by
  obtain ⟨hbehind, hend⟩ := holds_behind_head hbuf hhead
  have henter := hst.enter (chunkHead_off_le hhead)
  have hlength : (st.enter hd).outLength = 0 := hzero
  by_cases hlen : hd.off + hd.count ≤ b.length
  · cases hres : scanChars hd.count (b.drop hd.off) with
    | done k =>
      obtain ⟨rs, hcopy, hrs⟩ := copyChunk_done hlen hbehind hres (st.enter hd)
      have hk := (le_of_scanChars_done hres).2
      have htake : ((b.drop hd.off).take k).length = k := by
        rw [List.length_take, Nat.min_eq_left hk]
      rw [hend] at hrs
      rw [hcopy]
      refine ⟨henter.copy (by omega) hrs, ?_, fun hcount => ?_⟩
      · rw [DecodeState.copy]
        dsimp only
        omega
      · rw [hcount, scanChars, Scan.done.injEq] at hres
        rw [DecodeState.copy]
        dsimp only
        omega
    | invalid =>
      obtain ⟨rs, hcopy, hrs⟩ := copyChunk_invalid hlen hbehind hres (st.enter hd)
      rw [hend] at hrs
      have hnil : (st.enter hd).outLength + ([] : List UInt8).length = 0 := hlength
      rw [hcopy]
      exact ⟨henter.copy (by omega) hrs, Nat.le_trans (Nat.le_of_eq hnil) (Nat.zero_le _),
        fun _ => hnil⟩
    | outside => exact absurd hres (hscan hlen)
  · rw [copyChunk_short (by omega)]
    exact ⟨henter, Nat.le_trans (Nat.le_of_eq hlength) (Nat.zero_le _), fun _ => hlength⟩

/-- The nested calls stay in bounds, and what is returned fits `out_str`. -/
theorem internalDecodeString_inBounds (h : StringInBounds b) (hbuf : Holds buf 0 b) (fuel : Nat) :
    (internalDecodeString buf b.length fuel decodeStart).2.InBounds b.length
      ∧ ((internalDecodeString buf b.length fuel decodeStart).1 = some true →
        (internalDecodeString buf b.length fuel decodeStart).2.outLength ≤ b.length) := by
  have hstart := inBounds_decodeStart b.length
  cases fuel with
  | zero => exact ⟨by rwa [internalDecodeString], fun _ => by
      rw [internalDecodeString]; exact Nat.zero_le _⟩
  | succ fuel =>
    cases hhead : chunkHead b with
    | none =>
      obtain ⟨st', hret, hreads, hwrites⟩ :=
        internalDecodeString_no_head hbuf hhead fuel decodeStart
      rw [hret]
      have hpos : 0 < b.length := List.length_pos_iff.mpr h.1
      refine ⟨⟨?_, ?_⟩, fun hok => by cases hok⟩
      · rw [hreads]
        intro r hr
        rw [decodeStart, List.nil_append, List.mem_singleton] at hr
        omega
      · rw [hwrites]
        exact hstart.2
    | some hd =>
      have hcopy := copyChunk_inBounds hbuf hhead (fun hlen => (h.2 hd hhead hlen).1) hstart rfl
      obtain ⟨final, off, n⟩ := hd
      cases final with
      | true =>
        rw [internalDecodeString_head hbuf hhead]
        simp only [decodeChunk, if_true]
        exact ⟨hcopy.1, fun _ => hcopy.2.1⟩
      | false =>
        by_cases hok : (copyChunk buf b.length off n (decodeStart.enter ⟨false, off, n⟩)).1 = true
        · -- a non-final chunk without a character: every level copies nothing
          have hlen : off + n ≤ b.length := by
            by_contra hgt
            rw [copyChunk_short (by omega)] at hok
            cases hok
          obtain rfl : n = 0 := by
            refine ((h.2 _ hhead hlen).2 rfl).resolve_right fun hinv => ?_
            obtain ⟨rs, hfail, -⟩ := copyChunk_invalid hlen (holds_behind_head hbuf hhead).1 hinv
              (decodeStart.enter ⟨false, off, n⟩)
            rw [hfail] at hok
            cases hok
          obtain ⟨hnone, hinv, -⟩ := nonFinal_invariant
            (P := fun st => st.InBounds b.length ∧ st.outLength = 0) hbuf hhead
            (fun st => by rw [copyChunk_fst hlen]; rfl)
            (fun st hst => by
              have hnext := copyChunk_inBounds hbuf hhead (fun _ => by simp [scanChars]) hst.1 hst.2
              exact ⟨hnext.1, hnext.2.2 rfl⟩)
            (fuel + 1) ⟨hstart, rfl⟩
          exact ⟨hinv, fun hret => by rw [hnone] at hret; cases hret⟩
        · rw [internalDecodeString_head hbuf hhead]
          simp only [decodeChunk, Bool.false_eq_true, if_false, hok]
          exact ⟨hcopy.1, fun _ => hcopy.2.1⟩

/-- **Enough for bounds**. -/
theorem decodesInBounds_of_string (h : StringInBounds b) : DecodesInBounds b := by
  intro malloc mem fuel hmem
  cases malloc with
  | false =>
    exact ⟨fun _ hr => absurd hr List.not_mem_nil, fun _ hw => absurd hw List.not_mem_nil,
      fun _ _ hret => by cases hret⟩
  | true =>
    obtain ⟨hinv, hlen⟩ := internalDecodeString_inBounds h hmem fuel
    refine ⟨hinv.1, hinv.2, fun out sz hret => ?_⟩
    have hsz : sz ≤ b.length := by
      simp only [hsDecodeString, if_true] at hret
      split at hret
      · cases hret
      · cases hret
      next hok =>
        rw [HsRet.retTrue.injEq] at hret
        rw [← hret.2]
        exact hlen hok
    refine ⟨hsz, fun buf hbuf hbytes => ?_⟩
    have hreadable : sz ≤ bufReadable buf := by
      rwa [← hbuf.toBufWf.length_bufBytes, hbytes]
    obtain ⟨buf', hok, -⟩ := hbuf.retrieve_spec hreadable
    exact ⟨buf', hok⟩

/-- **A non-final chunk with a character leaves `out_str`**: after `m` levels the copies begin `m`
chunks behind the start. -/
theorem nonFinal_writes {k : Nat} (hbuf : Holds buf 0 b)
    (hhead : chunkHead b = some ⟨false, off, n⟩) (hlen : off + n ≤ b.length)
    (hscan : scanChars n (b.drop off) = .done k) (hk : 0 < k) (m : Nat) (st : DecodeState) :
    st.outLength + m * k ∈ (internalDecodeString buf b.length (2 * m + 1) st).2.writes := by
  have hbehind := (holds_behind_head hbuf hhead).1
  have htake : ((b.drop off).take k).length = k := by
    rw [List.length_take, Nat.min_eq_left (le_of_scanChars_done hscan).2]
  have hok (st : DecodeState) : (copyChunk buf b.length off n st).1 = true := by
    obtain ⟨rs, hcopy, -⟩ := copyChunk_done hlen hbehind hscan st
    rw [hcopy]
  have hnone (fuel : Nat) (st : DecodeState) :
      (internalDecodeString buf b.length fuel st).1 = none :=
    (nonFinal_invariant (P := fun _ => True) hbuf hhead hok (fun _ _ => trivial) fuel trivial).1
  induction m generalizing st with
  | zero =>
    obtain ⟨rs, hcopy, -⟩ := copyChunk_done hlen hbehind hscan (st.enter ⟨false, off, n⟩)
    rw [internalDecodeString_head hbuf hhead]
    simp only [decodeChunk, hcopy, if_true, Bool.false_eq_true, if_false, chunkLoop]
    refine List.mem_append_right _ (List.mem_map.mpr ⟨0, ?_, ?_⟩)
    · rw [htake]
      exact List.mem_range.mpr hk
    · rw [Nat.zero_mul]
      rfl
  | succ m ih =>
    obtain ⟨rs, hcopy, -⟩ := copyChunk_done hlen hbehind hscan (st.enter ⟨false, off, n⟩)
    have hnext := ih ((st.enter ⟨false, off, n⟩).copy ((b.drop off).take k) rs)
    have hlength : ((st.enter ⟨false, off, n⟩).copy ((b.drop off).take k) rs).outLength
        = st.outLength + k := by
      rw [DecodeState.copy, htake]
      rfl
    rw [hlength] at hnext
    rw [show 2 * (m + 1) + 1 = 2 * m + 1 + 2 by omega,
      internalDecodeString_nonFinal hbuf hhead hcopy (hnone _ _),
      show st.outLength + (m + 1) * k = st.outLength + k + m * k by rw [Nat.succ_mul]; omega]
    exact hnext

/-- Characters that leave the buffer are loaded from behind it. -/
theorem DecodesInBounds.not_outside (h : DecodesInBounds b) {hd : ChunkHead}
    (hhead : chunkHead b = some hd) (hlen : hd.off + hd.count ≤ b.length) :
    scanChars hd.count (b.drop hd.off) ≠ .outside := by
  intro hout
  have hmem := holds_zeroExt b
  obtain ⟨hbehind, hend⟩ := holds_behind_head hmem hhead
  obtain ⟨r, hr, hle⟩ := (copyChunk_outside hlen hbehind hout (decodeStart.enter hd)).1
  rw [hend] at hle
  have hread : r ∈ (hsDecodeString true (zeroExt b) b.length 1).reads := by
    simp only [hsDecodeString, if_true, internalDecodeString_head hmem hhead, decodeChunk]
    split
    · exact hr
    · split
      · rwa [chunkLoop]
      · exact hr
  have := (h true _ 1 hmem).1 r hread
  omega

/-- **Necessary for bounds**. -/
theorem string_of_decodesInBounds (h : DecodesInBounds b) : StringInBounds b := by
  have hmem := holds_zeroExt b
  refine ⟨?_, fun hd hhead hlen => ⟨h.not_outside hhead hlen, fun hfinal => ?_⟩⟩
  · -- the first byte of an empty buffer
    rintro rfl
    obtain ⟨st', hret, hreads, -⟩ := internalDecodeString_no_head hmem rfl 0 decodeStart
    have hread : 0 ∈ (hsDecodeString true (zeroExt []) 0 1).reads := by
      simp only [hsDecodeString, if_true]
      rw [List.length_nil] at hret
      rw [hret, hreads]
      exact List.mem_append_right _ (List.mem_singleton_self 0)
    exact absurd ((h true _ 1 hmem).1 0 hread) (Nat.lt_irrefl 0)
  · -- a non-final chunk that is copied over and over
    obtain ⟨final, off, n⟩ := hd
    obtain rfl : final = false := hfinal
    have hout := h.not_outside hhead hlen
    cases hscan : scanChars n (b.drop off) with
    | invalid => exact .inr rfl
    | outside => exact absurd hscan hout
    | done k =>
      refine .inl (Nat.eq_zero_of_not_pos fun hpos => ?_)
      dsimp only at hpos
      have hk : 0 < k := by
        have := (le_of_scanChars_done hscan).1
        omega
      have hwrite := nonFinal_writes hmem hhead hlen hscan hk b.length decodeStart
      have hlt := (h true _ (2 * b.length + 1) hmem).2.1 _ hwrite
      have hle : b.length * 1 ≤ b.length * k := Nat.mul_le_mul_left _ hk
      simp only [decodeStart] at hlt
      omega

/-- **The decoder stays in bounds exactly on such buffers.** -/
theorem hs_decode_in_bounds_iff (b : List UInt8) : DecodesInBounds b ↔ StringInBounds b :=
  ⟨string_of_decodesInBounds, decodesInBounds_of_string⟩

/-- Two bytes that announce one character and begin a character of four: the decoder copies four
bytes into the two of `out_str`, and `buf_retrieve` then aborts. -/
theorem hs_decode_out_of_bounds :
    (hsDecodeString true (zeroExt [0x01, 0xF0]) 2 1).writes = [0, 1, 2, 3]
      ∧ (hsDecodeString true (zeroExt [0x01, 0xF0]) 2 1).ret = .retTrue [0xF0, 0, 0, 0] 4
      ∧ ¬ DecodesInBounds [0x01, 0xF0] := by
  refine ⟨by decide, by decide, fun h => ?_⟩
  exact absurd ((h true _ 1 (holds_zeroExt _)).2.1 2 (by decide)) (by decide)

end Wee
