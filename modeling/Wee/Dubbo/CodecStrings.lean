import Wee.Dubbo.CodecRequest

/-! # Strings one after the other

`write_hs_str` stores a prefix of one to three bytes and the string. `read_hs_str` takes as many
bytes off the buffer as the string has, so what it leaves begins inside the string it has read. A
reader that has returned every string has left the prefixes behind, and only an empty list is
framed. -/

namespace Wee

/-! ### What the string decoder returns -/

/-- The loop of `utf8cpy` advances at most four bytes a character. -/
theorem utf8cpyLoop_le {src : Nat → UInt8} {n i j : Nat} (h : (utf8cpyLoop src n i).1 = some j) :
    j ≤ i + 4 * n := by
  induction n generalizing i with
  | zero =>
    rw [utf8cpyLoop, Option.some.injEq] at h
    omega
  | succ n ih =>
    cases hstep : charStep (src i) with
    | none =>
      simp only [utf8cpyLoop, hstep] at h
      cases h
    | some k =>
      rw [utf8cpyLoop_succ hstep] at h
      have hle := ih h
      have hk := charStep_le hstep
      omega

/-- A copy into an empty `out_str` that succeeds has stored `*out_length` bytes. -/
theorem copyChunk_start {buf : Nat → UInt8} {bufLength off n : Nat} {st st' : DecodeState}
    (h : copyChunk buf bufLength off n st = (true, st')) (hzero : st.outLength = 0) :
    st'.outStr.length = st'.outLength ∧ st'.outLength ≤ 4 * n := by
  simp only [copyChunk, utf8cpy] at h
  split at h
  · cases h
  · cases hloop : utf8cpyLoop (fun i => buf (off + i)) n 0 with
    | mk ret rs =>
      cases ret with
      | none =>
        simp only [hloop] at h
        cases h
      | some j =>
        have hle := utf8cpyLoop_le (show (utf8cpyLoop (fun i => buf (off + i)) n 0).1 = some j by
          rw [hloop])
        simp only [hloop] at h
        cases h
        simp only [hzero, List.take_zero, List.nil_append, List.length_map, List.length_range]
        omega

/-- The loop behind a non-final chunk never ends in success. -/
theorem chunkLoop_ne_true (buf : Nat → UInt8) (bufLength fuel : Nat) (st : DecodeState) :
    (chunkLoop buf bufLength fuel st).1 ≠ some true := by
  induction fuel generalizing st with
  | zero =>
    rw [chunkLoop]
    exact fun h => nomatch h
  | succ fuel ih =>
    rw [chunkLoop]
    split_ifs
    · exact fun h => nomatch h
    · split
      · exact ih _
      · rename_i r hne
        intro htrue
        exact hne _ (Prod.ext htrue rfl)

/-- **A string that is returned** has `*out_sz` bytes, at most four for each of 65535 characters. -/
theorem hsDecodeString_true {mem : Nat → UInt8} {sz fuel outSz : Nat} {out : List UInt8}
    (h : (hsDecodeString true mem sz fuel).ret = .retTrue out outSz) :
    out.length = outSz ∧ outSz ≤ 4 * 65535 := by
  -- success comes from the copy of a final chunk
  have hcopy : ∀ r, internalDecodeString mem sz fuel decodeStart = (some true, r) →
      r.outStr.length = r.outLength ∧ r.outLength ≤ 4 * 65535 := by
    intro r hr
    have hfrom {off n : Nat} {st : DecodeState} (hzero : st.outLength = 0) (hn : n ≤ 65535)
        (heq : (some (copyChunk mem sz off n st).1, (copyChunk mem sz off n st).2)
          = (some true, r)) : r.outStr.length = r.outLength ∧ r.outLength ≤ 4 * 65535 := by
      have hfst : (copyChunk mem sz off n st).1 = true := Option.some.inj (congrArg Prod.fst heq)
      have hsnd : (copyChunk mem sz off n st).2 = r := congrArg Prod.snd heq
      obtain ⟨hlen, hle⟩ := copyChunk_start (Prod.ext hfst hsnd) hzero
      exact ⟨hlen, by omega⟩
    have hlt0 := (mem 0).toNat_lt
    have hlt1 := (mem 1).toNat_lt
    have hlt2 := (mem 2).toNat_lt
    have htwo : beNat [mem 1, mem 2] ≤ 65535 := by
      simp only [beNat, List.length_cons, List.length_nil, zero_add, pow_one, pow_zero]
      omega
    cases fuel with
    | zero =>
      rw [internalDecodeString] at hr
      cases hr
    | succ fuel =>
      simp only [internalDecodeString] at hr
      split_ifs at hr with hshort hmedium hfew hlong hfew hchunk hfew hok
      · exact hfrom rfl (by omega) hr
      · cases hr
      · exact hfrom rfl (by omega) hr
      · cases hr
      · exact hfrom rfl htwo hr
      · cases hr
      · exact absurd (congrArg Prod.fst hr) (chunkLoop_ne_true _ _ _ _)
      · cases hr
      · cases hr
  simp only [hsDecodeString, if_true] at h
  cases hrun : internalDecodeString mem sz fuel decodeStart with
  | mk ret st =>
    rw [hrun] at h
    cases ret with
    | none => cases h
    | some b =>
      cases b with
      | false => cases h
      | true =>
        obtain ⟨hlen, hle⟩ := hcopy st hrun
        cases h
        rw [List.length_take, hlen, Nat.min_self]
        exact ⟨rfl, hle⟩

/-- `read_hs_str` takes the length of the string off the buffer, and nothing for its prefix. -/
theorem readHsStr_consumes {buf buf' : Buffer} {out : List UInt8} {fuel : Nat} (h : BufShape buf)
    (hread : readHsStr fuel buf = .ok (some (out, buf'))) :
    Consumed out.length buf buf' ∧ out.length ≤ (bufBytes buf).length ∧ out.length ≤ 4 * 65535 := by
  simp only [readHsStr] at hread
  split at hread
  · cases hread
  · split at hread
    · cases hread
    · cases hread
    · rename_i str outSz hret
      obtain ⟨b, hretr, heq⟩ := exec_bind_eq_ok.mp hread
      cases heq
      obtain ⟨hlen, hle⟩ := hsDecodeString_true hret
      have hfits : outSz ≤ bufReadable buf := by
        by_contra hgt
        rw [bufRetrieve_of_gt (not_le.mp hgt)] at hretr
        cases hretr
      obtain ⟨b', hb', hcons⟩ := h.retrieve_spec hfits
      obtain rfl : b' = buf' := Except.ok.inj (hb'.symm.trans hretr)
      rw [h.length_bufBytes, hlen]
      exact ⟨hcons, hfits, hle⟩

/-! ### Lists of strings -/

/-- `read_hs_str` applied `n` times; `none` is the `return false` of one of them. -/
def readHsStrs (fuel : Nat) : Nat → Buffer → Exec (Option (List (List UInt8) × Buffer))
  | 0, buf => return some ([], buf)
  | n + 1, buf => do
    match ← readHsStr fuel buf with
    | none => return none
    | some (out, buf) =>
      match ← readHsStrs fuel n buf with
      | none => return none
      | some (outs, buf) => return some (out :: outs, buf)

/-- The strings are written one after the other and read back. -/
def writeReadHsStrs (fuel : Nat) (strs : List CStr) (buf : Buffer) :
    Exec (Option (List (List UInt8) × Buffer)) := do
  match ← writeHsItems (strs.map .str) buf with
  | none => return none
  | some buf => readHsStrs fuel strs.length buf

/-- **The strings are framed**: reading returns them in order and leaves the buffer empty. -/
def StringsFramed (strs : List CStr) (buf : Buffer) : Prop :=
  Settles (fun fuel => writeReadHsStrs fuel strs buf) fun r =>
    ∃ buf', r = some (strs.map CStr.bytes, buf') ∧ bufBytes buf' = []

/-- Reading `outs` takes the lengths of the strings off the buffer. -/
theorem readHsStrs_consumes {fuel n : Nat} {buf buf' : Buffer} {outs : List (List UInt8)}
    (h : BufShape buf) (hread : readHsStrs fuel n buf = .ok (some (outs, buf'))) :
    (bufBytes buf').length + (outs.map List.length).sum = (bufBytes buf).length
      ∧ ∀ out ∈ outs, out.length ≤ 4 * 65535 := by
  induction n generalizing buf outs with
  | zero =>
    cases hread
    exact ⟨rfl, fun out hmem => absurd hmem List.not_mem_nil⟩
  | succ n ih =>
    obtain ⟨r, hone, hrest⟩ := exec_bind_eq_ok.mp hread
    cases r with
    | none => cases hrest
    | some r =>
      obtain ⟨out, buf₁⟩ := r
      obtain ⟨r, hmany, hret⟩ := exec_bind_eq_ok.mp hrest
      cases r with
      | none => cases hret
      | some r =>
        obtain ⟨outs₁, buf₂⟩ := r
        cases hret
        obtain ⟨hcons, hfits, hle⟩ := readHsStr_consumes h hone
        obtain ⟨hsum, hall⟩ := ih hcons.shape hmany
        have hdrop : (bufBytes buf₁).length = (bufBytes buf).length - out.length := by
          rw [hcons.bytes, List.length_drop]
        refine ⟨?_, List.forall_mem_cons.mpr ⟨hle, hall⟩⟩
        rw [List.map_cons, List.sum_cons]
        omega

/-- An encoding is longer than the string. -/
theorem length_lt_asciiString (text : List UInt8) : text.length < (asciiString text).length := by
  rw [asciiString, List.length_append]
  have hheader : 0 < ((StrForm.least text.length).header text.length).length := by
    cases StrForm.least text.length <;> simp [StrForm.header]
  omega

/-- Encodings of strings are longer than the strings, by a prefix each. -/
theorem sum_length_le_stored {strs : List CStr} (h : ∀ s ∈ strs, s.bytes.length ≤ 4 * 65535) :
    ((strs.map CStr.bytes).map List.length).sum + strs.length
      ≤ ((strs.map HsItem.str).flatMap HsItem.stored).length := by
  induction strs with
  | nil => exact le_refl _
  | cons s strs ih =>
    obtain ⟨hs, hrest⟩ := List.forall_mem_cons.mp h
    have hexact : (HsItem.str s).Exact := intLength_eq (by omega)
    have hlt := length_lt_asciiString s.bytes
    have hle := ih hrest
    simp only [List.map_cons, List.sum_cons, List.length_cons, List.flatMap_cons, List.length_append,
      hexact.stored_eq, HsItem.bytes] at hle ⊢
    omega

/-- **Only the empty list of strings is framed.** -/
theorem hs_strings_framed_iff (strs : List CStr) (buf : Buffer) (hbuf : BufWf buf)
    (hempty : bufBytes buf = []) : StringsFramed strs buf ↔ strs = [] := by
  constructor
  · rintro ⟨N, r, hr, buf', rfl, hleft⟩
    have hrun : writeReadHsStrs N strs buf = .ok (some (strs.map CStr.bytes, buf')) :=
      hr N (le_refl N)
    by_cases hstay : ItemsStay (bufWritable buf) (strs.map .str)
    · rcases writeHsItems_stay hbuf hstay with ⟨-, hnone⟩ | ⟨-, buf₁, hwrite, hwf, -, hbytes⟩
      · rw [writeReadHsStrs, hnone] at hrun
        cases hrun
      · rw [writeReadHsStrs, hwrite, exec_ok_bind] at hrun
        obtain ⟨hsum, hall⟩ := readHsStrs_consumes hwf.shape hrun
        have hshort : ∀ s ∈ strs, s.bytes.length ≤ 4 * 65535 := fun s hmem =>
          hall s.bytes (List.mem_map_of_mem hmem)
        -- the prefixes are still in the buffer, which is empty
        have hle := sum_length_le_stored hshort
        rw [hleft, hbytes, hempty, List.nil_append, List.length_nil] at hsum
        exact List.length_eq_zero_iff.mp (by omega)
    · rw [writeReadHsStrs, writeHsItems_outside hbuf hstay] at hrun
      cases hrun
  · rintro rfl
    exact (returns_ok ⟨buf, rfl, hempty⟩).settles

/-- An empty buffer of four bytes. -/
def fourBytes : Buffer :=
  { readIdx := 0, writeIdx := 0, sz := 4, pSz := 0, buf := [0, 0, 0, 0], refcount := 0, src := none,
    cache := none }

/-- It is well formed. -/
theorem fourBytes_wf : BufWf fourBytes where
  read_le_write := le_refl _
  write_le_sz := Nat.zero_le _
  pSz_le_sz := Nat.zero_le _
  length_buf := rfl
  sz_lt := by decide
  unlocked := rfl

/-- The two strings `a` and `b` fit the four bytes and are not framed. -/
theorem hs_strings_framed_two :
    StringsFramed [⟨[0x61], by decide⟩, ⟨[0x62], by decide⟩] fourBytes ↔
      ([⟨[0x61], by decide⟩, ⟨[0x62], by decide⟩] : List CStr) = [] :=
  hs_strings_framed_iff _ _ fourBytes_wf rfl

/-- The string `a` is stored as `01 61` and read back, and `61` is left in the buffer. -/
theorem hs_string_leaves_byte :
    (∃ buf', writeReadHsStrs 1 [⟨[0x61], by decide⟩] fourBytes = .ok (some ([[0x61]], buf'))
      ∧ bufBytes buf' = [0x61]) ∧ ¬ StringsFramed [⟨[0x61], by decide⟩] fourBytes := by
  refine ⟨⟨_, rfl, by decide⟩, ?_⟩
  rintro ⟨N, r, hr, buf', rfl, hleft⟩
  have hrun : writeReadHsStrs (N + 1) [⟨[0x61], by decide⟩] fourBytes
      = .ok (some ([[0x61]], buf')) := hr (N + 1) (Nat.le_succ N)
  -- the decoder makes no nested call, so the fuel does not matter
  have hone : writeReadHsStrs (N + 1) [⟨[0x61], by decide⟩] fourBytes
      = writeReadHsStrs 1 [⟨[0x61], by decide⟩] fourBytes := rfl
  rw [hone] at hrun
  cases hrun
  exact absurd hleft (by decide)

end Wee
