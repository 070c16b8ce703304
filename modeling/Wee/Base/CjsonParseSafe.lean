import Wee.Base.CjsonParse

/-! # The parser stays in its string (`base/cJSON.c`)

On every C string the parser returns, whatever the string holds: no load leaves the string and its
NUL, no store leaves the block that `parse_string` has allocated, and the fuel needed is bounded by
the length. The block is sized by counting a backslash and the character behind it once. The loop
that fills it may read the literal at other places than the one that counts, because four characters
that are no hexadecimal digits are skipped as well, so its bound is a measure of what is left. -/

namespace Wee

variable {ν α : Type}

/-! ### Positions -/

/-- The buffer stands on a byte of a content that ends with a NUL. -/
structure ParseBuffer.Inside (b : ParseBuffer) : Prop where
  /-- All of the content is to be read. -/
  length : b.length = b.content.length
  /-- There is a next byte. -/
  offset_lt : b.offset < b.length
  /-- The last byte is the NUL. -/
  nul : b.content[b.length - 1]? = some 0
  /-- The nesting is not above its limit. -/
  depth_le : b.depth ≤ cjsonNestingLimit

/-- `b'` is `b`, with the offset moved by `n` or more to a byte of the content. -/
structure ParseBuffer.Onward (n : Nat) (b b' : ParseBuffer) : Prop where
  /-- The same content. -/
  content : b'.content = b.content
  /-- The same length. -/
  length : b'.length = b.length
  /-- The same nesting. -/
  depth : b'.depth = b.depth
  /-- Further on. -/
  le : b.offset + n ≤ b'.offset
  /-- There is a next byte. -/
  lt : b'.offset < b.length

variable {b b' b'' : ParseBuffer} {n m : Nat}

/-- A move ends inside as well. -/
theorem ParseBuffer.Onward.inside (h : b.Onward n b') (hb : b.Inside) : b'.Inside := by
  obtain ⟨hlength, -, hnul, hdepth⟩ := hb
  constructor
  · rw [h.length, h.content, hlength]
  · rw [h.length]
    exact h.lt
  · rw [h.length, h.content]
    exact hnul
  · rw [h.depth]
    exact hdepth

/-- One move after the other. -/
theorem ParseBuffer.Onward.trans (h : b.Onward n b') (h' : b'.Onward m b'') :
    b.Onward (n + m) b'' where
  content := h'.content.trans h.content
  length := h'.length.trans h.length
  depth := h'.depth.trans h.depth
  le := by
    have := h.le
    have := h'.le
    omega
  lt := h.length ▸ h'.lt

/-- A move may be taken for a shorter one. -/
theorem ParseBuffer.Onward.weaken (h : b.Onward n b') (hle : m ≤ n) : b.Onward m b' :=
  { h with le := by have := h.le; omega }

/-- Staying. -/
theorem ParseBuffer.Inside.onward (h : b.Inside) : b.Onward 0 b :=
  ⟨rfl, rfl, rfl, Nat.le_refl _, h.offset_lt⟩

/-- A move by `n` bytes. -/
theorem ParseBuffer.onward_advance (h : b.offset + n < b.length) : b.Onward n (b.advance n) :=
  ⟨rfl, rfl, rfl, Nat.le_refl _, h⟩

/-- Loading a byte of the content. -/
theorem cellLoad_returns {content : List UInt8} {i : Nat} (h : i < content.length) :
    Returns (cellLoad content i) fun c => content[i]? = some c := by
  have hget := List.getElem?_eq_getElem h
  exact ⟨content[i], cellLoad_of_some hget, hget⟩

/-- A byte other than the NUL is not the last one. -/
theorem ParseBuffer.Inside.lt_of_ne (h : b.Inside) {i : Nat} {c : UInt8}
    (hget : b.content[i]? = some c) (hc : c ≠ 0) : i + 1 < b.length := by
  have hlt := (List.getElem?_eq_some_iff.mp hget).1
  have hlength := h.length
  rcases Nat.lt_or_ge (i + 1) b.length with hi | hi
  · exact hi
  · have hlast : b.length - 1 = i := by omega
    have hnul := h.nul
    rw [hlast, hget] at hnul
    exact absurd (Option.some.inj hnul) hc

/-- The test of the next byte. -/
theorem ParseBuffer.Inside.isAt_returns (h : b.Inside) (p : UInt8 → Bool) :
    Returns (b.isAt p) fun r => r = true → ∃ c, b.content[b.offset]? = some c ∧ p c = true := by
  have hlt : b.offset < b.content.length := h.length ▸ h.offset_lt
  obtain ⟨c, hload, hget⟩ := cellLoad_returns hlt
  refine ⟨p c, ?_, fun hp => ⟨c, hget, hp⟩⟩
  rw [isAt, if_pos (show b.CanAccessAtIndex 0 from h.offset_lt), atOffset, Nat.add_zero, hload]
  rfl

/-- Behind a byte that is found there is another one. -/
theorem ParseBuffer.Inside.isAt_advance (h : b.Inside) {p : UInt8 → Bool} (hp : p 0 = false) :
    Returns (b.isAt p) fun r => r = true → b.Onward 1 (b.advance 1) := by
  refine (h.isAt_returns p).imp fun r hr htrue => ?_
  obtain ⟨c, hget, hc⟩ := hr htrue
  refine onward_advance (h.lt_of_ne hget fun hzero => ?_)
  rw [hzero, hp] at hc
  cases hc

/-! ### Words and white space -/

/-- Comparing with a word that ends inside. -/
theorem wordAt_returns {content word : List UInt8} {i : Nat}
    (h : i + word.length ≤ content.length) :
    Returns (wordAt content i word) fun r => r = true →
      ∀ j (hj : j < word.length), content[i + j]? = some word[j] := by
  induction word generalizing i with
  | nil => exact returns_ok fun _ j hj => absurd hj (Nat.not_lt_zero j)
  | cons w word ih =>
    rw [List.length_cons] at h
    rw [wordAt]
    refine (cellLoad_returns (by omega)).bind fun c hc => ?_
    by_cases heq : c = w
    · rw [if_pos heq]
      refine (ih (i := i + 1) (by omega)).imp fun r hr htrue j hj => ?_
      cases j with
      | zero => rw [Nat.add_zero, hc, heq, List.getElem_cons_zero]
      | succ j =>
        rw [List.getElem_cons_succ, ← hr htrue j (Nat.lt_of_succ_lt_succ hj), Nat.add_assoc,
          Nat.add_comm 1 j]
    · rw [if_neg heq]
      exact returns_ok fun hfalse => absurd hfalse Bool.false_ne_true

/-- A word without a NUL is followed by a byte. -/
theorem ParseBuffer.Inside.isWord_returns (h : b.Inside) (word : List UInt8) (hnul : 0 ∉ word)
    (hpos : 0 < word.length) :
    Returns (b.isWord word) fun r => r = true → b.Onward word.length (b.advance word.length) := by
  unfold isWord
  split
  · rename_i hread
    refine (wordAt_returns (h.length ▸ hread)).imp fun r hr htrue => onward_advance ?_
    have hlast := hr htrue (word.length - 1) (by omega)
    have hlt := h.lt_of_ne hlast fun hzero => hnul (hzero ▸ List.getElem_mem _)
    omega
  · exact returns_ok fun hfalse => absurd hfalse Bool.false_ne_true

/-- The loop ends at the end of the content at the latest. The induction is on the fuel. -/
theorem skipWhitespaceLoop_returns {fuel : Nat} (hfuel : b.length - b.offset < fuel)
    (hlength : b.length = b.content.length) (hle : b.offset ≤ b.length) :
    Returns (skipWhitespaceLoop fuel b) fun b' => b'.content = b.content ∧ b'.length = b.length
      ∧ b'.depth = b.depth ∧ b.offset ≤ b'.offset ∧ b'.offset ≤ b.length := by
  induction fuel generalizing b with
  | zero => exact absurd hfuel (Nat.not_lt_zero _)
  | succ fuel ih =>
    rw [skipWhitespaceLoop]
    by_cases hread : b.CanAccessAtIndex 0
    · rw [if_pos hread]
      refine (cellLoad_returns (hlength ▸ hread)).bind fun c _ => ?_
      by_cases hspace : c ≤ 32
      · rw [if_pos hspace]
        have hnext : (b.advance 1).offset = b.offset + 1 := rfl
        refine (ih (b := b.advance 1) ?_ hlength ?_).imp fun b' hb' => ?_
        · show b.length - (b.offset + 1) < fuel
          omega
        · exact hread
        · obtain ⟨hcontent, hlen, hdepth, hge, hle'⟩ := hb'
          exact ⟨hcontent, hlen, hdepth, by omega, hle'⟩
      · rw [if_neg hspace]
        exact returns_ok ⟨rfl, rfl, rfl, Nat.le_refl _, hle⟩
    · rw [if_neg hread]
      exact returns_ok ⟨rfl, rfl, rfl, Nat.le_refl _, hle⟩

/-- **White space** is skipped up to a byte: it is the NUL if nothing else is left. -/
theorem ParseBuffer.Inside.skip_returns (h : b.Inside) {fuel : Nat}
    (hfuel : b.length - b.offset < fuel) :
    Returns (bufferSkipWhitespace fuel b) fun b' => b.Onward 0 b' := by
  have hlt := h.offset_lt
  refine (skipWhitespaceLoop_returns hfuel h.length (Nat.le_of_lt hlt)).bind fun b' hb' => ?_
  obtain ⟨hcontent, hlength, hdepth, hge, hle⟩ := hb'
  refine returns_ok ?_
  by_cases hend : b'.offset = b'.length
  · rw [if_pos hend]
    refine ⟨hcontent, hlength, hdepth, ?_, ?_⟩
    · show b.offset + 0 ≤ b'.offset - 1
      omega
    · show b'.offset - 1 < b.length
      omega
  · rw [if_neg hend]
    exact ⟨hcontent, hlength, hdepth, hge, by omega⟩

/-! ### Numbers -/

/-- `strtod` reads no more characters than there are. -/
def NumberLib.Reads (lib : NumberLib ν) : Prop := ∀ s, (lib.strtod s).2 ≤ s.length

/-- The copied characters are before the NUL. -/
theorem ParseBuffer.Inside.numberLoop_returns (h : b.Inside) (decimalPoint : UInt8) {n i : Nat}
    (hi : b.offset + i < b.length) :
    Returns (numberLoop decimalPoint b n i) fun s => b.offset + i + s.length < b.length := by
  induction n generalizing i with
  | zero => exact returns_ok hi
  | succ n ih =>
    rw [numberLoop, if_pos (show b.CanAccessAtIndex i from hi)]
    refine (cellLoad_returns (h.length ▸ hi)).bind fun c hc => ?_
    have hnext (hne : c ≠ 0) : b.offset + (i + 1) < b.length := h.lt_of_ne hc hne
    by_cases hchar : isNumberChar c = true
    · rw [if_pos hchar]
      have hne : c ≠ 0 := fun hzero => by rw [hzero] at hchar; exact absurd hchar (by decide)
      refine (ih (hnext hne)).bind fun s hs => returns_ok ?_
      rw [List.length_cons]
      omega
    · rw [if_neg hchar]
      by_cases hpoint : c = 0x2E
      · rw [if_pos hpoint]
        have hne : c ≠ 0 := fun hzero => by rw [hzero] at hpoint; exact absurd hpoint (by decide)
        refine (ih (hnext hne)).bind fun s hs => returns_ok ?_
        rw [List.length_cons]
        omega
      · rw [if_neg hpoint]
        exact returns_ok hi

/-- What a parser leaves: what it accepts ends before the NUL, and its nesting, given by `nest`, is
in the limit. -/
structure ParseBuffer.Parsed (b : ParseBuffer) (nest : α → Nat) (r : Option α × ParseBuffer) :
    Prop where
  /-- The length is kept, also by a failure. -/
  length : r.2.length = b.length
  /-- What is accepted. -/
  accepted : ∀ v, r.1 = some v → b.Onward 1 r.2 ∧ b.depth + nest v ≤ cjsonNestingLimit

/-- Nothing is accepted. -/
theorem ParseBuffer.parsed_none {nest : α → Nat} (h : b'.length = b.length) :
    b.Parsed nest (none, b') :=
  ⟨h, fun _ hv => nomatch hv⟩

/-- Something is accepted. -/
theorem ParseBuffer.parsed_some {nest : α → Nat} {v : α} (h : b.Onward 1 b')
    (hv : b.depth + nest v ≤ cjsonNestingLimit) : b.Parsed nest (some v, b') :=
  ⟨h.length, fun _ hw => Option.some.inj hw ▸ ⟨h, hv⟩⟩

/-- Something that is not nested is accepted. -/
theorem ParseBuffer.Inside.parsed_some (h : b.Inside) (hmove : b.Onward 1 b') {nest : α → Nat}
    {v : α} (hv : nest v = 0) : b.Parsed nest (some v, b') :=
  ParseBuffer.parsed_some hmove (by rw [hv]; exact h.depth_le)

/-- `parse_number`. -/
theorem ParseBuffer.Inside.parseNumber_returns (h : b.Inside) {lib : NumberLib ν}
    (hlib : lib.Reads) : Returns (parseNumber lib b) (b.Parsed CjsonValue.nesting) := by
  refine (h.numberLoop_returns lib.decimalPoint (i := 0) h.offset_lt).bind fun s hs => ?_
  have hread := hlib s
  show Returns (if (lib.strtod s).2 = 0 then .ok (none, b)
    else .ok (some (CjsonValue.number (lib.strtod s).1), b.advance (lib.strtod s).2)) _
  by_cases hzero : (lib.strtod s).2 = 0
  · rw [if_pos hzero]
    exact returns_ok (ParseBuffer.parsed_none rfl)
  · rw [if_neg hzero]
    have hmove : b.Onward (lib.strtod s).2 (b.advance (lib.strtod s).2) :=
      onward_advance (by omega)
    exact returns_ok (h.parsed_some (hmove.weaken (Nat.pos_of_ne_zero hzero)) rfl)

/-! ### The size of a string -/

/-- How many characters a literal has when a backslash and what is behind it are one. -/
def literalTokens : List UInt8 → Nat
  | [] => 0
  | [_] => 1
  | c :: e :: cs => if c = 0x5C then literalTokens cs + 1 else literalTokens (e :: cs) + 1

/-- A character that is no backslash. -/
theorem literalTokens_cons {c : UInt8} (hc : c ≠ 0x5C) (cs : List UInt8) :
    literalTokens (c :: cs) = literalTokens cs + 1 := by
  cases cs with
  | nil => rfl
  | cons e cs => rw [literalTokens, if_neg hc]

/-- A backslash and the character behind it. -/
theorem literalTokens_escape (e : UInt8) (cs : List UInt8) :
    literalTokens (0x5C :: e :: cs) = literalTokens cs + 1 := by
  rw [literalTokens, if_pos rfl]

/-- **A character in front** adds one or nothing, whatever it is paired with. -/
theorem literalTokens_cons_bounds (c : UInt8) (cs : List UInt8) :
    literalTokens cs ≤ literalTokens (c :: cs) ∧
      literalTokens (c :: cs) ≤ literalTokens cs + 1 := by
  induction cs generalizing c with
  | nil => exact ⟨Nat.zero_le 1, Nat.le_refl 1⟩
  | cons e cs ih =>
    obtain ⟨hlo, hhi⟩ := ih e
    by_cases hc : c = 0x5C
    · rw [hc, literalTokens_escape]
      exact ⟨hhi, Nat.succ_le_succ hlo⟩
    · rw [literalTokens_cons hc]
      exact ⟨Nat.le_succ _, Nat.le_refl _⟩

/-- Two characters in front add at least one. -/
theorem literalTokens_cons_cons (c e : UInt8) (cs : List UInt8) :
    literalTokens cs + 1 ≤ literalTokens (c :: e :: cs) := by
  by_cases hc : c = 0x5C
  · rw [hc, literalTokens_escape]
  · rw [literalTokens_cons hc]
    exact Nat.succ_le_succ (literalTokens_cons_bounds e cs).1

/-- Any `2 * n` characters in front add at least `n`. -/
theorem literalTokens_drop {n k : Nat} (hk : k = 2 * n) {cs : List UInt8} (h : k ≤ cs.length) :
    literalTokens (cs.drop k) + n ≤ literalTokens cs := by
  subst hk
  induction n generalizing cs with
  | zero => exact Nat.le_refl _
  | succ n ih =>
    obtain ⟨c, e, ds, rfl⟩ : ∃ c e ds, cs = c :: e :: ds := by
      cases cs with
      | nil => simp at h
      | cons c cs =>
        cases cs with
        | nil => simp at h; omega
        | cons e ds => exact ⟨c, e, ds, rfl⟩
    have hds : 2 * n ≤ ds.length := by
      simp only [List.length_cons] at h
      omega
    have hrest := ih hds
    have hpair := literalTokens_cons_cons c e ds
    rw [show 2 * (n + 1) = 2 * n + 2 from rfl, List.drop_succ_cons, List.drop_succ_cons]
    omega

/-! ### The output of a string -/

/-- `out` has been stored in a block of `cap` bytes. -/
structure ParseOutput.Wrote (o : ParseOutput) (cap : Nat) (out : List UInt8) : Prop where
  /-- The size of the block. -/
  length : o.output.length = cap
  /-- The pointer stands behind `out`. -/
  pointer : o.pointer = out.length
  /-- The bytes before the pointer. -/
  take : o.output.take o.pointer = out

/-- **A store** that fits in the block. -/
theorem ParseOutput.Wrote.put {o : ParseOutput} {cap : Nat} {out bytes : List UInt8}
    (h : o.Wrote cap out) (hfits : out.length + bytes.length ≤ cap) :
    Returns (o.put bytes) fun o' => o'.Wrote cap (out ++ bytes) := by
  obtain ⟨hlength, hpointer, htake⟩ := h
  have hle : o.pointer + bytes.length ≤ o.output.length := by omega
  have hfront : (o.output.take o.pointer).length = o.pointer := by
    rw [List.length_take]
    omega
  rw [ParseOutput.put, memStore_of_le hle]
  refine returns_ok ⟨?_, ?_, ?_⟩
  · rw [length_splice hle, hlength]
  · rw [List.length_append, hpointer]
  · show (splice o.output o.pointer bytes).take (o.pointer + bytes.length) = _
    have hall : (o.output.take o.pointer ++ bytes).length = o.pointer + bytes.length := by
      rw [List.length_append, hfront]
    rw [splice, List.take_left' hall, htake]

/-- The block as it is allocated. -/
theorem wrote_nil (cap : Nat) :
    ParseOutput.Wrote { output := List.replicate cap 0, pointer := 0 } cap [] :=
  ⟨List.length_replicate, rfl, rfl⟩

/-- What is behind a NUL is not part of the string. -/
theorem takeWhile_append_nul (out rest : List UInt8) :
    (out ++ 0 :: rest).takeWhile (· ≠ 0) = out.takeWhile (· ≠ 0) := by
  induction out with
  | nil => rfl
  | cons c out ih => rw [List.cons_append, List.takeWhile_cons, List.takeWhile_cons, ih]

/-- The string in a block that ends with a NUL. -/
theorem ParseOutput.Wrote.ofBlock {o : ParseOutput} {cap : Nat} {out : List UInt8}
    (h : o.Wrote cap (out ++ [0])) : CStr.ofBlock o.output = CStr.ofBlock out := by
  have hblock : o.output = out ++ 0 :: o.output.drop o.pointer := by
    calc o.output = o.output.take o.pointer ++ o.output.drop o.pointer :=
          (List.take_append_drop _ _).symm
      _ = out ++ 0 :: o.output.drop o.pointer := by rw [h.take, List.append_assoc]; rfl
  rw [hblock]
  simp only [CStr.ofBlock, takeWhile_append_nul]

/-! ### UTF-16 literals -/

/-- A hexadecimal digit is below 16. -/
theorem hexDigit_lt {c d : Nat} (h : hexDigit c = some d) : d < 16 := by
  unfold hexDigit at h
  split at h
  · cases h
    omega
  · split at h
    · cases h
      omega
    · split at h
      · cases h
        omega
      · cases h

/-- The loop of `parse_hex4`: `h` has room for the digits to go. The induction is on these. -/
theorem parseHex4_returns {content : List UInt8} {n : Nat} (hn : n < 4) {input h : Nat}
    (hinput : input + (n + 1) ≤ content.length) (hh : h + 16 ≤ 16 ^ (4 - n)) :
    Returns (parseHex4 content (n + 1) input h) fun u => u < 0x10000 := by
  induction n generalizing input h with
  | zero =>
    rw [parseHex4]
    refine (cellLoad_returns (by omega)).bind fun c _ => ?_
    cases hd : hexDigit c.toNat with
    | none => exact returns_ok (by decide)
    | some d =>
      have hlt := hexDigit_lt hd
      refine returns_ok ?_
      rw [if_pos rfl]
      omega
  | succ n ih =>
    rw [parseHex4]
    refine (cellLoad_returns (by omega)).bind fun c _ => ?_
    cases hd : hexDigit c.toNat with
    | none => exact returns_ok (by decide)
    | some d =>
      have hlt := hexDigit_lt hd
      refine ih (by omega) (by omega) ?_
      have hpow : 16 ^ (4 - n) = 16 ^ (4 - (n + 1)) * 16 := by
        rw [← Nat.pow_succ]
        congr 1
        omega
      rw [if_neg (Nat.succ_ne_zero n), Nat.shiftLeft_eq, hpow]
      omega

/-- A literal that is found ends before `inputEnd`, and only one of 12 characters is above
`0xFFFF`. -/
def LiteralFound (first inputEnd : Nat) (r : Option (Nat × Nat)) : Prop :=
  ∀ codepoint len, r = some (codepoint, len) →
    first + len ≤ inputEnd ∧ (len = 6 ∧ codepoint < 0x10000 ∨ len = 12)

/-- **The code point of a literal** is read inside the literal. -/
theorem utf16Codepoint_returns {content : List UInt8} {first inputEnd : Nat}
    (hend : inputEnd ≤ content.length) :
    Returns (utf16Codepoint content first inputEnd) (LiteralFound first inputEnd) := by
  have hfail : Returns (.ok none) (LiteralFound first inputEnd) :=
    returns_ok fun _ _ hnone => nomatch hnone
  unfold utf16Codepoint
  split
  · exact hfail
  refine (parseHex4_returns (by decide) (by omega) (by decide)).bind fun firstCode hfirst => ?_
  split
  · exact hfail
  split
  · split
    · exact hfail
    refine (cellLoad_returns (by omega)).bind fun c _ => ?_
    split
    · exact hfail
    refine (cellLoad_returns (by omega)).bind fun u _ => ?_
    split
    · exact hfail
    refine (parseHex4_returns (by decide) (by omega) (by decide)).bind fun secondCode _ => ?_
    split
    · exact hfail
    · refine returns_ok fun codepoint len hsome => ?_
      cases hsome
      exact ⟨by omega, Or.inr rfl⟩
  · refine returns_ok fun codepoint len hsome => ?_
    cases hsome
    exact ⟨by omega, Or.inl ⟨rfl, hfirst⟩⟩

/-- The continuation bytes. -/
theorem length_utf8Tails (n codepoint : Nat) (tails : List UInt8) :
    (utf8Tails n codepoint tails).2.length = n + tails.length := by
  induction n generalizing codepoint tails with
  | zero => exact (Nat.zero_add _).symm
  | succ n ih =>
    rw [utf8Tails, ih, List.length_cons]
    omega

/-- A code point has at most three bytes below `0x10000`, and at most four. -/
theorem length_encodeUtf8 {codepoint : Nat} {bytes : List UInt8}
    (h : encodeUtf8 codepoint = some bytes) :
    bytes.length ≤ 4 ∧ (codepoint < 0x10000 → bytes.length ≤ 3) := by
  unfold encodeUtf8 at h
  dsimp only at h
  split at h
  · cases h
    rw [List.length_singleton]
    exact ⟨by decide, fun _ => by decide⟩
  split at h
  · cases h
    rw [List.length_cons, length_utf8Tails]
    exact ⟨by decide, fun _ => by decide⟩
  split at h
  · cases h
    rw [List.length_cons, length_utf8Tails]
    exact ⟨by decide, fun _ => by decide⟩
  split at h
  · rename_i hge _
    cases h
    rw [List.length_cons, length_utf8Tails]
    exact ⟨by decide, fun hlt => absurd hlt hge⟩
  · cases h

/-- **Storing a literal**: what is stored is no longer than half of what the literal adds to the
length of the string. -/
theorem utf16LiteralToUtf8_returns {content : List UInt8} {first inputEnd : Nat} {o : ParseOutput}
    {cap : Nat} {out : List UInt8} (hend : inputEnd ≤ content.length) (ho : o.Wrote cap out)
    (hcap : out.length + literalTokens ((content.take inputEnd).drop first) < cap) :
    Returns (utf16LiteralToUtf8 content first inputEnd o) fun r => r.1 ≠ 0 →
      first + r.1 ≤ inputEnd ∧ ∃ out', r.2.Wrote cap out'
        ∧ out'.length + literalTokens ((content.take inputEnd).drop (first + r.1)) < cap := by
  refine (utf16Codepoint_returns hend).bind fun literal hliteral => ?_
  cases literal with
  | none => exact returns_ok fun hne => absurd rfl hne
  | some found =>
    obtain ⟨codepoint, len⟩ := found
    obtain ⟨hle, hlen⟩ := hliteral codepoint len rfl
    dsimp only
    cases hbytes : encodeUtf8 codepoint with
    | none => exact returns_ok fun hne => absurd rfl hne
    | some bytes =>
      obtain ⟨hfour, hthree⟩ := length_encodeUtf8 hbytes
      have hhalf {n : Nat} (hk : len = 2 * n) :
          literalTokens ((content.take inputEnd).drop (first + len)) + n
            ≤ literalTokens ((content.take inputEnd).drop first) := by
        rw [← List.drop_drop]
        refine literalTokens_drop hk ?_
        rw [List.length_drop, List.length_take]
        omega
      have htokens : literalTokens ((content.take inputEnd).drop (first + len)) + bytes.length
          ≤ literalTokens ((content.take inputEnd).drop first) := by
        rcases hlen with ⟨hsix, hlt⟩ | htwelve
        · have := hhalf (n := 3) hsix
          have := hthree hlt
          omega
        · have := hhalf (n := 6) htwelve
          omega
      refine (ho.put (by omega)).bind fun o' ho' => returns_ok fun _ => ⟨hle, _, ho', ?_⟩
      rw [List.length_append]
      show out.length + bytes.length
        + literalTokens ((content.take inputEnd).drop (first + len)) < cap
      omega

/-! ### Strings -/

/-- The characters left of a literal. -/
theorem drop_take_of_getElem {content : List UInt8} {i e : Nat} {c : UInt8} (hi : i < e)
    (hget : content[i]? = some c) :
    (content.take e).drop i = c :: (content.take e).drop (i + 1) := by
  have htake : (content.take e)[i]? = some c := by rw [List.getElem?_take_of_lt hi, hget]
  obtain ⟨hlt, hc⟩ := List.getElem?_eq_some_iff.mp htake
  rw [List.drop_eq_getElem_cons hlt, hc]

/-- **The loop over a literal** does not store more than the literal has room for. The induction is
on the fuel; the measure of what is left falls with every store. -/
theorem stringLoop_returns {content : List UInt8} {inputEnd fuel p : Nat} {o : ParseOutput}
    {cap : Nat} {out : List UInt8} (hend : inputEnd < content.length) (hfuel : inputEnd - p < fuel)
    (ho : o.Wrote cap out)
    (hcap : out.length + literalTokens ((content.take inputEnd).drop p) < cap) :
    Returns (stringLoop content inputEnd fuel p o) fun r =>
      ∀ o', r.2 = some o' → ∃ out', o'.Wrote cap out' ∧ out'.length < cap := by
  induction fuel generalizing p o out with
  | zero => exact absurd hfuel (Nat.not_lt_zero _)
  | succ fuel ih =>
    have hfail : Returns (.ok (p, none)) fun r : Nat × Option ParseOutput =>
        ∀ o', r.2 = some o' → ∃ out', o'.Wrote cap out' ∧ out'.length < cap :=
      returns_ok fun _ hnone => nomatch hnone
    rw [stringLoop]
    by_cases hp : p < inputEnd
    · rw [if_pos hp]
      refine (cellLoad_returns (by omega)).bind fun c hc => ?_
      have hleft := drop_take_of_getElem hp hc
      by_cases hslash : c = 0x5C
      · rw [if_neg (not_not_intro hslash), if_neg (by omega)]
        refine (cellLoad_returns (by omega)).bind fun e he => ?_
        have hpair : literalTokens ((content.take inputEnd).drop (p + 2)) + 1
            ≤ literalTokens ((content.take inputEnd).drop p) := by
          rcases Nat.lt_or_ge (p + 1) inputEnd with hlt | hge
          · rw [hleft, drop_take_of_getElem hlt he]
            exact literalTokens_cons_cons _ _ _
          · -- the character behind the backslash is the closing quotation mark
            have hnil : (content.take inputEnd).drop (p + 1) = [] :=
              List.drop_eq_nil_of_le (by rw [List.length_take]; omega)
            have hnil' : (content.take inputEnd).drop (p + 2) = [] :=
              List.drop_eq_nil_of_le (by rw [List.length_take]; omega)
            rw [hleft, hnil, hnil']
            exact Nat.le_refl 1
        by_cases hu : e = 0x75
        · rw [if_pos hu]
          refine (utf16LiteralToUtf8_returns (Nat.le_of_lt hend) ho hcap).bind fun r hr => ?_
          show Returns (if r.1 = 0 then .ok (p, none)
            else stringLoop content inputEnd fuel (p + r.1) r.2) _
          by_cases hzero : r.1 = 0
          · rw [if_pos hzero]
            exact hfail
          · rw [if_neg hzero]
            obtain ⟨hle, out', ho', hcap'⟩ := hr hzero
            exact ih (by omega) ho' hcap'
        · rw [if_neg hu]
          cases hsimple : simpleEscape e.toNat with
          | none => exact hfail
          | some u =>
            refine (ho.put (by rw [List.length_singleton]; omega)).bind fun o' ho' => ?_
            refine ih (by omega) ho' ?_
            rw [List.length_append, List.length_singleton]
            omega
      · rw [if_pos hslash]
        rw [hleft, literalTokens_cons hslash] at hcap
        refine (ho.put (by rw [List.length_singleton]; omega)).bind fun o' ho' => ?_
        refine ih (by omega) ho' ?_
        rw [List.length_append, List.length_singleton]
        omega
    · rw [if_neg hp]
      refine returns_ok fun o' ho' => ?_
      cases ho'
      exact ⟨out, ho, by omega⟩

/-- **The loop that sizes a literal** counts a backslash once with the character behind it. -/
theorem ParseBuffer.Inside.stringEndLoop_returns (h : b.Inside) {fuel i : Nat}
    (skipped : Nat) (hfuel : b.length - i < fuel) :
    Returns (stringEndLoop b fuel i skipped) fun r => ∀ e k, r = some (e, k) → e < b.length →
      i ≤ e ∧ e + skipped = i + literalTokens ((b.content.take e).drop i) + k := by
  have hlength := h.length
  induction fuel generalizing i skipped with
  | zero => exact absurd hfuel (Nat.not_lt_zero _)
  | succ fuel ih =>
    rw [stringEndLoop]
    by_cases hi : i < b.length
    · rw [if_pos hi]
      refine (cellLoad_returns (by omega)).bind fun c hc => ?_
      by_cases hquote : c = 0x22
      · rw [if_pos hquote]
        refine returns_ok fun e k hsome _ => ?_
        cases hsome
        have hnil : (b.content.take i).drop i = [] :=
          List.drop_eq_nil_of_le (List.length_take_le _ _)
        rw [hnil]
        exact ⟨Nat.le_refl _, rfl⟩
      · rw [if_neg hquote]
        by_cases hslash : c = 0x5C
        · rw [if_pos hslash]
          by_cases hlast : b.length ≤ i + 1
          · rw [if_pos hlast]
            exact returns_ok fun _ _ hnone => nomatch hnone
          · rw [if_neg hlast]
            refine (ih _ (i := i + 2) (by omega)).imp fun r hr e k hsome he => ?_
            obtain ⟨hle, hcount⟩ := hr e k hsome he
            obtain ⟨x, -, hx⟩ := cellLoad_returns (show i + 1 < b.content.length by omega)
            rw [drop_take_of_getElem (by omega) hc, hslash, drop_take_of_getElem (by omega) hx,
              literalTokens_escape]
            show i ≤ e ∧ e + skipped = i + (literalTokens ((b.content.take e).drop (i + 2)) + 1) + k
            omega
        · rw [if_neg hslash]
          refine (ih _ (i := i + 1) (by omega)).imp fun r hr e k hsome he => ?_
          obtain ⟨hle, hcount⟩ := hr e k hsome he
          rw [drop_take_of_getElem (by omega) hc, literalTokens_cons hslash]
          omega
    · rw [if_neg hi]
      refine returns_ok fun e k hsome he => ?_
      cases hsome
      exact absurd he hi

/-- **`parse_string`** returns, and moves behind the literal if it accepts it. -/
theorem ParseBuffer.Inside.parseString_returns (h : b.Inside) {fuel : Nat}
    (hfuel : b.length - b.offset < fuel) : Returns (parseString fuel b) (b.Parsed fun _ => 0) := by
  have hlength := h.length
  have hlt := h.offset_lt
  have hfail (p : Nat) :
      Returns (.ok ((none : Option CStr), { b with offset := p })) (b.Parsed fun _ => 0) :=
    returns_ok (ParseBuffer.parsed_none rfl)
  rw [parseString, ParseBuffer.atOffset]
  refine (cellLoad_returns (by omega)).bind fun c _ => ?_
  split
  · exact hfail _
  refine (h.stringEndLoop_returns 0 (i := b.offset + 1) (by omega)).bind
    fun r hr => ?_
  cases r with
  | none => exact hfail _
  | some found =>
    obtain ⟨e, k⟩ := found
    show Returns (if b.length ≤ e then _ else _) _
    by_cases hend : b.length ≤ e
    · rw [if_pos hend]
      exact hfail _
    · rw [if_neg hend]
      obtain ⟨hle, hcount⟩ := hr e k rfl (by omega)
      refine (cellLoad_returns (by omega)).bind fun q hq => ?_
      by_cases hquote : q ≠ 0x22
      · rw [if_pos hquote]
        exact hfail _
      · rw [if_neg hquote, parseStringBody]
        have hbehind : e + 1 < b.length :=
          h.lt_of_ne hq fun hzero => hquote.elim (by rw [hzero]; decide)
        refine (stringLoop_returns (by omega) (by omega) (wrote_nil _) ?_).bind fun r hr => ?_
        · show 0 + _ < _
          omega
        obtain ⟨ip, o⟩ := r
        cases o with
        | none => exact hfail _
        | some o =>
          obtain ⟨out, ho, hroom⟩ := hr o rfl
          have hnul : out.length + [(0 : UInt8)].length ≤ e - b.offset - k + 1 := hroom
          refine (ho.put hnul).bind fun o' _ => returns_ok (h.parsed_some ?_ rfl)
          exact ⟨rfl, rfl, rfl, by show b.offset + 1 ≤ e + 1; omega, hbehind⟩

/-! ### Arrays and objects -/

/-- A parser returns from every position that has at most `n` bytes before the end. -/
def ReturnsWithin (parseItem : ItemParser α) (nest : α → Nat) (n : Nat) : Prop :=
  ∀ b : ParseBuffer, b.Inside → b.length - b.offset ≤ n → Returns (parseItem b) (b.Parsed nest)

/-- A list that is accepted ends on its closing bracket, and its items are nested in the limit. -/
structure ParseBuffer.Listed (b : ParseBuffer) (nest : α → Nat)
    (r : Option (List α) × ParseBuffer) : Prop where
  /-- The length is kept, also by a failure. -/
  length : r.2.length = b.length
  /-- What is accepted. -/
  accepted : ∀ v, r.1 = some v → b.Onward 0 r.2 ∧ r.2.offset + 1 < r.2.length ∧
    ∀ x ∈ v, b.depth + nest x ≤ cjsonNestingLimit

/-- No list is accepted. -/
theorem ParseBuffer.listed_none {nest : α → Nat} (h : b'.length = b.length) :
    b.Listed nest (none, b') :=
  ⟨h, fun _ hv => nomatch hv⟩

/-- **The loop over the items**: each item moves on, so the bytes before the end bound the fuel. -/
theorem ParseBuffer.Inside.itemsLoop_returns (h : b.Inside) {parseItem : ItemParser α}
    {nest : α → Nat} {close : UInt8} (hclose : close ≠ 0) {fuel : Nat} {items : List α}
    (hitem : ReturnsWithin parseItem nest (b.length - b.offset - 1))
    (hitems : ∀ x ∈ items, b.depth + nest x ≤ cjsonNestingLimit)
    (hnext : b.offset + 1 < b.length) (hfuel : b.length - b.offset < fuel) :
    Returns (itemsLoop parseItem close fuel b items) (b.Listed nest) := by
  induction fuel generalizing b items with
  | zero => exact absurd hfuel (Nat.not_lt_zero _)
  | succ fuel ih =>
    have hmove : b.Onward 1 (b.advance 1) := onward_advance hnext
    have hadvance : (b.advance 1).length - (b.advance 1).offset = b.length - b.offset - 1 :=
      Nat.sub_add_eq _ _ _
    rw [itemsLoop]
    refine ((hmove.inside h).skip_returns (by omega)).bind fun b₁ hb₁ => ?_
    have hmove₁ := hmove.trans hb₁
    have hle₁ := hmove₁.le
    have hlen₁ := hmove₁.length
    refine (hitem b₁ (hmove₁.inside h) (by omega)).bind fun r hr => ?_
    obtain ⟨item, b₂⟩ := r
    cases item with
    | none => exact returns_ok (listed_none (hr.length.trans hlen₁))
    | some item =>
      obtain ⟨hparsed, hnest⟩ := hr.accepted item rfl
      have hmove₂ : b.Onward 2 b₂ := hmove₁.trans hparsed
      have hle₂ := hmove₂.le
      have hlen₂ : b₂.length = b.length := hmove₂.length
      refine ((hmove₂.inside h).skip_returns (by omega)).bind fun b₃ hb₃ => ?_
      have hmove₃ := hmove₂.trans hb₃
      have hle₃ := hmove₃.le
      have hlen₃ : b₃.length = b.length := hmove₃.length
      have hinside₃ := hmove₃.inside h
      have hitems' : ∀ x ∈ items ++ [item], b.depth + nest x ≤ cjsonNestingLimit := by
        intro x hx
        rcases List.mem_append.mp hx with hx | hx
        · exact hitems x hx
        · rw [List.mem_singleton.mp hx, ← hmove₁.depth]
          exact hnest
      refine (hinside₃.isAt_advance (p := (· == 0x2C)) rfl).bind fun comma hcomma => ?_
      cases comma with
      | true =>
        have hlt₃ : b₃.offset + 1 < b₃.length := hlen₃ ▸ (hcomma rfl).lt
        have hitem₃ : ReturnsWithin parseItem nest (b₃.length - b₃.offset - 1) :=
          fun b' hb' hle => hitem b' hb' (by omega)
        rw [← hmove₃.depth] at hitems'
        refine (ih hinside₃ hitem₃ hitems' hlt₃ (by omega)).imp
          fun r hr => ⟨hr.length.trans hlen₃, fun v hv => ?_⟩
        obtain ⟨honward, hbehind, hall⟩ := hr.accepted v hv
        rw [hmove₃.depth] at hall
        exact ⟨(hmove₃.trans honward).weaken (Nat.zero_le _), hbehind, hall⟩
      | false =>
        refine (hinside₃.isAt_advance (p := (· == close)) (beq_false_of_ne hclose.symm)).bind
          fun closed hclosed => ?_
        cases closed with
        | true =>
          refine returns_ok ⟨hlen₃, fun v hv => ?_⟩
          cases hv
          exact ⟨hmove₃.weaken (Nat.zero_le _), (hclosed rfl).lt, hitems'⟩
        | false => exact returns_ok (listed_none hlen₃)

/-- Looking for an opening bracket. -/
def Opens (opens : ParseBuffer → Exec Bool) : Prop :=
  ∀ b : ParseBuffer, b.Inside → Returns (opens b) fun r => r = true → b.Onward 1 (b.advance 1)

/-- An array is only looked for inside. -/
theorem opensArray_opens : Opens opensArray := by
  intro b hb
  refine (cellLoad_returns (i := b.offset + 0) (hb.length ▸ hb.offset_lt)).bind fun c hc => ?_
  refine returns_ok fun htrue => ParseBuffer.onward_advance (hb.lt_of_ne hc fun hzero => ?_)
  rw [hzero] at htrue
  cases htrue

/-- So is an object. -/
theorem opensObject_opens : Opens opensObject := fun _ hb => hb.isAt_advance rfl

/-- The list behind its opening bracket. -/
theorem ParseBuffer.Inside.parseItems_returns (h : b.Inside) {parseItem : ItemParser α}
    {nest : α → Nat} {opens : ParseBuffer → Exec Bool} (hopens : Opens opens) {close : UInt8}
    (hclose : close ≠ 0) {fuel : Nat}
    (hitem : ReturnsWithin parseItem nest (b.length - b.offset - 1))
    (hfuel : b.length - b.offset < fuel) :
    Returns (parseItems parseItem opens close fuel b) (b.Listed nest) := by
  rw [parseItems]
  refine (hopens b h).bind fun opened hopened => ?_
  cases opened with
  | false => exact returns_ok (listed_none rfl)
  | true =>
    have hmove := hopened rfl
    have hadvance : (b.advance 1).length - (b.advance 1).offset = b.length - b.offset - 1 :=
      Nat.sub_add_eq _ _ _
    refine ((hmove.inside h).skip_returns (by omega)).bind fun b₁ hb₁ => ?_
    have hmove₁ := hmove.trans hb₁
    have hle₁ := hmove₁.le
    have hlen₁ : b₁.length = b.length := hmove₁.length
    have hinside₁ := hmove₁.inside h
    have hread : b₁.CanAccessAtIndex 0 := hinside₁.offset_lt
    refine (hinside₁.isAt_advance (p := (· == close)) (beq_false_of_ne hclose.symm)).bind
      fun closed hclosed => ?_
    cases closed with
    | true =>
      refine returns_ok ⟨hlen₁, fun v hv => ?_⟩
      cases hv
      exact ⟨hmove₁.weaken (Nat.zero_le _), (hclosed rfl).lt, fun x hx => absurd hx List.not_mem_nil⟩
    | false =>
      rw [if_neg Bool.false_ne_true, if_neg (not_not_intro hread)]
      -- the loop starts in front of the first item
      have hback : b₁.back.offset = b₁.offset - 1 := rfl
      have hlenback : b₁.back.length = b₁.length := rfl
      have hmoveback : b.Onward 0 b₁.back :=
        ⟨hmove₁.content, hlen₁, hmove₁.depth, by omega, by have := hmove₁.lt; omega⟩
      have hitemback : ReturnsWithin parseItem nest (b₁.back.length - b₁.back.offset - 1) :=
        fun b' hb' hle => hitem b' hb' (by omega)
      refine ((hmoveback.inside h).itemsLoop_returns hclose hitemback ?_ ?_ ?_).imp
        fun r hr => ⟨hr.length.trans hlen₁, fun v hv => ?_⟩
      · exact fun x hx => absurd hx List.not_mem_nil
      · have := hmove₁.lt
        omega
      · omega
      · obtain ⟨honward, hbehind, hall⟩ := hr.accepted v hv
        rw [hmoveback.depth] at hall
        exact ⟨hmoveback.trans honward, hbehind, hall⟩

/-- A list and its nesting: the items are one level deeper. -/
theorem ParseBuffer.Inside.parseNested_returns (h : b.Inside) {parseItem : ItemParser α}
    {nest : α → Nat} {opens : ParseBuffer → Exec Bool} (hopens : Opens opens) {close : UInt8}
    (hclose : close ≠ 0) {fuel : Nat}
    (hitem : ReturnsWithin parseItem nest (b.length - b.offset - 1))
    (hfuel : b.length - b.offset < fuel) :
    Returns (parseNested parseItem opens close fuel b) fun r => r.2.length = b.length ∧
      ∀ v, r.1 = some v → b.Onward 1 r.2 ∧ b.depth < cjsonNestingLimit ∧
        ∀ x ∈ v, nest x ≤ cjsonNestingLimit - b.depth - 1 := by
  rw [parseNested]
  split
  · exact returns_ok ⟨rfl, fun _ hnone => nomatch hnone⟩
  rename_i hdepth
  have hdeep : ParseBuffer.Inside { b with depth := b.depth + 1 } :=
    ⟨h.length, h.offset_lt, h.nul, Nat.lt_of_not_le hdepth⟩
  refine (hdeep.parseItems_returns hopens hclose hitem hfuel).bind fun r hr => ?_
  obtain ⟨child, b'⟩ := r
  cases child with
  | none => exact returns_ok ⟨hr.length, fun _ hnone => nomatch hnone⟩
  | some child =>
    obtain ⟨⟨hcontent, hlength, hdepth', hle, hlt⟩, hbehind, hall⟩ := hr.accepted child rfl
    refine returns_ok ⟨hlength, fun v hv =>
      ⟨⟨hcontent, hlength, ?_, ?_, ?_⟩, Nat.lt_of_not_le hdepth, ?_⟩⟩
    · show b'.depth - 1 = b.depth
      rw [hdepth']
      rfl
    · exact Nat.succ_le_succ hle
    · exact hlength ▸ hbehind
    · cases hv
      intro x hx
      have hx' : b.depth + 1 + nest x ≤ cjsonNestingLimit := hall x hx
      omega

/-- A member of an object. -/
theorem parseMember_returns {parseValue : ItemParser (CjsonValue ν)} {fuel n : Nat}
    (hvalue : ReturnsWithin parseValue CjsonValue.nesting n) (hfuel : n < fuel) :
    ReturnsWithin (parseMember parseValue fuel) (fun m => m.2.nesting) n := by
  intro b h hn
  rw [parseMember]
  refine (h.parseString_returns (by omega)).bind fun r hr => ?_
  obtain ⟨string, b₁⟩ := r
  cases string with
  | none => exact returns_ok (ParseBuffer.parsed_none hr.length)
  | some string =>
    have hmove₁ : b.Onward 1 b₁ := (hr.accepted string rfl).1
    have hle₁ := hmove₁.le
    have hlen₁ := hmove₁.length
    refine ((hmove₁.inside h).skip_returns (by omega)).bind fun b₂ hb₂ => ?_
    have hmove₂ := hmove₁.trans hb₂
    have hle₂ := hmove₂.le
    have hlen₂ := hmove₂.length
    refine ((hmove₂.inside h).isAt_advance (p := (· == 0x3A)) rfl).bind fun colon hcolon => ?_
    cases colon with
    | false => exact returns_ok (ParseBuffer.parsed_none hlen₂)
    | true =>
      have hmove₃ := hmove₂.trans (hcolon rfl)
      have hadvance : (b₂.advance 1).length - (b₂.advance 1).offset
          = b₂.length - b₂.offset - 1 := Nat.sub_add_eq _ _ _
      refine ((hmove₃.inside h).skip_returns (by omega)).bind fun b₄ hb₄ => ?_
      have hmove₄ := hmove₃.trans hb₄
      have hle₄ := hmove₄.le
      have hlen₄ := hmove₄.length
      refine (hvalue b₄ (hmove₄.inside h) (by omega)).bind fun r hr => ?_
      obtain ⟨item, b₅⟩ := r
      refine returns_ok ⟨hr.length.trans hlen₄, fun v hv => ?_⟩
      obtain ⟨w, hw, rfl⟩ := Option.map_eq_some_iff.mp hv
      obtain ⟨hparsed, hnest⟩ := hr.accepted w hw
      rw [hmove₄.depth] at hnest
      exact ⟨(hmove₄.trans hparsed).weaken (Nat.le_add_left _ _), hnest⟩

/-! ### Values -/

/-- The nesting of a list is the greatest one. -/
theorem nestingArray_le {child : List (CjsonValue ν)} {k : Nat} (h : ∀ x ∈ child, x.nesting ≤ k) :
    nestingArray child ≤ k := by
  induction child with
  | nil => exact Nat.zero_le k
  | cons item next ih =>
    rw [nestingArray]
    exact Nat.max_le.mpr ⟨h item List.mem_cons_self, ih fun x hx => h x (List.mem_cons_of_mem _ hx)⟩

/-- The same for members. -/
theorem nestingObject_le {child : List (CStr × CjsonValue ν)} {k : Nat}
    (h : ∀ x ∈ child, x.2.nesting ≤ k) : nestingObject child ≤ k := by
  induction child with
  | nil => exact Nat.zero_le k
  | cons item next ih =>
    rw [nestingObject]
    exact Nat.max_le.mpr ⟨h item List.mem_cons_self, ih fun x hx => h x (List.mem_cons_of_mem _ hx)⟩

/-- **`parse_value` returns**: the fuel is spent on the nesting and on the loops, and both are
bounded by the bytes before the end. The induction is on the fuel. -/
theorem parseValue_returns {lib : NumberLib ν} (hlib : lib.Reads) {fuel n : Nat}
    (hfuel : n + 2 ≤ fuel) : ReturnsWithin (parseValue lib fuel) CjsonValue.nesting n := by
  induction fuel generalizing n with
  | zero => omega
  | succ fuel ih =>
    intro b h hn
    have hlt := h.offset_lt
    have hinner : ReturnsWithin (parseValue lib fuel) CjsonValue.nesting
        (b.length - b.offset - 1) := ih (by omega)
    rw [parseValue]
    refine (h.isWord_returns (asciiBytes "null") (by decide) (by decide)).bind
      fun isNull hnull => ?_
    cases isNull with
    | true => exact returns_ok (h.parsed_some ((hnull rfl).weaken (by decide)) rfl)
    | false =>
    refine (h.isWord_returns (asciiBytes "false") (by decide) (by decide)).bind
      fun isFalse hfalse => ?_
    cases isFalse with
    | true => exact returns_ok (h.parsed_some ((hfalse rfl).weaken (by decide)) rfl)
    | false =>
    refine (h.isWord_returns (asciiBytes "true") (by decide) (by decide)).bind
      fun isTrue htrue => ?_
    cases isTrue with
    | true => exact returns_ok (h.parsed_some ((htrue rfl).weaken (by decide)) rfl)
    | false =>
    refine (h.isAt_returns _).bind fun isString _ => ?_
    cases isString with
    | true =>
      refine (h.parseString_returns (by omega)).bind
        fun r hr => returns_ok ⟨hr.length, fun v hv => ?_⟩
      obtain ⟨w, hw, rfl⟩ := Option.map_eq_some_iff.mp hv
      exact hr.accepted w hw
    | false =>
    refine (h.isAt_returns _).bind fun isNumber _ => ?_
    cases isNumber with
    | true => exact h.parseNumber_returns hlib
    | false =>
    refine (h.isAt_returns _).bind fun isArray _ => ?_
    cases isArray with
    | true =>
      refine (h.parseNested_returns opensArray_opens (by decide) hinner (by omega)).bind
        fun r hr => returns_ok ⟨hr.1, fun v hv => ?_⟩
      obtain ⟨w, hw, rfl⟩ := Option.map_eq_some_iff.mp hv
      obtain ⟨hmove, hdepth, hall⟩ := hr.2 w hw
      have hle := nestingArray_le hall
      exact ⟨hmove, by rw [CjsonValue.nesting]; omega⟩
    | false =>
    refine (h.isAt_returns _).bind fun isObject _ => ?_
    cases isObject with
    | true =>
      have hmember := parseMember_returns hinner (show b.length - b.offset - 1 < fuel by omega)
      refine (h.parseNested_returns opensObject_opens (by decide) hmember (by omega)).bind
        fun r hr => returns_ok ⟨hr.1, fun v hv => ?_⟩
      obtain ⟨w, hw, rfl⟩ := Option.map_eq_some_iff.mp hv
      obtain ⟨hmove, hdepth, hall⟩ := hr.2 w hw
      have hle := nestingObject_le hall
      exact ⟨hmove, by rw [CjsonValue.nesting]; omega⟩
    | false => exact returns_ok (ParseBuffer.parsed_none rfl)

/-! ### More fuel -/

/-- The loop of `buffer_skip_whitespace`. -/
theorem skipWhitespaceLoop_extends (fuel : Nat) (b : ParseBuffer) :
    Extends (skipWhitespaceLoop fuel b) (skipWhitespaceLoop (fuel + 1) b) := by
  induction fuel generalizing b with
  | zero => exact extends_error _ _
  | succ fuel ih =>
    unfold skipWhitespaceLoop
    split
    · refine (Extends.refl _).bind fun c => ?_
      split
      · exact ih _
      · exact Extends.refl _
    · exact Extends.refl _

/-- `buffer_skip_whitespace`. -/
theorem bufferSkipWhitespace_extends (fuel : Nat) (b : ParseBuffer) :
    Extends (bufferSkipWhitespace fuel b) (bufferSkipWhitespace (fuel + 1) b) :=
  (skipWhitespaceLoop_extends fuel b).bind fun _ => Extends.refl _

/-- The first loop of `parse_string`. -/
theorem stringEndLoop_extends (b : ParseBuffer) (fuel i skipped : Nat) :
    Extends (stringEndLoop b fuel i skipped) (stringEndLoop b (fuel + 1) i skipped) := by
  induction fuel generalizing i skipped with
  | zero => exact extends_error _ _
  | succ fuel ih =>
    unfold stringEndLoop
    split
    · refine (Extends.refl _).bind fun c => ?_
      split
      · exact Extends.refl _
      split
      · split
        · exact Extends.refl _
        · exact ih _ _
      · exact ih _ _
    · exact Extends.refl _

/-- The second loop of `parse_string`. -/
theorem stringLoop_extends (content : List UInt8) (inputEnd fuel p : Nat) (o : ParseOutput) :
    Extends (stringLoop content inputEnd fuel p o) (stringLoop content inputEnd (fuel + 1) p o) := by
  induction fuel generalizing p o with
  | zero => exact extends_error _ _
  | succ fuel ih =>
    unfold stringLoop
    split
    · refine (Extends.refl _).bind fun c => ?_
      split
      · exact (Extends.refl _).bind fun _ => ih _ _
      split
      · exact Extends.refl _
      refine (Extends.refl _).bind fun e => ?_
      split
      · refine (Extends.refl _).bind fun r => ?_
        dsimp only
        split
        · exact Extends.refl _
        · exact ih _ _
      · split
        · exact (Extends.refl _).bind fun _ => ih _ _
        · exact Extends.refl _
    · exact Extends.refl _

/-- `parse_string`. -/
theorem parseString_extends (fuel : Nat) (b : ParseBuffer) :
    Extends (parseString fuel b) (parseString (fuel + 1) b) := by
  unfold parseString
  refine (Extends.refl _).bind fun c => ?_
  split
  · exact Extends.refl _
  refine (stringEndLoop_extends b fuel _ _).bind fun r => ?_
  split
  · exact Extends.refl _
  split
  · exact Extends.refl _
  refine (Extends.refl _).bind fun q => ?_
  split
  · exact Extends.refl _
  · exact (stringLoop_extends _ _ fuel _ _).bind fun _ => Extends.refl _

variable {parseItem parseItem' : ItemParser α} {opens : ParseBuffer → Exec Bool} {close : UInt8}

/-- The loop over items. -/
theorem itemsLoop_extends (hitem : ∀ b, Extends (parseItem b) (parseItem' b)) (fuel : Nat)
    (b : ParseBuffer) (items : List α) :
    Extends (itemsLoop parseItem close fuel b items)
      (itemsLoop parseItem' close (fuel + 1) b items) := by
  induction fuel generalizing b items with
  | zero => exact extends_error _ _
  | succ fuel ih =>
    unfold itemsLoop
    refine (bufferSkipWhitespace_extends fuel _).bind fun b₁ => ?_
    refine (hitem b₁).bind fun r => ?_
    obtain ⟨item, b₂⟩ := r
    cases item with
    | none => exact Extends.refl _
    | some item =>
      refine (bufferSkipWhitespace_extends fuel b₂).bind fun b₃ => ?_
      refine (Extends.refl _).bind fun comma => ?_
      cases comma with
      | true => exact ih b₃ _
      | false => exact Extends.refl _

/-- Lists. -/
theorem parseNested_extends (hitem : ∀ b, Extends (parseItem b) (parseItem' b)) (fuel : Nat)
    (b : ParseBuffer) :
    Extends (parseNested parseItem opens close fuel b)
      (parseNested parseItem' opens close (fuel + 1) b) := by
  unfold parseNested
  split
  · exact Extends.refl _
  refine Extends.bind ?_ fun _ => Extends.refl _
  unfold parseItems
  refine (Extends.refl _).bind fun opened => ?_
  cases opened with
  | false => exact Extends.refl _
  | true =>
    refine (bufferSkipWhitespace_extends fuel _).bind fun b₁ => ?_
    refine (Extends.refl _).bind fun closed => ?_
    cases closed with
    | true => exact Extends.refl _
    | false =>
      rw [if_neg Bool.false_ne_true, if_neg Bool.false_ne_true]
      split
      · exact Extends.refl _
      · exact itemsLoop_extends hitem fuel _ _

/-- Members. -/
theorem parseMember_extends {parseValue parseValue' : ItemParser (CjsonValue ν)}
    (hvalue : ∀ b, Extends (parseValue b) (parseValue' b)) (fuel : Nat) (b : ParseBuffer) :
    Extends (parseMember parseValue fuel b) (parseMember parseValue' (fuel + 1) b) := by
  unfold parseMember
  refine (parseString_extends fuel b).bind fun r => ?_
  obtain ⟨string, b₁⟩ := r
  cases string with
  | none => exact Extends.refl _
  | some string =>
    refine (bufferSkipWhitespace_extends fuel b₁).bind fun b₂ => ?_
    refine (Extends.refl _).bind fun colon => ?_
    cases colon with
    | false => exact Extends.refl _
    | true =>
      refine (bufferSkipWhitespace_extends fuel _).bind fun b₃ => ?_
      exact (hvalue b₃).bind fun _ => Extends.refl _

/-- **`parse_value`**. The induction is on the fuel. -/
theorem parseValue_extends (lib : NumberLib ν) (fuel : Nat) (b : ParseBuffer) :
    Extends (parseValue lib fuel b) (parseValue lib (fuel + 1) b) := by
  induction fuel generalizing b with
  | zero => exact extends_error _ _
  | succ fuel ih =>
    unfold parseValue
    refine (Extends.refl _).bind fun isNull => ?_
    cases isNull with
    | true => exact Extends.refl _
    | false =>
    refine (Extends.refl _).bind fun isFalse => ?_
    cases isFalse with
    | true => exact Extends.refl _
    | false =>
    refine (Extends.refl _).bind fun isTrue => ?_
    cases isTrue with
    | true => exact Extends.refl _
    | false =>
    refine (Extends.refl _).bind fun isString => ?_
    cases isString with
    | true => exact (parseString_extends fuel b).bind fun _ => Extends.refl _
    | false =>
    refine (Extends.refl _).bind fun isNumber => ?_
    cases isNumber with
    | true => exact Extends.refl _
    | false =>
    refine (Extends.refl _).bind fun isArray => ?_
    cases isArray with
    | true => exact (parseNested_extends ih fuel b).bind fun _ => Extends.refl _
    | false =>
    refine (Extends.refl _).bind fun isObject => ?_
    cases isObject with
    | true =>
      exact (parseNested_extends (parseMember_extends ih fuel) fuel b).bind fun _ => Extends.refl _
    | false => exact Extends.refl _

/-- `cJSON_ParseWithOpts`. -/
theorem cjsonParseWithOpts_extends (lib : NumberLib ν) (fuel : Nat) (value : Option CStr)
    (returnParseEnd requireNullTerminated : Bool) :
    Extends (cjsonParseWithOpts lib fuel value returnParseEnd requireNullTerminated)
      (cjsonParseWithOpts lib (fuel + 1) value returnParseEnd requireNullTerminated) := by
  cases value with
  | none => exact Extends.refl _
  | some value =>
    unfold cjsonParseWithOpts
    refine (bufferSkipWhitespace_extends fuel _).bind fun b => ?_
    refine (parseValue_extends lib fuel b).bind fun r => ?_
    obtain ⟨item, b'⟩ := r
    cases item with
    | none => exact Extends.refl _
    | some item =>
      cases requireNullTerminated with
      | true => exact (bufferSkipWhitespace_extends fuel b').bind fun _ => Extends.refl _
      | false => exact Extends.refl _

/-! ### Texts -/

/-- What a parse leaves: the end of the text, or the place of an error, is in the string or its NUL,
and an item that is returned is not nested too deep. -/
structure ParseResult.Sound (value : CStr) (r : ParseResult ν) : Prop where
  /-- `*return_parse_end`. -/
  returnParseEnd_le : ∀ p, r.returnParseEnd = some p → p ≤ strlen value
  /-- `cJSON_GetErrorPtr`. -/
  globalError_le : ∀ p, r.globalError = some p → p ≤ strlen value
  /-- The nesting of the item. -/
  nesting_le : ∀ v, r.item = some v → v.nesting ≤ cjsonNestingLimit

/-- A failed parse. -/
theorem parseFail_sound {value : CStr} (hlength : b.length = strlen value + 1)
    (returnParseEnd : Bool) : (parseFail b returnParseEnd : ParseResult ν).Sound value := by
  have hposition : (if b.offset < b.length then b.offset
      else if 0 < b.length then b.length - 1 else 0) ≤ strlen value := by
    split
    · omega
    · split <;> omega
  have hlt {p q : Nat} (hp : some q = some p) (hq : q ≤ strlen value) : p ≤ strlen value :=
    Option.some.inj hp ▸ hq
  rw [parseFail]
  cases returnParseEnd with
  | true =>
    exact ⟨fun p hp => hlt hp hposition, fun _ hp => (nomatch hp), fun _ hv => nomatch hv⟩
  | false =>
    exact ⟨fun _ hp => (nomatch hp), fun p hp => hlt hp hposition, fun _ hv => nomatch hv⟩

/-- The buffer that a parse begins with. -/
theorem inside_start (value : CStr) : ParseBuffer.Inside
    { content := value.bytes ++ [0], length := strlen value + 1, offset := 0, depth := 0 } where
  length := by rw [List.length_append, strlen, List.length_singleton]
  offset_lt := Nat.succ_pos _
  nul := by rw [strlen, Nat.add_sub_cancel, List.getElem?_concat_length]
  depth_le := Nat.zero_le _

/-- **The parser is safe on every string**: with enough fuel it returns, whatever the string holds.
-/
theorem cjsonParseWithOpts_settles {lib : NumberLib ν} (hlib : lib.Reads) (value : CStr)
    (returnParseEnd requireNullTerminated : Bool) :
    Settles (fun fuel => cjsonParseWithOpts lib fuel (some value) returnParseEnd
      requireNullTerminated) (ParseResult.Sound value) := by
  refine settles_of_returns (N := strlen value + 3) (fun fuel hfuel => ?_) fun fuel =>
    cjsonParseWithOpts_extends lib fuel _ _ _
  have hstart := inside_start value
  rw [cjsonParseWithOpts]
  refine (hstart.skip_returns (show strlen value + 1 - 0 < fuel by omega)).bind fun b hb => ?_
  have hinside := hb.inside hstart
  have hlength : b.length = strlen value + 1 := hb.length
  refine (parseValue_returns hlib (n := strlen value + 1) (by omega) b hinside (by omega)).bind
    fun r hr => ?_
  obtain ⟨item, b₁⟩ := r
  have hlength₁ : b₁.length = strlen value + 1 := hr.length.trans hlength
  cases item with
  | none => exact returns_ok (parseFail_sound hlength₁ returnParseEnd)
  | some item =>
    obtain ⟨hmove, hnest⟩ := hr.accepted item rfl
    have hitem : item.nesting ≤ cjsonNestingLimit :=
      Nat.le_trans (Nat.le_add_left _ _) hnest
    have hinside₁ : b₁.Inside := hmove.inside hinside
    have hsound {b' : ParseBuffer} (hlt : b'.offset < strlen value + 1) : ParseResult.Sound value
        { item := some item, returnParseEnd := if returnParseEnd then some b'.offset else none,
          globalError := none } := by
      refine ⟨fun p hp => ?_, fun _ hp => (nomatch hp), fun v hv => Option.some.inj hv ▸ hitem⟩
      cases returnParseEnd with
      | true =>
        cases hp
        omega
      | false => exact nomatch hp
    have hoffset₁ := hinside₁.offset_lt
    cases requireNullTerminated with
    | false => exact returns_ok (hsound (by omega))
    | true =>
      refine (hinside₁.skip_returns (by omega)).bind fun b₂ hb₂ => ?_
      have hlength₂ : b₂.length = strlen value + 1 := hb₂.length.trans hlength₁
      have hoffset₂ := (hb₂.inside hinside₁).offset_lt
      refine ((hb₂.inside hinside₁).isAt_returns _).bind fun ended _ => returns_ok ?_
      cases ended with
      | true => exact hsound (by omega)
      | false => exact parseFail_sound hlength₂ returnParseEnd

/-- Numbers of one digit. -/
def digitLib : NumberLib (Fin 10) where
  strtod
    | c :: _ => if 0x30 ≤ c ∧ c ≤ 0x39 then (Fin.ofNat 10 (c.toNat - 0x30), 1) else (0, 0)
    | [] => (0, 0)
  decimalPoint := 0x2E

/-- One digit is read from one character. -/
theorem digitLib_reads : digitLib.Reads := by
  intro s
  cases s with
  | nil => exact Nat.le_refl 0
  | cons c cs =>
    show (if 0x30 ≤ c ∧ c ≤ 0x39 then (Fin.ofNat 10 (c.toNat - 0x30), 1) else (0, 0)).2 ≤ _
    split
    · exact Nat.succ_le_succ (Nat.zero_le _)
    · exact Nat.zero_le _

/-- A literal whose second loop ends behind its closing quotation mark. -/
theorem cjsonParseWithOpts_settles_misaligned :
    Settles (fun fuel => cjsonParseWithOpts digitLib fuel
      (some ⟨[0x22, 0x5C, 0x75, 0x31, 0x32, 0x33, 0x5C, 0x5C, 0x22], by decide⟩) true true)
      (ParseResult.Sound ⟨[0x22, 0x5C, 0x75, 0x31, 0x32, 0x33, 0x5C, 0x5C, 0x22], by decide⟩) :=
  cjsonParseWithOpts_settles digitLib_reads _ true true

end Wee
