import Wee.Base.CjsonParseSafe

/-! # String literals (`base/cJSON.c`)

A string literal is a list of pieces: characters as they are, escapes of two characters, and UTF-16
literals of one or two units. `parse_string` reads every such literal and returns the bytes that its
pieces stand for, in UTF-8; the string ends at the first of them that is NUL. -/

namespace Wee

/-! ### Pieces -/

/-- Four hexadecimal digits. -/
structure HexUnit where
  /-- The digits. -/
  (a b c d : UInt8)
  /-- What they stand for. -/
  value : Nat
  /-- They stand for it. -/
  wf : hexUnit a.toNat b.toNat c.toNat d.toNat = some value

/-- `\uXXXX`. -/
def HexUnit.text (u : HexUnit) : List UInt8 := [0x5C, 0x75, u.a, u.b, u.c, u.d]

/-- A piece of a literal. -/
inductive StringPiece
  /-- A character as it is. -/
  | plain (c : UInt8) (h : c ≠ 0 ∧ c ≠ 0x22 ∧ c ≠ 0x5C)
  /-- The escape `e` of the character `c`. -/
  | simple (e c : UInt8) (h : simpleEscape e.toNat = some c.toNat)
  /-- A character of one unit. -/
  | unit (u : HexUnit) (c : Utf8Char) (h : utf16 c.code = [u.value])
  /-- A character of two units. -/
  | pair (high low : HexUnit) (c : Utf8Char) (h : utf16 c.code = [high.value, low.value])

/-- How a piece is written. -/
def StringPiece.text : StringPiece → List UInt8
  | plain c _ => [c]
  | simple e _ _ => [0x5C, e]
  | unit u _ _ => u.text
  | pair high low _ _ => high.text ++ low.text

/-- The bytes a piece stands for. -/
def StringPiece.bytes : StringPiece → List UInt8
  | plain c _ => [c]
  | simple _ c _ => [c]
  | unit _ c _ => c.bytes
  | pair _ _ c _ => c.bytes

/-- How a string is written, without the quotation marks. -/
def piecesText (s : List StringPiece) : List UInt8 := s.flatMap StringPiece.text

/-- The bytes a string stands for. -/
def piecesBytes (s : List StringPiece) : List UInt8 := s.flatMap StringPiece.bytes

@[simp] theorem piecesText_nil : piecesText [] = [] := rfl

@[simp] theorem piecesText_cons (p : StringPiece) (s : List StringPiece) :
    piecesText (p :: s) = p.text ++ piecesText s := rfl

@[simp] theorem piecesBytes_nil : piecesBytes [] = [] := rfl

@[simp] theorem piecesBytes_cons (p : StringPiece) (s : List StringPiece) :
    piecesBytes (p :: s) = p.bytes ++ piecesBytes s := rfl

/-! ### UTF-8 -/

/-- A continuation byte keeps six bits. -/
theorem utf8Tail_bits (codepoint : Nat) :
    (codepoint ||| 0x80) &&& 0xBF = 0x80 + codepoint % 64 := by
  have hall : ∀ c < 256, (c ||| 0x80) &&& 0xBF = 0x80 + c % 64 := by decide +kernel
  have hlow : (codepoint ||| 0x80) &&& 0xBF = ((codepoint % 256) ||| 0x80) &&& 0xBF := by
    have hmask : ∀ x : Nat, x &&& 0xBF = x % 256 &&& 0xBF := by
      intro x
      rw [show x % 256 = x &&& 0xFF from (Nat.and_two_pow_sub_one_eq_mod x 8).symm, Nat.and_assoc]
      rfl
    rw [hmask, show (256 : Nat) = 2 ^ 8 from rfl, Nat.or_mod_two_pow]
  rw [hlow, hall _ (Nat.mod_lt _ (by decide))]
  omega

/-- A lead byte keeps the bits that its mark leaves. -/
theorem utf8Lead_bits : ∀ c < 32, ((c ||| 0xC0) &&& 0xFF = 0xC0 + c) ∧
    (c < 16 → (c ||| 0xE0) &&& 0xFF = 0xE0 + c) ∧ (c < 8 → (c ||| 0xF0) &&& 0xFF = 0xF0 + c) := by
  decide +kernel

/-- A byte by its number. -/
theorem ofNat_eq {b : UInt8} {n : Nat} (h : b.toNat = n) : UInt8.ofNat n = b := by
  rw [← h, UInt8.ofNat_toNat]

/-- **The bytes of a code point** are those of its character. -/
theorem encodeUtf8_code (c : Utf8Char) : encodeUtf8 c.code = some c.bytes := by
  have hform := c.form
  obtain ⟨bytes, hwf⟩ := c
  dsimp only at hform ⊢
  unfold encodeUtf8
  cases hform with
  | one ha =>
    rename_i a
    have hcode : Utf8Char.code ⟨[a], hwf⟩ = a.toNat := rfl
    have hmask : a.toNat &&& 0x7F = a.toNat := by
      rw [show (0x7F : Nat) = 2 ^ 7 - 1 from rfl, Nat.and_two_pow_sub_one_eq_mod]
      exact Nat.mod_eq_of_lt ha
    rw [hcode, if_pos ha, hmask, UInt8.ofNat_toNat]
  | two hlo hhi hb =>
    rename_i a b
    obtain ⟨hblo, hbhi⟩ := hb
    have hcode : Utf8Char.code ⟨[a, b], hwf⟩ = a.toNat % 0x20 * 0x40 + b.toNat % 0x40 := rfl
    generalize Utf8Char.code ⟨[a, b], hwf⟩ = code at hcode ⊢
    rw [if_neg (by omega), if_pos (by omega)]
    simp only [utf8Tails, utf8Tail_bits, Nat.shiftRight_eq_div_pow, Nat.reducePow]
    rw [(utf8Lead_bits (code / 64) (by omega)).1, ofNat_eq (b := a) (by omega),
      ofNat_eq (b := b) (by omega)]
  | three hlo hhi hb hc hE0 hED =>
    rename_i a b c
    obtain ⟨hblo, hbhi⟩ := hb
    obtain ⟨hclo, hchi⟩ := hc
    have hcode : Utf8Char.code ⟨[a, b, c], hwf⟩
        = (a.toNat % 0x10 * 0x40 + b.toNat % 0x40) * 0x40 + c.toNat % 0x40 := rfl
    generalize Utf8Char.code ⟨[a, b, c], hwf⟩ = code at hcode ⊢
    rw [if_neg (by omega), if_neg (by omega), if_pos (by omega)]
    simp only [utf8Tails, utf8Tail_bits, Nat.shiftRight_eq_div_pow, Nat.reducePow]
    rw [(utf8Lead_bits (code / 64 / 64) (by omega)).2.1 (by omega), ofNat_eq (b := a) (by omega),
      ofNat_eq (b := b) (by omega), ofNat_eq (b := c) (by omega)]
  | four hlo hhi hb hc hd hF0 hF4 =>
    rename_i a b c d
    obtain ⟨hblo, hbhi⟩ := hb
    obtain ⟨hclo, hchi⟩ := hc
    obtain ⟨hdlo, hdhi⟩ := hd
    have hcode : Utf8Char.code ⟨[a, b, c, d], hwf⟩ = ((a.toNat % 0x08 * 0x40 + b.toNat % 0x40) * 0x40
        + c.toNat % 0x40) * 0x40 + d.toNat % 0x40 := rfl
    generalize Utf8Char.code ⟨[a, b, c, d], hwf⟩ = code at hcode ⊢
    rw [if_neg (by omega), if_neg (by omega), if_neg (by omega), if_pos (by omega)]
    simp only [utf8Tails, utf8Tail_bits, Nat.shiftRight_eq_div_pow, Nat.reducePow]
    rw [(utf8Lead_bits (code / 64 / 64 / 64) (by omega)).2.2 (by omega),
      ofNat_eq (b := a) (by omega), ofNat_eq (b := b) (by omega), ofNat_eq (b := c) (by omega),
      ofNat_eq (b := d) (by omega)]

/-! ### UTF-16 literals -/

/-- Loading from what stands at a position. -/
theorem cellLoad_of_drop {content l : List UInt8} {p j : Nat} {c : UInt8} (h : content.drop p = l)
    (hj : l[j]? = some c) : cellLoad content (p + j) = .ok c := by
  rw [← h, List.getElem?_drop] at hj
  exact cellLoad_of_some hj

/-- A digit of `parse_hex4` that is not the last one. -/
theorem parseHex4_shift {content : List UInt8} {n p h d : Nat} {c : UInt8}
    (hload : cellLoad content p = .ok c) (hd : hexDigit c.toNat = some d) :
    parseHex4 content (n + 2) p h = parseHex4 content (n + 1) (p + 1) ((h + d) * 16) := by
  rw [parseHex4, hload, exec_ok_bind, hd]
  dsimp only
  rw [if_neg (Nat.succ_ne_zero n), Nat.shiftLeft_eq]

/-- The last digit. -/
theorem parseHex4_last {content : List UInt8} {p h d : Nat} {c : UInt8}
    (hload : cellLoad content p = .ok c) (hd : hexDigit c.toNat = some d) :
    parseHex4 content 1 p h = .ok (h + d) := by
  rw [parseHex4, hload, exec_ok_bind, hd]
  dsimp only
  rw [if_pos rfl, parseHex4]

/-- **`parse_hex4`** on four digits. -/
theorem HexUnit.parseHex4_eq (u : HexUnit) {content rest : List UInt8} {p : Nat}
    (h : content.drop p = u.text ++ rest) : parseHex4 content 4 (p + 2) 0 = .ok u.value := by
  obtain ⟨a, b, c, d, value, hwf⟩ := u
  have hload {j : Nat} {x : UInt8} (hj : ([0x5C, 0x75, a, b, c, d] ++ rest)[j]? = some x) :
      cellLoad content (p + j) = .ok x := cellLoad_of_drop h hj
  obtain ⟨a', ha, hvalue⟩ := Option.bind_eq_some_iff.mp hwf
  obtain ⟨b', hb, hvalue⟩ := Option.bind_eq_some_iff.mp hvalue
  obtain ⟨c', hc, hvalue⟩ := Option.bind_eq_some_iff.mp hvalue
  obtain ⟨d', hd, hvalue⟩ := Option.bind_eq_some_iff.mp hvalue
  have hvalue : a' * 0x1000 + b' * 0x100 + c' * 0x10 + d' = value := Option.some.inj hvalue
  rw [parseHex4_shift (hload (j := 2) rfl) ha, parseHex4_shift (hload (j := 3) rfl) hb,
    parseHex4_shift (hload (j := 4) rfl) hc, parseHex4_last (hload (j := 5) rfl) hd]
  refine congrArg Except.ok ?_
  show _ = value
  omega

/-- A literal of one unit. -/
theorem utf16Codepoint_unit (u : HexUnit) (c : Utf8Char) (hc : utf16 c.code = [u.value])
    {content rest : List UInt8} {p inputEnd : Nat} (h : content.drop p = u.text ++ rest)
    (hend : p + 6 ≤ inputEnd) :
    utf16Codepoint content p inputEnd = .ok (some (c.code, 6)) := by
  have hcode : c.code = u.value := by
    rw [utf16] at hc
    split at hc
    · exact List.singleton_inj.mp hc
    · exact absurd (congrArg List.length hc) (by simp)
  have hsurrogate := c.code_not_surrogate
  rw [utf16Codepoint, if_neg (by omega), u.parseHex4_eq h, exec_ok_bind, if_neg (by omega),
    if_neg (by omega), hcode]
  rfl

/-- The ten low bits of a surrogate. -/
theorem surrogate_low_bits {n : Nat} (h : n < 0x400) :
    (0xD800 + n) &&& 0x3FF = n ∧ (0xDC00 + n) &&& 0x3FF = n := by
  have hmask (x : Nat) : x &&& 0x3FF = x % 0x400 := Nat.and_two_pow_sub_one_eq_mod x 10
  rw [hmask, hmask]
  omega

/-- **A literal of two units**. -/
theorem utf16Codepoint_pair (high low : HexUnit) (c : Utf8Char)
    (hc : utf16 c.code = [high.value, low.value]) {content rest : List UInt8} {p inputEnd : Nat}
    (h : content.drop p = high.text ++ (low.text ++ rest)) (hend : p + 12 ≤ inputEnd) :
    utf16Codepoint content p inputEnd = .ok (some (c.code, 12)) := by
  have hmax := c.code_lt
  have hvalues : high.value = 0xD800 + (c.code - 0x10000) / 0x400
      ∧ low.value = 0xDC00 + (c.code - 0x10000) % 0x400 ∧ 0x10000 ≤ c.code := by
    rw [utf16] at hc
    split at hc
    · exact absurd (congrArg List.length hc) (by simp)
    · rename_i hge
      obtain ⟨hhigh, hlow⟩ := List.cons.inj hc
      exact ⟨hhigh.symm, (List.singleton_inj.mp hlow).symm, Nat.le_of_not_lt hge⟩
  obtain ⟨hhigh, hlow, hge⟩ := hvalues
  have hsecond : content.drop (p + 6) = low.text ++ rest := by
    rw [← List.drop_drop, h]
    rfl
  have hbits : (c.code - 0x10000) / 0x400 * 2 ^ 10 ||| (c.code - 0x10000) % 0x400
      = c.code - 0x10000 := by
    rw [← Nat.shiftLeft_eq, ← Nat.shiftLeft_add_eq_or_of_lt (by omega), Nat.shiftLeft_eq]
    omega
  rw [utf16Codepoint, if_neg (by omega), high.parseHex4_eq h, exec_ok_bind, if_neg (by omega),
    if_pos (by omega), if_neg (by omega), cellLoad_of_drop (j := 0) hsecond rfl, exec_ok_bind,
    if_neg (by decide), cellLoad_of_drop (j := 1) hsecond rfl, exec_ok_bind, if_neg (by decide),
    low.parseHex4_eq hsecond, exec_ok_bind, if_neg (by omega), hhigh, hlow,
    (surrogate_low_bits (by omega)).1, (surrogate_low_bits (by omega)).2, Nat.shiftLeft_eq, hbits,
    Nat.add_sub_cancel' hge]
  rfl

/-- A literal that is found is stored. -/
theorem utf16LiteralToUtf8_found {content : List UInt8} {p inputEnd len : Nat} {c : Utf8Char}
    {o o' : ParseOutput} (hfound : utf16Codepoint content p inputEnd = .ok (some (c.code, len)))
    (hput : o.put c.bytes = .ok o') : utf16LiteralToUtf8 content p inputEnd o = .ok (len, o') := by
  rw [utf16LiteralToUtf8, hfound, exec_ok_bind]
  dsimp only
  rw [encodeUtf8_code]
  dsimp only
  rw [hput, exec_ok_bind]
  rfl

/-! ### The loops of `parse_string` -/

variable {content rest out : List UInt8} {inputEnd fuel p cap : Nat} {o o' : ParseOutput}

/-- A character as it is. -/
theorem stringLoop_plain {c : UInt8} (hload : cellLoad content p = .ok c) (hp : p < inputEnd)
    (hc : c ≠ 0x5C) (hput : o.put [c] = .ok o') :
    stringLoop content inputEnd (fuel + 1) p o = stringLoop content inputEnd fuel (p + 1) o' := by
  rw [stringLoop, if_pos hp, hload, exec_ok_bind, if_pos hc, hput, exec_ok_bind]

/-- An escape of two characters. -/
theorem stringLoop_simple {e c : UInt8} (hload : cellLoad content p = .ok 0x5C)
    (hnext : cellLoad content (p + 1) = .ok e) (hp : p < inputEnd)
    (he : simpleEscape e.toNat = some c.toNat) (hput : o.put [c] = .ok o') :
    stringLoop content inputEnd (fuel + 1) p o = stringLoop content inputEnd fuel (p + 2) o' := by
  have hu : e ≠ 0x75 := by
    intro heq
    rw [heq] at he
    exact absurd he (by simp [simpleEscape])
  rw [stringLoop, if_pos hp, hload, exec_ok_bind, if_neg (not_not_intro rfl),
    if_neg (by omega), hnext, exec_ok_bind, if_neg hu, he]
  dsimp only
  rw [UInt8.ofNat_toNat, hput, exec_ok_bind]

/-- A UTF-16 literal. -/
theorem stringLoop_literal {len : Nat} {c : Utf8Char} (hload : cellLoad content p = .ok 0x5C)
    (hnext : cellLoad content (p + 1) = .ok 0x75) (hp : p < inputEnd) (hlen : len ≠ 0)
    (hfound : utf16Codepoint content p inputEnd = .ok (some (c.code, len)))
    (hput : o.put c.bytes = .ok o') :
    stringLoop content inputEnd (fuel + 1) p o = stringLoop content inputEnd fuel (p + len) o' := by
  rw [stringLoop, if_pos hp, hload, exec_ok_bind, if_neg (not_not_intro rfl),
    if_neg (by omega), hnext, exec_ok_bind, if_pos rfl, utf16LiteralToUtf8_found hfound hput,
    exec_ok_bind]
  dsimp only
  rw [if_neg hlen]

/-- **A piece** is read in one round, and its bytes are stored. -/
theorem stringLoop_piece (piece : StringPiece) (h : content.drop p = piece.text ++ rest)
    (hend : p + piece.text.length ≤ inputEnd) (ho : o.Wrote cap out)
    (hfits : out.length + piece.bytes.length ≤ cap) :
    ∃ o', o'.Wrote cap (out ++ piece.bytes) ∧ ∀ fuel, stringLoop content inputEnd (fuel + 1) p o
      = stringLoop content inputEnd fuel (p + piece.text.length) o' := by
  obtain ⟨o', hput, ho'⟩ := ho.put hfits
  refine ⟨o', ho', fun fuel => ?_⟩
  cases piece with
  | plain c hc =>
    have hload : cellLoad content p = .ok c := cellLoad_of_drop (j := 0) h rfl
    exact stringLoop_plain hload hend hc.2.2 hput
  | simple e c he =>
    have hload : cellLoad content p = .ok 0x5C := cellLoad_of_drop (j := 0) h rfl
    have hnext : cellLoad content (p + 1) = .ok e := cellLoad_of_drop (j := 1) h rfl
    exact stringLoop_simple hload hnext (Nat.lt_of_succ_lt hend) he hput
  | unit u c hc =>
    have hload : cellLoad content p = .ok 0x5C := cellLoad_of_drop (j := 0) h rfl
    have hnext : cellLoad content (p + 1) = .ok 0x75 := cellLoad_of_drop (j := 1) h rfl
    have hsix : p + 6 ≤ inputEnd := hend
    exact stringLoop_literal hload hnext (by omega) (show 6 ≠ 0 by decide)
      (utf16Codepoint_unit u c hc h hsix) hput
  | pair high low c hc =>
    have hload : cellLoad content p = .ok 0x5C := cellLoad_of_drop (j := 0) h rfl
    have hnext : cellLoad content (p + 1) = .ok 0x75 := cellLoad_of_drop (j := 1) h rfl
    have htwelve : p + 12 ≤ inputEnd := hend
    have hpair : content.drop p = high.text ++ (low.text ++ rest) := h
    exact stringLoop_literal hload hnext (by omega) (show 12 ≠ 0 by decide)
      (utf16Codepoint_pair high low c hc hpair htwelve) hput

/-- A piece is counted for at least as many characters as it has bytes. -/
theorem literalTokens_piece (piece : StringPiece) (cs : List UInt8) :
    piece.bytes.length + literalTokens cs ≤ literalTokens (piece.text ++ cs) := by
  cases piece with
  | plain c hc =>
    show 1 + literalTokens cs ≤ literalTokens (c :: cs)
    rw [literalTokens_cons hc.2.2, Nat.add_comm]
  | simple e c he =>
    show 1 + literalTokens cs ≤ literalTokens (0x5C :: e :: cs)
    rw [literalTokens_escape, Nat.add_comm]
  | unit u c hc =>
    have hsix : 6 ≤ (u.text ++ cs).length := Nat.le_add_left 6 cs.length
    have hdrop := literalTokens_drop (show 6 = 2 * 3 from rfl) hsix
    have hcode : c.code < 0x10000 := by
      rw [utf16] at hc
      split at hc
      · assumption
      · exact absurd (congrArg List.length hc) (by simp)
    have hlen := (length_encodeUtf8 (encodeUtf8_code c)).2 hcode
    have hrest : (u.text ++ cs).drop 6 = cs := rfl
    rw [hrest] at hdrop
    show c.bytes.length + literalTokens cs ≤ literalTokens (u.text ++ cs)
    omega
  | pair high low c hc =>
    have htwelve : 12 ≤ (high.text ++ low.text ++ cs).length := Nat.le_add_left 12 cs.length
    have hdrop := literalTokens_drop (show 12 = 2 * 6 from rfl) htwelve
    have hlen := (length_encodeUtf8 (encodeUtf8_code c)).1
    have hrest : (high.text ++ low.text ++ cs).drop 12 = cs := rfl
    rw [hrest] at hdrop
    show c.bytes.length + literalTokens cs ≤ literalTokens (high.text ++ low.text ++ cs)
    omega

/-- A string is counted for as many characters as it has bytes, or more. -/
theorem literalTokens_pieces (s : List StringPiece) :
    (piecesBytes s).length ≤ literalTokens (piecesText s) := by
  induction s with
  | nil => exact Nat.le_refl 0
  | cons piece s ih =>
    have hpiece := literalTokens_piece piece (piecesText s)
    rw [piecesBytes_cons, piecesText_cons, List.length_append]
    omega

/-- **The loop over a literal** stores the bytes of its pieces. The induction is on the pieces. -/
theorem stringLoop_pieces (s : List StringPiece)
    (h : content.drop p = piecesText s ++ rest) (hend : p + (piecesText s).length = inputEnd)
    (ho : o.Wrote cap out) (hfits : out.length + (piecesBytes s).length ≤ cap)
    (hfuel : s.length < fuel) :
    ∃ o', o'.Wrote cap (out ++ piecesBytes s)
      ∧ stringLoop content inputEnd fuel p o = .ok (inputEnd, some o') := by
  induction s generalizing p o out fuel with
  | nil =>
    obtain ⟨fuel, rfl⟩ := Nat.exists_eq_succ_of_ne_zero (Nat.ne_of_gt hfuel)
    have hp : p = inputEnd := hend
    refine ⟨o, by rwa [piecesBytes_nil, List.append_nil], ?_⟩
    rw [stringLoop, if_neg (by omega), hp]
  | cons piece s ih =>
    obtain ⟨fuel, rfl⟩ := Nat.exists_eq_succ_of_ne_zero (Nat.ne_of_gt (Nat.zero_lt_of_lt hfuel))
    rw [piecesText_cons] at h hend
    rw [piecesBytes_cons] at hfits ⊢
    rw [List.append_assoc] at h
    rw [List.length_append] at hend hfits
    have hle : p + piece.text.length ≤ inputEnd := by omega
    obtain ⟨o₁, ho₁, hround⟩ := stringLoop_piece piece h hle ho (by omega)
    have hnext : content.drop (p + piece.text.length) = piecesText s ++ rest := by
      rw [← List.drop_drop, h, List.drop_left]
    obtain ⟨o', ho', hloop⟩ := ih hnext (by omega) ho₁ (by rw [List.length_append]; omega)
      (Nat.lt_of_succ_lt_succ hfuel)
    exact ⟨o', by rwa [List.append_assoc] at ho', (hround fuel).trans hloop⟩

/-- A text in which every backslash stands in front of another character, and in which a quotation
mark only stands behind a backslash. -/
inductive Escaped : List UInt8 → Prop
  /-- The empty text. -/
  | nil : Escaped []
  /-- Another character. -/
  | plain {c : UInt8} {cs : List UInt8} : c ≠ 0x22 → c ≠ 0x5C → Escaped cs → Escaped (c :: cs)
  /-- A backslash and the character behind it. -/
  | escape (e : UInt8) {cs : List UInt8} : Escaped cs → Escaped (0x5C :: e :: cs)

/-- One text behind the other. -/
theorem Escaped.append {cs ds : List UInt8} (hcs : Escaped cs) (hds : Escaped ds) :
    Escaped (cs ++ ds) := by
  induction hcs with
  | nil => exact hds
  | plain hquote hslash _ ih => exact .plain hquote hslash ih
  | escape e _ ih => exact .escape e ih

/-- A hexadecimal digit is neither a quotation mark nor a backslash. -/
theorem hexDigit_ne {c : UInt8} {d : Nat} (h : hexDigit c.toNat = some d) :
    c ≠ 0x22 ∧ c ≠ 0x5C := by
  constructor
  · rintro rfl
    exact absurd h (by simp [hexDigit])
  · rintro rfl
    exact absurd h (by simp [hexDigit])

/-- The text of a unit. -/
theorem HexUnit.escaped (u : HexUnit) : Escaped u.text := by
  obtain ⟨a, b, c, d, value, hwf⟩ := u
  obtain ⟨a', ha, hvalue⟩ := Option.bind_eq_some_iff.mp hwf
  obtain ⟨b', hb, hvalue⟩ := Option.bind_eq_some_iff.mp hvalue
  obtain ⟨c', hc, hvalue⟩ := Option.bind_eq_some_iff.mp hvalue
  obtain ⟨d', hd, -⟩ := Option.bind_eq_some_iff.mp hvalue
  have hdigit {x : UInt8} {n : Nat} (hx : hexDigit x.toNat = some n) {cs : List UInt8}
      (hcs : Escaped cs) : Escaped (x :: cs) :=
    .plain (hexDigit_ne hx).1 (hexDigit_ne hx).2 hcs
  exact .escape 0x75 (hdigit ha (hdigit hb (hdigit hc (hdigit hd .nil))))

/-- The text of a string. -/
theorem piecesText_escaped (s : List StringPiece) : Escaped (piecesText s) := by
  induction s with
  | nil => exact .nil
  | cons piece s ih =>
    refine Escaped.append ?_ ih
    cases piece with
    | plain c hc => exact .plain hc.2.1 hc.2.2 .nil
    | simple e c he => exact .escape e .nil
    | unit u c hc => exact u.escaped
    | pair high low c hc => exact high.escaped.append low.escaped

/-- **The loop that sizes a literal** ends on its closing quotation mark. -/
theorem stringEndLoop_escaped {cs : List UInt8} (hcs : Escaped cs) {b : ParseBuffer}
    (hlength : b.length = b.content.length) {i : Nat} (skipped : Nat)
    (h : b.content.drop i = cs ++ 0x22 :: rest) (hfuel : cs.length < fuel) :
    ∃ k, stringEndLoop b fuel i skipped = .ok (some (i + cs.length, k)) := by
  have hlt : i + cs.length < b.length := by
    have hlen := congrArg List.length h
    rw [List.length_drop, List.length_append, List.length_cons] at hlen
    omega
  induction hcs generalizing i skipped fuel with
  | nil =>
    obtain ⟨fuel, rfl⟩ := Nat.exists_eq_succ_of_ne_zero (Nat.ne_of_gt hfuel)
    have hload : cellLoad b.content i = .ok 0x22 := cellLoad_of_drop (j := 0) h rfl
    refine ⟨skipped, ?_⟩
    rw [stringEndLoop, if_pos (by exact hlt), hload, exec_ok_bind, if_pos rfl]
    rfl
  | @plain c cs hquote hslash _ ih =>
    obtain ⟨fuel, rfl⟩ := Nat.exists_eq_succ_of_ne_zero (Nat.ne_of_gt (Nat.zero_lt_of_lt hfuel))
    have hload : cellLoad b.content i = .ok c := cellLoad_of_drop (j := 0) h rfl
    have hnext : b.content.drop (i + 1) = cs ++ 0x22 :: rest := by
      rw [← List.drop_drop, h]
      rfl
    rw [List.length_cons] at hlt hfuel ⊢
    obtain ⟨k, hk⟩ := ih skipped hnext (Nat.lt_of_succ_lt_succ hfuel) (by omega)
    refine ⟨k, ?_⟩
    rw [stringEndLoop, if_pos (by omega), hload, exec_ok_bind, if_neg hquote, if_neg hslash, hk,
      Nat.add_assoc, Nat.add_comm 1]
  | @escape e cs _ ih =>
    obtain ⟨fuel, rfl⟩ := Nat.exists_eq_succ_of_ne_zero (Nat.ne_of_gt (Nat.zero_lt_of_lt hfuel))
    have hload : cellLoad b.content i = .ok 0x5C := cellLoad_of_drop (j := 0) h rfl
    have hnext : b.content.drop (i + 2) = cs ++ 0x22 :: rest := by
      rw [← List.drop_drop, h]
      rfl
    rw [List.length_cons, List.length_cons] at hlt hfuel ⊢
    obtain ⟨k, hk⟩ := ih (skipped + 1) hnext (Nat.lt_of_succ_lt (Nat.lt_of_succ_lt_succ hfuel))
      (by omega)
    refine ⟨k, ?_⟩
    rw [stringEndLoop, if_pos (by omega), hload, exec_ok_bind, if_neg (by decide), if_pos rfl,
      if_neg (by omega), hk, Nat.add_assoc, Nat.add_comm 2]

/-- There are no more pieces than characters. -/
theorem length_le_piecesText (s : List StringPiece) : s.length ≤ (piecesText s).length := by
  induction s with
  | nil => exact Nat.le_refl 0
  | cons piece s ih =>
    have hpos : 0 < piece.text.length := by cases piece <;> exact Nat.succ_pos _
    rw [piecesText_cons, List.length_append, List.length_cons]
    omega

/-- A string literal. -/
def literalText (s : List StringPiece) : List UInt8 := 0x22 :: (piecesText s ++ [0x22])

/-- The string that a literal stands for: its bytes up to the first NUL. -/
def literalValue (s : List StringPiece) : CStr := CStr.ofBlock (piecesBytes s)

/-- **`parse_string` reads every literal**. -/
theorem parseString_literal (s : List StringPiece) {b : ParseBuffer} (hb : b.Inside)
    (h : b.content.drop b.offset = literalText s ++ rest) (hfuel : b.length - b.offset < fuel) :
    parseString fuel b = .ok (some (literalValue s), b.advance (literalText s).length) := by
  have hbody : b.content.drop (b.offset + 1) = piecesText s ++ 0x22 :: rest := by
    rw [← List.drop_drop, h, literalText, List.cons_append, List.drop_one, List.tail_cons,
      List.append_assoc]
    rfl
  have hlen := congrArg List.length hbody
  rw [List.length_drop, ← hb.length, List.length_append, List.length_cons] at hlen
  have hopen : cellLoad b.content (b.offset + 0) = .ok 0x22 := cellLoad_of_drop h rfl
  obtain ⟨k, hk⟩ := stringEndLoop_escaped (piecesText_escaped s) hb.length 0 hbody
    (show _ < fuel by omega)
  have hclose : cellLoad b.content (b.offset + 1 + (piecesText s).length) = .ok 0x22 := by
    refine cellLoad_of_drop hbody ?_
    rw [List.getElem?_append_right (Nat.le_refl _), Nat.sub_self]
    rfl
  -- what the first loop has counted is enough for the second one
  have hsized : Returns (stringEndLoop b fuel (b.offset + 1) 0) _ :=
    hb.stringEndLoop_returns 0 (by omega)
  obtain ⟨r, hr, hcount⟩ := hsized
  obtain rfl : some (b.offset + 1 + (piecesText s).length, k) = r :=
    Except.ok.inj (hk.symm.trans hr)
  obtain ⟨-, hcount⟩ := hcount _ _ rfl (by omega)
  have htake : (b.content.take (b.offset + 1 + (piecesText s).length)).drop (b.offset + 1)
      = piecesText s := by
    rw [List.drop_take, hbody, Nat.add_sub_cancel_left, List.take_left]
  rw [htake] at hcount
  have hroom := literalTokens_pieces s
  have hpieces := length_le_piecesText s
  obtain ⟨o, ho, hloop⟩ := stringLoop_pieces s hbody rfl
    (wrote_nil (b.offset + 1 + (piecesText s).length - b.offset - k + 1))
    (by rw [List.length_nil]; omega) (show s.length < fuel by omega)
  obtain ⟨o', hput, ho'⟩ := ho.put (show _ + [(0 : UInt8)].length ≤ _ by
    rw [List.length_append, List.length_nil, List.length_singleton]
    omega)
  rw [parseString, ParseBuffer.atOffset, hopen, exec_ok_bind, if_neg (by decide), hk, exec_ok_bind]
  dsimp only
  rw [if_neg (by omega), hclose, exec_ok_bind, if_neg (by decide), parseStringBody, hloop,
    exec_ok_bind]
  dsimp only
  rw [hput, exec_ok_bind, ho'.ofBlock, List.nil_append]
  have hoffset : b.offset + 1 + (piecesText s).length + 1
      = b.offset + (literalText s).length := by
    rw [literalText, List.length_cons, List.length_append, List.length_singleton]
    omega
  rw [hoffset]
  rfl

end Wee
