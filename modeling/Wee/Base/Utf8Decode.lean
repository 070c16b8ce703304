import Wee.Base.BufferFields
import Wee.Lib.Utf8

/-! # The UTF-8 decoder (`base/utf8_decode.c`)

The decoder walks over a byte array and returns one character at a time. Its static variables are a
`Utf8Decoder`; the counters that only the error reports read are left out. On a well-formed string
it returns the code points of the characters, one after the other, and then `UTF8_END`. -/

namespace Wee

/-! ### The decoder -/

/-- The variables `the_input`, `the_length` and `the_index`. -/
structure Utf8Decoder where
  /-- The bytes. -/
  input : List UInt8
  /-- The number of bytes, an `int`. -/
  length : Int
  /-- The index of the next byte. -/
  index : Nat
  deriving Repr

/-- What `utf8_decode_next` returns. -/
inductive Utf8Next
  /-- `UTF8_END`. -/
  | finish
  /-- `UTF8_ERROR`. -/
  | error
  /-- A character. -/
  | char (c : Nat)
  deriving DecidableEq, Repr

/-- `utf8_decode_init`. -/
def utf8DecodeInit (p : List UInt8) (length : Int) : Utf8Decoder :=
  { input := p, length := length, index := 0 }

/-- `get`: the next byte, or `none` for `UTF8_END`. -/
def Utf8Decoder.get (d : Utf8Decoder) : Option Nat × Utf8Decoder :=
  if d.length ≤ d.index then (none, d)
  else (some ((d.input.getD d.index 0).toNat &&& 0xFF), { d with index := d.index + 1 })

/-- `cont`: the payload of the next continuation byte, or `none` for `UTF8_ERROR`. The bits of
`UTF8_END` are not those of a continuation byte. -/
def Utf8Decoder.cont (d : Utf8Decoder) : Option Nat × Utf8Decoder :=
  match d.get with
  | (some c, d) => (if c &&& 0xC0 = 0x80 then some (c &&& 0x3F) else none, d)
  | (none, d) => (none, d)

/-- A character of two bytes, behind its first byte. -/
def utf8Two (c : Nat) (d : Utf8Decoder) : Utf8Next × Utf8Decoder :=
  let (c1, d) := d.cont
  match c1 with
  | some c1 =>
    let r := ((c &&& 0x1F) <<< 6) ||| c1
    if 128 ≤ r then (.char r, d) else (.error, d)
  | none => (.error, d)

/-- A character of three bytes, behind its first byte. -/
def utf8Three (c : Nat) (d : Utf8Decoder) : Utf8Next × Utf8Decoder :=
  let (c1, d) := d.cont
  let (c2, d) := d.cont
  match c1, c2 with
  | some c1, some c2 =>
    let r := ((c &&& 0x0F) <<< 12) ||| (c1 <<< 6) ||| c2
    if 2048 ≤ r ∧ (r < 55296 ∨ 57343 < r) then (.char r, d) else (.error, d)
  | _, _ => (.error, d)

/-- A character of four bytes, behind its first byte. -/
def utf8Four (c : Nat) (d : Utf8Decoder) : Utf8Next × Utf8Decoder :=
  let (c1, d) := d.cont
  let (c2, d) := d.cont
  let (c3, d) := d.cont
  match c1, c2, c3 with
  | some c1, some c2, some c3 =>
    let r := ((c &&& 0x07) <<< 18) ||| (c1 <<< 12) ||| (c2 <<< 6) ||| c3
    if 65536 ≤ r ∧ r ≤ 1114111 then (.char r, d) else (.error, d)
  | _, _, _ => (.error, d)

/-- `utf8_decode_next`. -/
def utf8DecodeNext (d : Utf8Decoder) : Utf8Next × Utf8Decoder :=
  if d.length ≤ d.index then (if d.index = d.length then .finish else .error, d)
  else
    match d.get with
    | (none, d) => (.error, d)
    | (some c, d) =>
      if c &&& 0x80 = 0 then (.char c, d)
      else if c &&& 0xE0 = 0xC0 then utf8Two c d
      else if c &&& 0xF0 = 0xE0 then utf8Three c d
      else if c &&& 0xF8 = 0xF0 then utf8Four c d
      else (.error, d)

/-! ### Bits of a byte -/

/-- A byte has eight bits. -/
theorem byte_and_ff (b : UInt8) : b.toNat &&& 0xFF = b.toNat := by
  rw [show (0xFF : Nat) = 2 ^ 8 - 1 from rfl, Nat.and_two_pow_sub_one_eq_mod,
    Nat.mod_eq_of_lt b.toNat_lt]

/-- The bits that tell how a character begins, for every byte. -/
theorem lead_bits :
    ∀ c < 256, (c &&& 0x80 = 0 ↔ c < 0x80) ∧ (c &&& 0xE0 = 0xC0 ↔ 0xC0 ≤ c ∧ c < 0xE0)
      ∧ (c &&& 0xF0 = 0xE0 ↔ 0xE0 ≤ c ∧ c < 0xF0) ∧ (c &&& 0xF8 = 0xF0 ↔ 0xF0 ≤ c ∧ c < 0xF8)
      ∧ (c &&& 0xC0 = 0x80 ↔ 0x80 ≤ c ∧ c < 0xC0) := by
  decide +kernel

/-- The low bits of a number. -/
theorem and_low (c k : Nat) : c &&& (2 ^ k - 1) = c % 2 ^ k := Nat.and_two_pow_sub_one_eq_mod c k

/-! ### Decoding well-formed strings -/

/-- The decoder stands before the bytes `bs`, the rest of its input. -/
structure Utf8Decoder.At (d : Utf8Decoder) (bs : List UInt8) : Prop where
  /-- The length is that of the input. -/
  length : d.length = d.input.length
  /-- The index is not behind the input. -/
  index_le : d.index ≤ d.input.length
  /-- What is left of the input. -/
  drop : d.input.drop d.index = bs

variable {d : Utf8Decoder} {bs : List UInt8}

/-- A new decoder stands before its input. -/
theorem utf8DecodeInit_at {p : List UInt8} : (utf8DecodeInit p p.length).At p where
  length := rfl
  index_le := Nat.zero_le _
  drop := rfl

/-- The next byte. -/
theorem Utf8Decoder.At.get {b : UInt8} (h : d.At (b :: bs)) :
    ∃ d', d.get = (some b.toNat, d') ∧ d'.At bs ∧ ¬ d.length ≤ d.index := by
  have hlt : d.index < d.input.length := by
    by_contra hge
    have := h.drop
    rw [List.drop_eq_nil_of_le (by omega)] at this
    cases this
  have hne : ¬ d.length ≤ d.index := by
    rw [h.length]
    omega
  have hdrop := h.drop
  rw [List.drop_eq_getElem_cons hlt] at hdrop
  obtain ⟨hb, hbs⟩ := List.cons.inj hdrop
  refine ⟨{ d with index := d.index + 1 }, ?_, ⟨h.length, hlt, ?_⟩, hne⟩
  · rw [Utf8Decoder.get, if_neg hne, List.getD_eq_getElem _ _ hlt, byte_and_ff, hb]
  · exact hbs

/-- The payload of a continuation byte. -/
theorem Utf8Decoder.At.cont {b : UInt8} (hb : IsTail b) (h : d.At (b :: bs)) :
    ∃ d', d.cont = (some (b.toNat % 0x40), d') ∧ d'.At bs := by
  obtain ⟨d', hget, hat, -⟩ := h.get
  obtain ⟨-, -, -, -, htail⟩ := lead_bits b.toNat b.toNat_lt
  refine ⟨d', ?_, hat⟩
  rw [Utf8Decoder.cont, hget]
  dsimp only
  rw [if_pos (htail.mpr hb)]
  exact congrArg (fun n => (some n, d')) (and_low b.toNat 6)

/-- Two payloads. -/
theorem join_two (a b : Nat) :
    ((a &&& 0x1F) <<< 6) ||| b % 0x40 = a % 0x20 * 0x40 + b % 0x40 := by
  rw [shiftLeft_or (k := 6) (by omega), show a &&& 0x1F = a % 0x20 from and_low a 5]
  omega

/-- Three payloads. -/
theorem join_three (a b c : Nat) :
    ((a &&& 0x0F) <<< 12) ||| ((b % 0x40) <<< 6) ||| c % 0x40
      = (a % 0x10 * 0x40 + b % 0x40) * 0x40 + c % 0x40 := by
  rw [Nat.or_assoc, shiftLeft_or (k := 6) (by omega), shiftLeft_or (k := 12) (by omega),
    show a &&& 0x0F = a % 0x10 from and_low a 4]
  omega

/-- Four payloads. -/
theorem join_four (a b c d : Nat) :
    ((a &&& 0x07) <<< 18) ||| ((b % 0x40) <<< 12) ||| ((c % 0x40) <<< 6) ||| d % 0x40
      = ((a % 0x08 * 0x40 + b % 0x40) * 0x40 + c % 0x40) * 0x40 + d % 0x40 := by
  rw [Nat.or_assoc, Nat.or_assoc, shiftLeft_or (k := 6) (by omega), shiftLeft_or (k := 12) (by omega),
    shiftLeft_or (k := 18) (by omega), show a &&& 0x07 = a % 0x08 from and_low a 3]
  omega

/-- **One character** of a well-formed string is decoded as its code point. The cases are the forms
of a character. -/
theorem utf8DecodeNext_char (c : Utf8Char) (h : d.At (c.bytes ++ bs)) :
    ∃ d', utf8DecodeNext d = (.char c.code, d') ∧ d'.At bs := by
  have hform := c.form
  obtain ⟨bytes, hwf⟩ := c
  dsimp only at hform h
  cases hform with
  | @one a ha =>
    obtain ⟨d', hget, hat, hne⟩ := h.get
    obtain ⟨hone, -⟩ := lead_bits a.toNat a.toNat_lt
    refine ⟨d', ?_, hat⟩
    rw [utf8DecodeNext, if_neg hne, hget]
    dsimp only
    rw [if_pos (hone.mpr ha)]
    rfl
  | @two a b hlo hhi hb =>
    obtain ⟨d₁, hget, hat₁, hne⟩ := h.get
    obtain ⟨d₂, hcont, hat₂⟩ := hat₁.cont hb
    obtain ⟨hone, htwo, -⟩ := lead_bits a.toNat a.toNat_lt
    obtain ⟨hblo, hbhi⟩ := hb
    refine ⟨d₂, ?_, hat₂⟩
    rw [utf8DecodeNext, if_neg hne, hget]
    dsimp only
    rw [if_neg (mt hone.mp (by omega)), if_pos (htwo.mpr ⟨by omega, hhi⟩)]
    simp only [utf8Two, hcont, join_two]
    rw [if_pos (by omega)]
    rfl
  | @three a b c hlo hhi hb hc hE0 hED =>
    obtain ⟨d₁, hget, hat₁, hne⟩ := h.get
    obtain ⟨d₂, hcont₂, hat₂⟩ := hat₁.cont hb
    obtain ⟨d₃, hcont₃, hat₃⟩ := hat₂.cont hc
    obtain ⟨hone, htwo, hthree, -⟩ := lead_bits a.toNat a.toNat_lt
    obtain ⟨hblo, hbhi⟩ := hb
    obtain ⟨hclo, hchi⟩ := hc
    refine ⟨d₃, ?_, hat₃⟩
    rw [utf8DecodeNext, if_neg hne, hget]
    dsimp only
    rw [if_neg (mt hone.mp (by omega)), if_neg (mt htwo.mp (by omega)),
      if_pos (hthree.mpr ⟨hlo, hhi⟩)]
    simp only [utf8Three, hcont₂, hcont₃, join_three]
    rw [if_pos (by omega)]
    rfl
  | @four a b c e hlo hhi hb hc he hF0 hF4 =>
    obtain ⟨d₁, hget, hat₁, hne⟩ := h.get
    obtain ⟨d₂, hcont₂, hat₂⟩ := hat₁.cont hb
    obtain ⟨d₃, hcont₃, hat₃⟩ := hat₂.cont hc
    obtain ⟨d₄, hcont₄, hat₄⟩ := hat₃.cont he
    obtain ⟨hone, htwo, hthree, hfour, -⟩ := lead_bits a.toNat a.toNat_lt
    obtain ⟨hblo, hbhi⟩ := hb
    obtain ⟨hclo, hchi⟩ := hc
    obtain ⟨helo, hehi⟩ := he
    refine ⟨d₄, ?_, hat₄⟩
    rw [utf8DecodeNext, if_neg hne, hget]
    dsimp only
    rw [if_neg (mt hone.mp (by omega)), if_neg (mt htwo.mp (by omega)),
      if_neg (mt hthree.mp (by omega)), if_pos (hfour.mpr ⟨hlo, by omega⟩)]
    simp only [utf8Four, hcont₂, hcont₃, hcont₄, join_four]
    rw [if_pos (by omega)]
    rfl

/-- **The end** of the input. -/
theorem utf8DecodeNext_finish (h : d.At []) : utf8DecodeNext d = (.finish, d) := by
  have hlen : d.input.length - d.index = 0 := by
    have := congrArg List.length h.drop
    rwa [List.length_drop] at this
  have hle := h.index_le
  have heq : (d.index : Int) = d.length := by
    rw [h.length]
    omega
  rw [utf8DecodeNext, if_pos (le_of_eq heq.symm), if_pos heq]

/-! ### What the decoder accepts -/

/-- An index behind the length is an error. -/
theorem utf8DecodeNext_behind (h : d.length < d.index) : (utf8DecodeNext d).1 = .error := by
  rw [utf8DecodeNext, if_pos (le_of_lt h)]
  exact if_neg (ne_of_gt h)

/-- Before the end, `cont` fails. -/
theorem Utf8Decoder.At.cont_nil (h : d.At []) : d.cont.1 = none := by
  have hlen : d.input.length - d.index = 0 := by
    have := congrArg List.length h.drop
    rwa [List.length_drop] at this
  have hle : d.length ≤ d.index := by
    rw [h.length]
    omega
  rw [Utf8Decoder.cont, Utf8Decoder.get, if_pos hle]

/-- `cont` accepts nothing but a continuation byte. -/
theorem Utf8Decoder.At.cont_cases (h : d.At bs) :
    d.cont.1 = none ∨ ∃ b rest, bs = b :: rest ∧ IsTail b
      ∧ d.cont.1 = some (b.toNat % 0x40) ∧ d.cont.2.At rest := by
  cases bs with
  | nil => exact .inl h.cont_nil
  | cons b rest =>
    obtain ⟨-, -, -, -, htail⟩ := lead_bits b.toNat b.toNat_lt
    by_cases hb : IsTail b
    · obtain ⟨d', hcont, hat⟩ := h.cont hb
      refine .inr ⟨b, rest, rfl, hb, ?_, ?_⟩
      · rw [hcont]
      · rw [hcont]
        exact hat
    · obtain ⟨d', hget, -⟩ := h.get
      left
      rw [Utf8Decoder.cont, hget]
      dsimp only
      rw [if_neg (mt htail.mp hb)]

/-- A character of the grammar begins `bs`. -/
def StartsWithChar (bs : List UInt8) : Prop := ∃ (c : Utf8Char) (rest : List UInt8),
  bs = c.bytes ++ rest

/-- Bytes of a form begin what they are put before. -/
theorem Utf8Form.startsWithChar {cs : List UInt8} (h : Utf8Form cs) (rest : List UInt8) :
    StartsWithChar (cs ++ rest) :=
  ⟨⟨cs, h.wf⟩, rest, rfl⟩

/-- Two bytes are decoded only if they are a character. -/
theorem utf8Two_cases {a : UInt8} (hlo : 0xC0 ≤ a.toNat) (hhi : a.toNat < 0xE0) (h : d.At bs) :
    (utf8Two a.toNat d).1 = .error ∨ StartsWithChar (a :: bs) := by
  rcases h.cont_cases with hnone | ⟨b, rest, rfl, hb, hsome, -⟩
  · left
    simp only [utf8Two, hnone]
  · -- the bound leaves out the overlong forms, which begin with `0xC0` and `0xC1`
    by_cases hr : 128 ≤ a.toNat % 0x20 * 0x40 + b.toNat % 0x40
    · right
      exact (Utf8Form.two (by omega) hhi hb).startsWithChar rest
    · left
      simp only [utf8Two, hsome, join_two]
      rw [if_neg hr]

/-- Three bytes are decoded only if they are a character. -/
theorem utf8Three_cases {a : UInt8} (hlo : 0xE0 ≤ a.toNat) (hhi : a.toNat < 0xF0) (h : d.At bs) :
    (utf8Three a.toNat d).1 = .error ∨ StartsWithChar (a :: bs) := by
  rcases h.cont_cases with hnone | ⟨b, rest, rfl, hb, hsome₁, hat₁⟩
  · left
    simp only [utf8Three, hnone]
  rcases hat₁.cont_cases with hnone | ⟨c, rest, rfl, hc, hsome₂, -⟩
  · left
    simp only [utf8Three, hsome₁, hnone]
  -- the bounds leave out the overlong forms and the surrogates
  by_cases hr : 2048 ≤ (a.toNat % 0x10 * 0x40 + b.toNat % 0x40) * 0x40 + c.toNat % 0x40
      ∧ ((a.toNat % 0x10 * 0x40 + b.toNat % 0x40) * 0x40 + c.toNat % 0x40 < 55296
        ∨ 57343 < (a.toNat % 0x10 * 0x40 + b.toNat % 0x40) * 0x40 + c.toNat % 0x40)
  · right
    have hbt : 0x80 ≤ b.toNat ∧ b.toNat < 0xC0 := hb
    exact (Utf8Form.three hlo hhi hb hc (by omega) (by omega)).startsWithChar rest
  · left
    simp only [utf8Three, hsome₁, hsome₂, join_three]
    rw [if_neg hr]

/-- Four bytes are decoded only if they are a character. -/
theorem utf8Four_cases {a : UInt8} (hlo : 0xF0 ≤ a.toNat) (hhi : a.toNat < 0xF8) (h : d.At bs) :
    (utf8Four a.toNat d).1 = .error ∨ StartsWithChar (a :: bs) := by
  rcases h.cont_cases with hnone | ⟨b, rest, rfl, hb, hsome₁, hat₁⟩
  · left
    simp only [utf8Four, hnone]
  rcases hat₁.cont_cases with hnone | ⟨c, rest, rfl, hc, hsome₂, hat₂⟩
  · left
    simp only [utf8Four, hsome₁, hnone]
  rcases hat₂.cont_cases with hnone | ⟨e, rest, rfl, he, hsome₃, -⟩
  · left
    simp only [utf8Four, hsome₁, hsome₂, hnone]
  -- the bounds leave out the overlong forms and what is above U+10FFFF
  by_cases hr : 65536 ≤ ((a.toNat % 0x08 * 0x40 + b.toNat % 0x40) * 0x40 + c.toNat % 0x40) * 0x40
        + e.toNat % 0x40
      ∧ ((a.toNat % 0x08 * 0x40 + b.toNat % 0x40) * 0x40 + c.toNat % 0x40) * 0x40
        + e.toNat % 0x40 ≤ 1114111
  · right
    have hbt : 0x80 ≤ b.toNat ∧ b.toNat < 0xC0 := hb
    exact (Utf8Form.four hlo (by omega) hb hc he (by omega) (by omega)).startsWithChar rest
  · left
    simp only [utf8Four, hsome₁, hsome₂, hsome₃, join_four]
    rw [if_neg hr]

/-- **Nothing else is decoded**: before bytes that no character begins, the decoder reports an
error. The cases are those of the first byte. -/
theorem utf8DecodeNext_cases {a : UInt8} (h : d.At (a :: bs)) :
    (utf8DecodeNext d).1 = .error ∨ StartsWithChar (a :: bs) := by
  obtain ⟨d', hget, hat, hne⟩ := h.get
  obtain ⟨hone, htwo, hthree, hfour, -⟩ := lead_bits a.toNat a.toNat_lt
  rw [utf8DecodeNext, if_neg hne, hget]
  dsimp only
  by_cases h₁ : a.toNat &&& 0x80 = 0
  · right
    exact (Utf8Form.one (hone.mp h₁)).startsWithChar bs
  rw [if_neg h₁]
  by_cases h₂ : a.toNat &&& 0xE0 = 0xC0
  · rw [if_pos h₂]
    exact utf8Two_cases (htwo.mp h₂).1 (htwo.mp h₂).2 hat
  rw [if_neg h₂]
  by_cases h₃ : a.toNat &&& 0xF0 = 0xE0
  · rw [if_pos h₃]
    exact utf8Three_cases (hthree.mp h₃).1 (hthree.mp h₃).2 hat
  rw [if_neg h₃]
  by_cases h₄ : a.toNat &&& 0xF8 = 0xF0
  · rw [if_pos h₄]
    exact utf8Four_cases (hfour.mp h₄).1 (hfour.mp h₄).2 hat
  · rw [if_neg h₄]
    exact .inl rfl

end Wee
