import Mathlib.Data.List.Basic
import Mathlib.Order.Basic
import Mathlib.Tactic.Common

/-! # Well-formed UTF-8 and C strings

A UTF-8 character is a byte sequence of the grammar of RFC 3629, section 4 (no overlong forms, no
surrogates, nothing above U+10FFFF); a string is a list of characters. `CStr` is a NUL-terminated C
string, given by the bytes before its terminator. -/

namespace Wee

/-- `UTF8-tail`: a continuation byte. -/
def isUtf8Tail (b : UInt8) : Bool := 0x80 ≤ b && b ≤ 0xBF

/-- The bytes of one UTF-8 character. -/
def isUtf8Char : List UInt8 → Bool
  | [a] => a ≤ 0x7F
  | [a, b] => 0xC2 ≤ a && a ≤ 0xDF && isUtf8Tail b
  | [a, b, c] =>
    isUtf8Tail c &&
      (a == 0xE0 && 0xA0 ≤ b && b ≤ 0xBF || 0xE1 ≤ a && a ≤ 0xEC && isUtf8Tail b ||
        a == 0xED && 0x80 ≤ b && b ≤ 0x9F || 0xEE ≤ a && a ≤ 0xEF && isUtf8Tail b)
  | [a, b, c, d] =>
    isUtf8Tail c && isUtf8Tail d &&
      (a == 0xF0 && 0x90 ≤ b && b ≤ 0xBF || 0xF1 ≤ a && a ≤ 0xF3 && isUtf8Tail b ||
        a == 0xF4 && 0x80 ≤ b && b ≤ 0x8F)
  | _ => false

/-- A UTF-8 character. -/
structure Utf8Char where
  /-- Its bytes. -/
  bytes : List UInt8
  /-- They are one character of the grammar. -/
  wf : isUtf8Char bytes = true
  deriving DecidableEq

/-- The bytes of a UTF-8 string. -/
def utf8Bytes (s : List Utf8Char) : List UInt8 := s.flatMap Utf8Char.bytes

@[simp] theorem utf8Bytes_nil : utf8Bytes [] = [] := rfl

@[simp] theorem utf8Bytes_cons (c : Utf8Char) (s : List Utf8Char) :
    utf8Bytes (c :: s) = c.bytes ++ utf8Bytes s := rfl

/-- Byte sequences that are UTF-8 strings. -/
def WellFormedUtf8 (bs : List UInt8) : Prop := ∃ s : List Utf8Char, utf8Bytes s = bs

/-- **The lead byte tells the length**: a character is its lead byte and up to three more bytes, and
the lead byte lies in the range for that length. -/
theorem Utf8Char.lead_cases (c : Utf8Char) :
    ∃ a rest, c.bytes = a :: rest ∧
      (rest.length = 0 ∧ a.toNat ≤ 0x7F ∨ rest.length = 1 ∧ 0xC2 ≤ a.toNat ∧ a.toNat ≤ 0xDF ∨
        rest.length = 2 ∧ 0xE0 ≤ a.toNat ∧ a.toNat ≤ 0xEF ∨
        rest.length = 3 ∧ 0xF0 ≤ a.toNat ∧ a.toNat ≤ 0xF4) := by
  obtain ⟨bs, hwf⟩ := c
  match bs, hwf with
  | [a], hwf =>
    refine ⟨a, [], rfl, .inl ⟨rfl, ?_⟩⟩
    simpa [isUtf8Char, UInt8.le_iff_toNat_le] using hwf
  | [a, b], hwf =>
    refine ⟨a, [b], rfl, .inr (.inl ⟨rfl, ?_⟩)⟩
    simp only [isUtf8Char, Bool.and_eq_true, decide_eq_true_eq, UInt8.le_iff_toNat_le] at hwf
    exact hwf.1
  | [a, b, c], hwf =>
    refine ⟨a, [b, c], rfl, .inr (.inr (.inl ⟨rfl, ?_⟩))⟩
    simp only [isUtf8Char, Bool.and_eq_true, Bool.or_eq_true, beq_iff_eq, decide_eq_true_eq,
      UInt8.le_iff_toNat_le, ← UInt8.toNat_inj, UInt8.reduceToNat] at hwf
    omega
  | [a, b, c, d], hwf =>
    refine ⟨a, [b, c, d], rfl, .inr (.inr (.inr ⟨rfl, ?_⟩))⟩
    simp only [isUtf8Char, Bool.and_eq_true, Bool.or_eq_true, beq_iff_eq, decide_eq_true_eq,
      UInt8.le_iff_toNat_le, ← UInt8.toNat_inj, UInt8.reduceToNat] at hwf
    omega

/-- The code point of a character: the payload bits of its bytes. -/
def Utf8Char.code (c : Utf8Char) : Nat :=
  match c.bytes with
  | [a] => a.toNat
  | [a, b] => a.toNat % 0x20 * 0x40 + b.toNat % 0x40
  | [a, b, c] => (a.toNat % 0x10 * 0x40 + b.toNat % 0x40) * 0x40 + c.toNat % 0x40
  | [a, b, c, d] =>
    ((a.toNat % 0x08 * 0x40 + b.toNat % 0x40) * 0x40 + c.toNat % 0x40) * 0x40 + d.toNat % 0x40
  | _ => 0

/-- `b` is a continuation byte. -/
def IsTail (b : UInt8) : Prop := 0x80 ≤ b.toNat ∧ b.toNat < 0xC0

/-- **The forms of a character**, with the ranges that leave out overlong forms, surrogates and what
is above U+10FFFF. -/
inductive Utf8Form : List UInt8 → Prop
  /-- One byte. -/
  | one {a : UInt8} : a.toNat < 0x80 → Utf8Form [a]
  /-- Two bytes. -/
  | two {a b : UInt8} : 0xC2 ≤ a.toNat → a.toNat < 0xE0 → IsTail b → Utf8Form [a, b]
  /-- Three bytes. -/
  | three {a b c : UInt8} : 0xE0 ≤ a.toNat → a.toNat < 0xF0 → IsTail b → IsTail c →
      (a.toNat = 0xE0 → 0xA0 ≤ b.toNat) → (a.toNat = 0xED → b.toNat < 0xA0) → Utf8Form [a, b, c]
  /-- Four bytes. -/
  | four {a b c d : UInt8} : 0xF0 ≤ a.toNat → a.toNat < 0xF5 → IsTail b → IsTail c → IsTail d →
      (a.toNat = 0xF0 → 0x90 ≤ b.toNat) → (a.toNat = 0xF4 → b.toNat < 0x90) →
      Utf8Form [a, b, c, d]

/-- The bytes of a character have one of the forms. -/
theorem Utf8Char.form (c : Utf8Char) : Utf8Form c.bytes := by
  obtain ⟨bs, hwf⟩ := c
  match bs, hwf with
  | [a], hwf =>
    simp only [isUtf8Char, decide_eq_true_eq, UInt8.le_iff_toNat_le, UInt8.reduceToNat] at hwf
    exact .one (by omega)
  | [a, b], hwf =>
    simp only [isUtf8Char, isUtf8Tail, Bool.and_eq_true, decide_eq_true_eq,
      UInt8.le_iff_toNat_le, UInt8.reduceToNat] at hwf
    exact .two (by omega) (by omega) ⟨by omega, by omega⟩
  | [a, b, c], hwf =>
    simp only [isUtf8Char, isUtf8Tail, Bool.and_eq_true, Bool.or_eq_true, beq_iff_eq,
      decide_eq_true_eq, UInt8.le_iff_toNat_le, ← UInt8.toNat_inj, UInt8.reduceToNat] at hwf
    exact .three (by omega) (by omega) ⟨by omega, by omega⟩ ⟨by omega, by omega⟩ (by omega)
      (by omega)
  | [a, b, c, d], hwf =>
    simp only [isUtf8Char, isUtf8Tail, Bool.and_eq_true, Bool.or_eq_true, beq_iff_eq,
      decide_eq_true_eq, UInt8.le_iff_toNat_le, ← UInt8.toNat_inj, UInt8.reduceToNat] at hwf
    exact .four (by omega) (by omega) ⟨by omega, by omega⟩ ⟨by omega, by omega⟩
      ⟨by omega, by omega⟩ (by omega) (by omega)

/-- A byte sequence of one of the forms is a character. -/
theorem Utf8Form.wf {bs : List UInt8} (h : Utf8Form bs) : isUtf8Char bs = true := by
  cases h with
  | one ha =>
    simp only [isUtf8Char, decide_eq_true_eq, UInt8.le_iff_toNat_le, UInt8.reduceToNat]
    omega
  | two hlo hhi hb =>
    obtain ⟨hblo, hbhi⟩ := hb
    simp only [isUtf8Char, isUtf8Tail, Bool.and_eq_true, decide_eq_true_eq,
      UInt8.le_iff_toNat_le, UInt8.reduceToNat]
    omega
  | three hlo hhi hb hc hE0 hED =>
    obtain ⟨hblo, hbhi⟩ := hb
    obtain ⟨hclo, hchi⟩ := hc
    simp only [isUtf8Char, isUtf8Tail, Bool.and_eq_true, Bool.or_eq_true, beq_iff_eq,
      decide_eq_true_eq, UInt8.le_iff_toNat_le, ← UInt8.toNat_inj, UInt8.reduceToNat]
    omega
  | four hlo hhi hb hc hd hF0 hF4 =>
    obtain ⟨hblo, hbhi⟩ := hb
    obtain ⟨hclo, hchi⟩ := hc
    obtain ⟨hdlo, hdhi⟩ := hd
    simp only [isUtf8Char, isUtf8Tail, Bool.and_eq_true, Bool.or_eq_true, beq_iff_eq,
      decide_eq_true_eq, UInt8.le_iff_toNat_le, ← UInt8.toNat_inj, UInt8.reduceToNat]
    omega

/-- A code point is one of Unicode. -/
theorem Utf8Char.code_lt (c : Utf8Char) : c.code < 0x110000 := by
  have hform := c.form
  obtain ⟨bytes, hwf⟩ := c
  dsimp only at hform
  cases hform with
  | one ha => dsimp only [Utf8Char.code]; omega
  | two hlo hhi hb => dsimp only [Utf8Char.code]; omega
  | three hlo hhi hb hc => dsimp only [Utf8Char.code]; omega
  | four hlo hhi hb hc hd hF0 hF4 =>
    obtain ⟨hblo, hbhi⟩ := hb
    dsimp only [Utf8Char.code]
    omega

/-- A code point is no surrogate. -/
theorem Utf8Char.code_not_surrogate (c : Utf8Char) : c.code < 0xD800 ∨ 0xE000 ≤ c.code := by
  have hform := c.form
  obtain ⟨bytes, hwf⟩ := c
  dsimp only at hform
  cases hform with
  | one ha =>
    dsimp only [Utf8Char.code]
    omega
  | two hlo hhi hb =>
    dsimp only [Utf8Char.code]
    omega
  | three hlo hhi hb hc hE0 hED =>
    obtain ⟨hblo, hbhi⟩ := hb
    dsimp only [Utf8Char.code]
    omega
  | four hlo hhi hb hc hd hF0 hF4 =>
    obtain ⟨hblo, hbhi⟩ := hb
    dsimp only [Utf8Char.code]
    omega

/-- Every character has at least one byte. -/
theorem Utf8Char.length_pos (c : Utf8Char) : 0 < c.bytes.length := by
  obtain ⟨a, rest, h, -⟩ := c.lead_cases
  rw [h]
  exact Nat.succ_pos _

/-- A string has at least as many bytes as characters. -/
theorem length_le_utf8Bytes (s : List Utf8Char) : s.length ≤ (utf8Bytes s).length := by
  induction s with
  | nil => exact Nat.le_refl 0
  | cons c s ih =>
    have := c.length_pos
    rw [utf8Bytes_cons, List.length_cons, List.length_append]
    omega

/-- **ASCII strings** are those with one byte a character. -/
theorem length_utf8Bytes_eq_iff (s : List Utf8Char) :
    (utf8Bytes s).length = s.length ↔ ∀ b ∈ utf8Bytes s, b < 0x80 := by
  induction s with
  | nil => simp
  | cons c s ih =>
    have hle := length_le_utf8Bytes s
    obtain ⟨a, rest, hc, hlead⟩ := c.lead_cases
    rw [utf8Bytes_cons, hc, List.length_append, List.length_cons, List.length_cons]
    rcases Nat.eq_zero_or_pos rest.length with h0 | hpos
    · -- a one-byte character
      have ha : a < 0x80 := by
        rw [UInt8.lt_iff_toNat_lt]
        change a.toNat < 128
        omega
      obtain rfl : rest = [] := List.length_eq_zero_iff.mp h0
      rw [List.cons_append, List.nil_append, List.forall_mem_cons, ← ih, List.length_nil]
      exact ⟨fun h => ⟨ha, by omega⟩, fun h => by omega⟩
    · -- a longer one has a lead byte above the ASCII range
      refine ⟨fun h => by omega, fun h => ?_⟩
      have ha := h a (List.mem_append_left _ List.mem_cons_self)
      rw [UInt8.lt_iff_toNat_lt] at ha
      change a.toNat < 128 at ha
      omega

/-- A byte below `0x80` is a character. -/
def asciiChar (b : UInt8) (h : b < 0x80) : Utf8Char where
  bytes := [b]
  wf := by
    rw [UInt8.lt_iff_toNat_lt] at h
    change b.toNat < 128 at h
    rw [isUtf8Char, decide_eq_true_iff, UInt8.le_iff_toNat_le]
    change b.toNat ≤ 127
    omega

/-- A string of bytes below `0x80` is UTF-8, one character a byte. -/
theorem exists_utf8_of_ascii (bs : List UInt8) (h : ∀ b ∈ bs, b < 0x80) :
    ∃ s : List Utf8Char, utf8Bytes s = bs ∧ s.length = bs.length := by
  induction bs with
  | nil => exact ⟨[], rfl, rfl⟩
  | cons b bs ih =>
    obtain ⟨s, hs, hlen⟩ := ih fun x hx => h x (List.mem_cons_of_mem _ hx)
    refine ⟨asciiChar b (h b List.mem_cons_self) :: s, ?_, ?_⟩
    · rw [utf8Bytes_cons, hs, asciiChar, List.singleton_append]
    · rw [List.length_cons, List.length_cons, hlen]

/-- Its characters have the bytes as code points. -/
theorem exists_utf8_codes_of_ascii (bs : List UInt8) (h : ∀ b ∈ bs, b < 0x80) :
    ∃ s : List Utf8Char, utf8Bytes s = bs ∧ s.map Utf8Char.code = bs.map UInt8.toNat := by
  induction bs with
  | nil => exact ⟨[], rfl, rfl⟩
  | cons b bs ih =>
    obtain ⟨s, hs, hcodes⟩ := ih fun x hx => h x (List.mem_cons_of_mem _ hx)
    refine ⟨asciiChar b (h b List.mem_cons_self) :: s, ?_, ?_⟩
    · rw [utf8Bytes_cons, hs, asciiChar, List.singleton_append]
    · rw [List.map_cons, List.map_cons, hcodes]
      rfl

/-- The bytes of an ASCII literal. -/
def asciiBytes (s : String) : List UInt8 := s.toList.map fun c => UInt8.ofNat c.toNat

/-- A NUL-terminated string: the bytes before the terminator. -/
structure CStr where
  /-- The bytes. -/
  bytes : List UInt8
  /-- None of them is NUL. -/
  nulFree : 0 ∉ bytes
  deriving DecidableEq

/-- `strlen`. -/
def strlen (s : CStr) : Nat := s.bytes.length

end Wee
