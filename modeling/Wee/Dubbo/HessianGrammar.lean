import Wee.Lib.Word
import Wee.Lib.Utf8

/-! # The Hessian string grammar

The strings of Hessian 2.0: non-final chunks `'R' b1 b0 <utf8-data>` followed by a final chunk,
which has a one-byte, a two-byte or an `'S'` header. Headers count characters. A chunk carries the
proof that its number of characters fits its header, so a value of these types is a well-formed
encoding.

`refReadString` and `refReadNull` are a reference reader for the grammar. -/

namespace Wee

/-! ### Syntax -/

/-- The headers of a final chunk. -/
inductive StrForm
  /-- `x00 – x1f`. -/
  | short
  /-- `x30 – x33 b0`. -/
  | medium
  /-- `'S' b1 b0`. -/
  | long
  deriving DecidableEq, Repr

/-- The largest number of characters a header can announce. -/
def StrForm.limit : StrForm → Nat
  | .short => 31
  | .medium => 1023
  | .long => 65535

/-- The header for `n` characters. -/
def StrForm.header : StrForm → Nat → List UInt8
  | .short, n => [UInt8.ofNat n]
  | .medium, n => [UInt8.ofNat (0x30 + n / 256), UInt8.ofNat (n % 256)]
  | .long, n => 0x53 :: beBytes 2 n

/-- The shortest header for `n` characters. -/
def StrForm.least (n : Nat) : StrForm :=
  if n ≤ 31 then .short else if n ≤ 1023 then .medium else .long

/-- The encoding of an ASCII text, with its shortest header. -/
def asciiString (text : List UInt8) : List UInt8 :=
  (StrForm.least text.length).header text.length ++ text

/-- A final chunk. -/
structure FinalChunk where
  /-- Its header. -/
  form : StrForm
  /-- Its characters. -/
  chars : List Utf8Char
  /-- The header can announce them. -/
  fits : chars.length ≤ form.limit

/-- The text of a final chunk. -/
def FinalChunk.text (f : FinalChunk) : List UInt8 := utf8Bytes f.chars

/-- The encoding of a final chunk. -/
def FinalChunk.bytes (f : FinalChunk) : List UInt8 := f.form.header f.chars.length ++ f.text

/-- A non-final chunk. -/
structure Chunk where
  /-- Its characters. -/
  chars : List Utf8Char
  /-- The 16-bit header can announce them. -/
  fits : chars.length ≤ 65535

/-- The text of a non-final chunk. -/
def Chunk.text (c : Chunk) : List UInt8 := utf8Bytes c.chars

/-- The encoding of a non-final chunk. -/
def Chunk.bytes (c : Chunk) : List UInt8 := (0x52 :: beBytes 2 c.chars.length) ++ c.text

/-- A Hessian string: non-final chunks, then a final one. -/
structure HsString where
  /-- The non-final chunks. -/
  chunks : List Chunk
  /-- The final chunk. -/
  final : FinalChunk

/-- The text a Hessian string denotes. -/
def HsString.text (s : HsString) : List UInt8 := s.chunks.flatMap Chunk.text ++ s.final.text

/-- The encoding of a Hessian string. -/
def HsString.bytes (s : HsString) : List UInt8 := s.chunks.flatMap Chunk.bytes ++ s.final.bytes

/-! ### A reference reader -/

/-- Read one UTF-8 character. -/
def refReadChar (bs : List UInt8) : Option (List UInt8 × List UInt8) :=
  if isUtf8Char (bs.take 1) then some (bs.take 1, bs.drop 1)
  else if isUtf8Char (bs.take 2) then some (bs.take 2, bs.drop 2)
  else if isUtf8Char (bs.take 3) then some (bs.take 3, bs.drop 3)
  else if isUtf8Char (bs.take 4) then some (bs.take 4, bs.drop 4)
  else none

/-- Read `n` UTF-8 characters: their bytes and the rest. -/
def refReadChars : Nat → List UInt8 → Option (List UInt8 × List UInt8)
  | 0, bs => some ([], bs)
  | n + 1, bs => do
    let (c, bs) ← refReadChar bs
    let (cs, bs) ← refReadChars n bs
    return (c ++ cs, bs)

/-- Read a string with at most `fuel` chunks. -/
def refReadChunks : Nat → List UInt8 → Option (List UInt8 × List UInt8)
  | 0, _ => none
  | _ + 1, [] => none
  | fuel + 1, code :: bs =>
    if code ≤ 0x1f then refReadChars code.toNat bs
    else if 0x30 ≤ code ∧ code ≤ 0x33 then
      match bs with
      | b0 :: bs => refReadChars ((code.toNat - 0x30) * 256 + b0.toNat) bs
      | _ => none
    else if code = 0x53 then
      match bs with
      | b1 :: b0 :: bs => refReadChars (beNat [b1, b0]) bs
      | _ => none
    else if code = 0x52 then
      match bs with
      | b1 :: b0 :: bs => do
        let (s, bs) ← refReadChars (beNat [b1, b0]) bs
        let (s', bs) ← refReadChunks fuel bs
        return (s ++ s', bs)
      | _ => none
    else none

/-- Read one Hessian string: its text and the rest. -/
def refReadString (bs : List UInt8) : Option (List UInt8 × List UInt8) :=
  refReadChunks bs.length bs

/-- Read one Hessian null: the rest. -/
def refReadNull : List UInt8 → Option (List UInt8)
  | code :: bs => if code = 0x4E then some bs else none
  | [] => none

/-- The reader takes the number of characters of a final chunk from its header. -/
theorem refReadChunks_header (form : StrForm) {n : Nat} (h : n ≤ form.limit) (fuel : Nat)
    (bs : List UInt8) : refReadChunks (fuel + 1) (form.header n ++ bs) = refReadChars n bs := by
  cases form with
  | short =>
    rw [StrForm.limit] at h
    have hn : (UInt8.ofNat n).toNat = n := by
      rw [UInt8.toNat_ofNat']
      omega
    have hle : UInt8.ofNat n ≤ 0x1f := by
      rw [UInt8.le_iff_toNat_le, hn]
      exact h
    rw [StrForm.header, List.singleton_append, refReadChunks.eq_def]
    simp only [if_pos hle, hn]
  | medium =>
    rw [StrForm.limit] at h
    have hcode : (UInt8.ofNat (0x30 + n / 256)).toNat = 0x30 + n / 256 := by
      rw [UInt8.toNat_ofNat']
      omega
    have hlow : (UInt8.ofNat (n % 256)).toNat = n % 256 := by
      rw [UInt8.toNat_ofNat']
      omega
    have hnot : ¬ UInt8.ofNat (0x30 + n / 256) ≤ 0x1f := by
      rw [UInt8.le_iff_toNat_le, hcode]
      change ¬ 0x30 + n / 256 ≤ 0x1f
      omega
    have hrange : 0x30 ≤ UInt8.ofNat (0x30 + n / 256) ∧ UInt8.ofNat (0x30 + n / 256) ≤ 0x33 := by
      rw [UInt8.le_iff_toNat_le, UInt8.le_iff_toNat_le, hcode]
      change 0x30 ≤ 0x30 + n / 256 ∧ 0x30 + n / 256 ≤ 0x33
      omega
    rw [StrForm.header, List.cons_append, List.singleton_append, refReadChunks, if_neg hnot,
      if_pos hrange]
    simp only [hcode, hlow]
    congr 1
    omega
  | long =>
    rw [StrForm.limit] at h
    have hn := beNat_beBytes 2 n
    rw [Nat.mod_eq_of_lt (by omega)] at hn
    simp only [StrForm.header, beBytes, List.cons_append, List.nil_append, refReadChunks] at hn ⊢
    rw [if_neg (by decide), if_neg (by decide), if_pos trivial, hn]

end Wee
