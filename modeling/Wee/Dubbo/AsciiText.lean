import Wee.Dubbo.AsciiJson

/-! # `utf82ascii` on every string

The decoder accepts a string exactly when it is well-formed UTF-8, so `utf82ascii` returns `NULL`
on the others, and on the well-formed ones the escaped code points. The length goes to the decoder
as an `int`: a string of `2 ^ 31` bytes is turned down, whatever it holds. -/

namespace Wee

variable {buf : Buffer} {d : Utf8Decoder} {bs : List UInt8} {fuel : Nat}

/-- A character in front keeps a string ill-formed. -/
theorem not_wellFormedUtf8_tail {c : Utf8Char} {rest : List UInt8}
    (h : ¬ WellFormedUtf8 (c.bytes ++ rest)) : ¬ WellFormedUtf8 rest := by
  rintro ⟨s, hs⟩
  apply h
  exact ⟨c :: s, by rw [utf8Bytes_cons, hs]⟩

/-- The loop stops at an error of the decoder. -/
theorem utf82asciiLoop_error (h : (utf8DecodeNext d).1 = .error) :
    utf82asciiLoop (fuel + 1) buf d = .ok none := by
  have hnext : utf8DecodeNext d = (.error, (utf8DecodeNext d).2) := Prod.ext h rfl
  rw [utf82asciiLoop, hnext]

/-- **The loop on ill-formed bytes** ends at the first place where no character begins. The
induction is on the number of bytes left; a character that does begin them is taken off, and what
is behind it is ill-formed. -/
theorem utf82asciiLoop_none {n : Nat} (hn : bs.length ≤ n) (h : BufInv buf) (hat : d.At bs)
    (hill : ¬ WellFormedUtf8 bs) (hov : buf.sz + 12 * bs.length < 2 ^ 64) :
    utf82asciiLoop (n + 1) buf d = .ok none := by
  induction n generalizing buf d bs with
  | zero =>
    apply absurd _ hill
    rw [List.length_eq_zero_iff.mp (Nat.le_zero.mp hn)]
    exact ⟨[], rfl⟩
  | succ n ih =>
    cases bs with
    | nil => exact absurd ⟨[], rfl⟩ hill
    | cons a bs =>
      rcases utf8DecodeNext_cases hat with herror | ⟨c, rest, hc⟩
      · exact utf82asciiLoop_error herror
      · -- a character is written, in at most twelve bytes, and the rest is ill-formed
        rw [hc] at hat hill
        have hlen : (a :: bs).length = c.bytes.length + rest.length := by
          rw [hc, List.length_append]
        have hpos := c.length_pos
        obtain ⟨d', hnext, hat'⟩ := utf8DecodeNext_char c hat
        obtain ⟨ds, hds, happend⟩ := appendAscii_writes c.code_lt
        have happend : appendAscii buf c.code = bufAppends buf ds := happend buf
        have htwelve := (escapeChar_ascii c.code).1
        have hflat : ds.flatten.length = (escapeChar c.code).length := by
          rw [hds, charBytes, List.length_map]
        obtain ⟨b₁, hok, hinv₁, -, hsz₁⟩ := h.appends_spec ds (by omega)
        rw [utf82asciiLoop, hnext]
        dsimp only
        rw [happend, hok, exec_ok_bind]
        exact ih (by omega) hinv₁ hat' (not_wellFormedUtf8_tail hill) (by omega)

/-- `utf82ascii` returns `NULL` when its loop finds an error. -/
theorem utf82ascii_of_loop {s : CStr} (hpos : 0 < strlen s) (hlt : strlen s < 2 ^ 32)
    (hloop : ∀ buf, BufInv buf → buf.sz = strlen s * 2 + bufCheapPrepend →
      utf82asciiLoop fuel buf (utf8DecodeInit s.bytes (toSigned 32 (strlen s))) = .ok none) :
    utf82ascii fuel s = .ok none := by
  have hsize : strlen s * 2 % 2 ^ 64 = strlen s * 2 := by omega
  obtain ⟨buf, hok, hinv, -, -, hsz, -⟩ :=
    bufCreate_spec (n := strlen s * 2) (by omega) (by rw [bufCheapPrepend]; omega)
  rw [utf82ascii, hsize, hok, exec_ok_bind, hloop buf hinv hsz]
  rfl

/-- `utf82ascii` on an ill-formed string. -/
theorem utf82ascii_none {s : CStr} (hpos : 0 < strlen s) (hint : strlen s < 2 ^ 31)
    (hill : ¬ WellFormedUtf8 s.bytes) (hfuel : strlen s < fuel) :
    utf82ascii fuel s = .ok none := by
  obtain ⟨fuel, rfl⟩ := Nat.exists_eq_succ_of_ne_zero (Nat.ne_of_gt (Nat.zero_lt_of_lt hfuel))
  have hlen : s.bytes.length = strlen s := rfl
  refine utf82ascii_of_loop hpos (by omega) fun buf hinv hsz => ?_
  rw [bufCheapPrepend] at hsz
  rw [toSigned_of_lt (by omega)]
  exact utf82asciiLoop_none (by omega) hinv utf8DecodeInit_at hill (by omega)

/-- **`utf82ascii` on code points**: `NULL` exactly for the strings that are not well-formed UTF-8,
and for the others the escaped code points with a NUL behind them. -/
theorem utf82ascii_code_points (s : CStr) (hpos : 0 < strlen s) (hint : strlen s < 2 ^ 31) :
    Settles (fun fuel => utf82ascii fuel s) fun r =>
      (r = none ↔ ¬ WellFormedUtf8 s.bytes) ∧
        ∀ cs, utf8Bytes cs = s.bytes → r = some (charBytes (escapeText (utf8Codes cs)) ++ [0]) := by
  by_cases hwf : WellFormedUtf8 s.bytes
  · obtain ⟨cs, hcs⟩ := hwf
    have hchars : cs.length ≤ s.bytes.length := hcs ▸ length_le_utf8Bytes cs
    rw [show s.bytes.length = strlen s from rfl] at hchars
    refine ⟨strlen s + 1, some (charBytes (escapeText (utf8Codes cs)) ++ [0]),
      fun fuel hfuel => utf82ascii_eq hcs hpos hint (by omega), ?_, fun es hes => ?_⟩
    · exact iff_of_false (fun h => by cases h) (fun h => h ⟨cs, hcs⟩)
    · -- another reading of the bytes has the same code points
      have hcodes : utf8Codes cs = utf8Codes es :=
        utf8Codes_unique (d := utf8DecodeInit s.bytes s.bytes.length)
          (hcs ▸ utf8DecodeInit_at) (hes ▸ utf8DecodeInit_at)
      rw [hcodes]
  · refine ⟨strlen s + 1, none, fun fuel hfuel => utf82ascii_none hpos hint hwf (by omega), ?_, ?_⟩
    · exact iff_of_true rfl hwf
    · intro cs hcs
      exact absurd ⟨cs, hcs⟩ hwf

/-- An overlong form is not a character. -/
theorem utf82ascii_code_points_overlong :
    Settles (fun fuel => utf82ascii fuel ⟨[0x41, 0xC0, 0xAF], by decide⟩) fun r =>
      (r = none ↔ ¬ WellFormedUtf8 [0x41, 0xC0, 0xAF]) ∧ ∀ cs, utf8Bytes cs = [0x41, 0xC0, 0xAF] →
        r = some (charBytes (escapeText (utf8Codes cs)) ++ [0]) :=
  utf82ascii_code_points ⟨[0x41, 0xC0, 0xAF], by decide⟩ (by decide) (by decide)

/-! ### Lengths that are not an `int` -/

/-- A string of `n` letters. -/
def lettersOf (n : Nat) : CStr where
  bytes := List.replicate n 0x61
  nulFree h := absurd (List.eq_of_mem_replicate h) (by decide)

/-- It is well-formed. -/
theorem lettersOf_wellFormed (n : Nat) : WellFormedUtf8 (lettersOf n).bytes := by
  obtain ⟨s, hs, -⟩ := exists_utf8_of_ascii (List.replicate n 0x61) fun b hb =>
    (List.eq_of_mem_replicate hb).symm ▸ (by decide)
  exact ⟨s, hs⟩

/-- A length that is negative as an `int` is an error at once. -/
theorem utf82ascii_negative {s : CStr} (hlo : 2 ^ 31 ≤ strlen s) (hhi : strlen s < 2 ^ 32) :
    utf82ascii (fuel + 1) s = .ok none := by
  have hneg : toSigned 32 (strlen s) < 0 := by
    rw [toSigned]
    omega
  refine utf82ascii_of_loop (by omega) hhi fun buf _ _ => ?_
  exact utf82asciiLoop_error (utf8DecodeNext_behind hneg)

/-- `2 ^ 31` letters are turned down. -/
theorem utf82ascii_turns_down_letters :
    ¬ ∀ s : CStr, 0 < strlen s → Settles (fun fuel => utf82ascii fuel s) fun r =>
      (r = none ↔ ¬ WellFormedUtf8 s.bytes) ∧
        ∀ cs, utf8Bytes cs = s.bytes →
          r = some (charBytes (escapeText (utf8Codes cs)) ++ [0]) := by
  intro hall
  have hlen : strlen (lettersOf (2 ^ 31)) = 2 ^ 31 := List.length_replicate
  obtain ⟨N, r, hN, hiff, -⟩ := hall (lettersOf (2 ^ 31)) (by omega)
  have hnone : utf82ascii (N + 1) (lettersOf (2 ^ 31)) = .ok none :=
    utf82ascii_negative (by omega) (by omega)
  have hr : Except.ok r = .ok none := (hN (N + 1) (Nat.le_succ N)).symm.trans hnone
  exact hiff.mp (Except.ok.inj hr) (lettersOf_wellFormed _)

end Wee
