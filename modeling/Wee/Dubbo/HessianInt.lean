import Wee.Dubbo.Hessian
import Wee.Lib.Memory

/-! # The Hessian integer codec

The encoder has four forms of 1, 2, 3 and 5 bytes whose lead bytes the decoder tells apart. The test
for the two-byte form compares `val + 0xc8` instead of `val` with its lower bound, so it also takes
the 200 values below `-0x800`; their lead byte is `0xbf`, that of a one-byte form. Everywhere else
the codec round-trips. -/

namespace Wee

/-- The byte left by a conversion, as a number. -/
theorem toNat_toU8 (x : Int) : ((toU8 x).toNat : Int) = x % 256 := by
  have h : (x % 256).toNat < 256 := by omega
  rw [toU8, UInt8.toNat_ofNat', Nat.mod_eq_of_lt h]
  omega

/-- **The integer round trip**: the decoder reads the value back whatever follows, and reports every
strict non-empty front part of the encoding as incomplete. -/
def IntRoundTrips (val : Int32) : Prop :=
  (∀ (t : List UInt8) (mem : Nat → UInt8), Holds mem 0 (hsEncodeInt val ++ t) →
      hsDecodeInt mem ((hsEncodeInt val).length + t.length) = some val.toInt) ∧
    ∀ k, 0 < k → k < (hsEncodeInt val).length → ∀ mem : Nat → UInt8,
      Holds mem 0 ((hsEncodeInt val).take k) → hsDecodeInt mem k = none

/-- The test for the two-byte form, with the wrap-around resolved: above the `int` range of the sum
the second comparison fails anyway. -/
theorem twoByteTest_iff (val : Int32) :
    (-0x800 ≤ toSigned 32 (toUnsigned 32 (val.toInt + 0xc8)) ∧ val.toInt ≤ 0x7ff)
      ↔ -2248 ≤ val.toInt ∧ val.toInt ≤ 0x7ff := by
  have hlo := val.le_toInt
  have hhi := val.toInt_lt
  unfold toSigned toUnsigned
  omega

/-! ### The four forms -/

section Forms

variable {val : Int32}

/-- The one-byte form. -/
theorem hsEncodeInt_one (h : -0x10 ≤ val.toInt ∧ val.toInt ≤ 0x2f) :
    hsEncodeInt val = [toU8 (val.toInt + 0x90)] := by
  rw [hsEncodeInt, if_pos h]

/-- The two-byte form. -/
theorem hsEncodeInt_two (h₁ : ¬ (-0x10 ≤ val.toInt ∧ val.toInt ≤ 0x2f))
    (h : -2248 ≤ val.toInt ∧ val.toInt ≤ 0x7ff) :
    hsEncodeInt val = [toU8 (val.toInt / 256 + 0xc8), toU8 val.toInt] := by
  simp only [hsEncodeInt]
  rw [if_neg h₁, if_pos ((twoByteTest_iff val).mpr h), Int.shiftRight_eq_div_pow]
  rfl

/-- The three-byte form. -/
theorem hsEncodeInt_three (h₂ : ¬ (-2248 ≤ val.toInt ∧ val.toInt ≤ 0x7ff))
    (h : -0x40000 ≤ val.toInt ∧ val.toInt ≤ 0x3ffff) :
    hsEncodeInt val
      = toU8 (val.toInt / 65536 + 0xd4) :: beBytes 2 (toUnsigned 16 val.toInt) := by
  simp only [hsEncodeInt]
  rw [if_neg (by omega), if_neg (fun h' => h₂ ((twoByteTest_iff val).mp h')), if_pos h,
    Int.shiftRight_eq_div_pow]
  rfl

/-- The five-byte form. -/
theorem hsEncodeInt_five (h : ¬ (-0x40000 ≤ val.toInt ∧ val.toInt ≤ 0x3ffff)) :
    hsEncodeInt val = 0x49 :: beBytes 4 (toUnsigned 32 val.toInt) := by
  simp only [hsEncodeInt]
  rw [if_neg (by omega), if_neg (fun h' => by have := (twoByteTest_iff val).mp h'; omega),
    if_neg h]

end Forms

/-! ### The decoder by lead byte -/

section Lead

variable {mem : Nat → UInt8} {sz : Nat}

/-- A lead byte of the one-byte form. -/
theorem hsDecodeInt_lead_one (hlo : 0x80 ≤ (mem 0).toNat) (hhi : (mem 0).toNat ≤ 0xbf)
    (hsz : 1 ≤ sz) : hsDecodeInt mem sz = some (((mem 0).toNat : Int) - 0x90) := by
  simp only [hsDecodeInt]
  rw [if_pos ⟨hsz, hlo, hhi⟩]

/-- A lead byte of the two-byte form. -/
theorem hsDecodeInt_lead_two (hlo : 0xc0 ≤ (mem 0).toNat) (hhi : (mem 0).toNat ≤ 0xcf) :
    hsDecodeInt mem sz
      = if 2 ≤ sz then some ((((mem 0).toNat : Int) - 0xc8) * 2 ^ 8 + (mem 1).toNat)
        else none := by
  simp only [hsDecodeInt]
  rw [if_neg (by omega)]
  by_cases hsz : 2 ≤ sz
  · rw [if_pos ⟨hsz, hlo, hhi⟩, if_pos hsz]
  · rw [if_neg (by omega), if_neg (by omega), if_neg (by omega), if_neg hsz]

/-- A lead byte of the three-byte form. -/
theorem hsDecodeInt_lead_three (hlo : 0xd0 ≤ (mem 0).toNat) (hhi : (mem 0).toNat ≤ 0xd7) :
    hsDecodeInt mem sz
      = if 3 ≤ sz then
          some ((((mem 0).toNat : Int) - 0xd4) * 2 ^ 16 + (mem 1).toNat * 2 ^ 8 + (mem 2).toNat)
        else none := by
  simp only [hsDecodeInt]
  rw [if_neg (by omega), if_neg (by omega)]
  by_cases hsz : 3 ≤ sz
  · rw [if_pos ⟨hsz, hlo, hhi⟩, if_pos hsz]
  · rw [if_neg (by omega), if_neg (by omega), if_neg hsz]

/-- The lead byte of the five-byte form. -/
theorem hsDecodeInt_lead_five (hcode : (mem 0).toNat = 0x49) :
    hsDecodeInt mem sz
      = if 5 ≤ sz then some (toSigned 32 (beNat [mem 1, mem 2, mem 3, mem 4])) else none := by
  simp only [hsDecodeInt]
  rw [if_neg (by omega), if_neg (by omega), if_neg (by omega)]
  by_cases hsz : 5 ≤ sz
  · rw [if_pos ⟨hsz, hcode⟩, if_pos hsz]
  · rw [if_neg (by omega), if_neg hsz]

end Lead

/-! ### The round trip -/

/-- A strict non-empty front part of an encoding starts with its lead byte. -/
theorem holds_take_lead {mem : Nat → UInt8} {b : UInt8} {bs : List UInt8} {k : Nat} (hk : 0 < k)
    (h : Holds mem 0 ((b :: bs).take k)) : mem 0 = b := by
  obtain ⟨k, rfl⟩ := Nat.exists_eq_succ_of_ne_zero hk.ne'
  rw [List.take_succ_cons] at h
  exact h.1

/-- The one-byte form round-trips. -/
theorem intRoundTrips_one {val : Int32} (h : -0x10 ≤ val.toInt ∧ val.toInt ≤ 0x2f) :
    IntRoundTrips val := by
  have hlead := toNat_toU8 (val.toInt + 0x90)
  rw [IntRoundTrips, hsEncodeInt_one h]
  refine ⟨fun t mem hmem => ?_, fun k hk hlt => ?_⟩
  · obtain ⟨h0, -⟩ := hmem
    rw [hsDecodeInt_lead_one (by rw [h0]; omega) (by rw [h0]; omega)
      (by rw [List.length_singleton]; omega), h0, hlead]
    congr 1
    omega
  · rw [List.length_singleton] at hlt
    omega

/-- The two-byte form round-trips on the values the decoder expects in it. -/
theorem intRoundTrips_two {val : Int32} (h₁ : ¬ (-0x10 ≤ val.toInt ∧ val.toInt ≤ 0x2f))
    (h : -0x800 ≤ val.toInt ∧ val.toInt ≤ 0x7ff) : IntRoundTrips val := by
  have hlead := toNat_toU8 (val.toInt / 256 + 0xc8)
  have hlow := toNat_toU8 val.toInt
  rw [IntRoundTrips, hsEncodeInt_two h₁ (by omega)]
  refine ⟨fun t mem hmem => ?_, fun k hk hlt mem hmem => ?_⟩
  · obtain ⟨h0, h1, -⟩ := hmem
    rw [hsDecodeInt_lead_two (by rw [h0]; omega) (by rw [h0]; omega),
      if_pos (by simp only [List.length_cons]; omega), h0, h1, hlead, hlow]
    congr 1
    omega
  · have h0 := holds_take_lead hk hmem
    simp only [List.length_cons, List.length_nil] at hlt
    rw [hsDecodeInt_lead_two (by rw [h0]; omega) (by rw [h0]; omega), if_neg (by omega)]

/-- The three-byte form round-trips. -/
theorem intRoundTrips_three {val : Int32} (h₂ : ¬ (-2248 ≤ val.toInt ∧ val.toInt ≤ 0x7ff))
    (h : -0x40000 ≤ val.toInt ∧ val.toInt ≤ 0x3ffff) : IntRoundTrips val := by
  have hlead := toNat_toU8 (val.toInt / 65536 + 0xd4)
  have hval := beNat_beBytes 2 (toUnsigned 16 val.toInt)
  rw [IntRoundTrips, hsEncodeInt_three h₂ h]
  refine ⟨fun t mem hmem => ?_, fun k hk hlt mem hmem => ?_⟩
  · obtain ⟨h0, h1, h2, -⟩ := hmem
    simp only [Nat.zero_add, Nat.reduceAdd] at h1 h2
    rw [hsDecodeInt_lead_three (by rw [h0]; omega) (by rw [h0]; omega),
      if_pos (by simp only [List.length_cons, length_beBytes]; omega), h0, hlead]
    simp only [beBytes, beNat, ← h1, ← h2, List.length_cons, List.length_nil] at hval
    unfold toUnsigned at hval
    congr 1
    omega
  · have h0 := holds_take_lead hk hmem
    rw [List.length_cons, length_beBytes] at hlt
    rw [hsDecodeInt_lead_three (by rw [h0]; omega) (by rw [h0]; omega), if_neg (by omega)]

/-- The five-byte form round-trips. -/
theorem intRoundTrips_five {val : Int32} (h : ¬ (-0x40000 ≤ val.toInt ∧ val.toInt ≤ 0x3ffff)) :
    IntRoundTrips val := by
  have hval := beNat_beBytes 4 (toUnsigned 32 val.toInt)
  rw [IntRoundTrips, hsEncodeInt_five h]
  refine ⟨fun t mem hmem => ?_, fun k hk hlt mem hmem => ?_⟩
  · obtain ⟨h0, h1, h2, h3, h4, -⟩ := hmem
    rw [hsDecodeInt_lead_five (by rw [h0]; rfl),
      if_pos (by simp only [List.length_cons, length_beBytes]; omega)]
    have hbytes : [mem 1, mem 2, mem 3, mem 4] = beBytes 4 (toUnsigned 32 val.toInt) := by
      rw [h1, h2, h3, h4]
      rfl
    have hlt : toUnsigned 32 val.toInt < 256 ^ 4 := by
      unfold toUnsigned
      omega
    rw [hbytes, hval, Nat.mod_eq_of_lt hlt,
      toSigned_toUnsigned (by decide) val.le_toInt val.toInt_lt]
  · have h0 := holds_take_lead hk hmem
    rw [List.length_cons, length_beBytes] at hlt
    rw [hsDecodeInt_lead_five (by rw [h0]; rfl), if_neg (by omega)]

/-- The 200 values below the two-byte range are encoded with a lead byte of the one-byte form, so
the decoder reads 47. -/
theorem not_intRoundTrips {val : Int32} (h : -2248 ≤ val.toInt ∧ val.toInt ≤ -2049) :
    ¬ IntRoundTrips val := by
  intro hrt
  have hlead := toNat_toU8 (val.toInt / 256 + 0xc8)
  have henc : hsEncodeInt val = [toU8 (val.toInt / 256 + 0xc8), toU8 val.toInt] :=
    hsEncodeInt_two (by omega) (by omega)
  have hdec := hrt.1 [] (zeroExt (hsEncodeInt val)) (by
    rw [List.append_nil]
    exact holds_zeroExt _)
  have h0 : zeroExt (hsEncodeInt val) 0 = toU8 (val.toInt / 256 + 0xc8) := by
    rw [henc]
    rfl
  rw [hsDecodeInt_lead_one (by rw [h0]; omega) (by rw [h0]; omega)
    (by rw [henc]; simp only [List.length_cons]; omega), h0, Option.some.injEq] at hdec
  omega

/-- **The integer codec round-trips exactly off the misplaced range** `-2248 … -2049`. -/
theorem hs_int_round_trip_iff (val : Int32) :
    IntRoundTrips val ↔ ¬ (-2248 ≤ val.toInt ∧ val.toInt ≤ -2049) := by
  refine ⟨fun hrt h => not_intRoundTrips h hrt, fun h => ?_⟩
  by_cases h₁ : -0x10 ≤ val.toInt ∧ val.toInt ≤ 0x2f
  · exact intRoundTrips_one h₁
  by_cases h₂ : -2248 ≤ val.toInt ∧ val.toInt ≤ 0x7ff
  · exact intRoundTrips_two h₁ (by omega)
  by_cases h₃ : -0x40000 ≤ val.toInt ∧ val.toInt ≤ 0x3ffff
  · exact intRoundTrips_three h₂ h₃
  · exact intRoundTrips_five h₃

/-- `-2049` is encoded as `bf ff`, which decodes to 47. -/
theorem hs_int_round_trip_fails : ¬ IntRoundTrips (-2049) :=
  not_intRoundTrips (by decide)

end Wee
