import Wee.Net.TcpOptionsGrammar

/-! # What option parsing reads

The kind and the size of an option are fetched before the size is compared with the bytes that are
left. So when a kind other than the two single bytes stands in the last byte of a header, the byte
behind the header is fetched as its size. That is the only access outside the header, and what is
found there makes no difference: the option is refused whatever its size. -/

namespace Wee

/-- Options that end in a kind without its size. -/
def LoneKind (bs : List UInt8) : Prop :=
  ∃ (os : List TcpOption) (kind : UInt8), 2 ≤ kind ∧ bs = optionsBytes os ++ [kind]

/-- How the bytes of options begin. -/
inductive OptionsView : List UInt8 → Prop
  /-- There are none. -/
  | nil : OptionsView []
  /-- The end of options. -/
  | eol (pad : List UInt8) : OptionsView (tcpoptEol :: pad)
  /-- An option. -/
  | option (o : TcpOption) (rest : List UInt8) : OptionsView (o.bytes ++ rest)
  /-- A kind in the last byte. -/
  | lone (kind : UInt8) (hkind : 2 ≤ kind) : OptionsView [kind]
  /-- A size that does not cover the kind and the size. -/
  | silly (kind size : UInt8) (rest : List UInt8) (hkind : 2 ≤ kind) (hsize : size.toNat < 2) :
      OptionsView (kind :: size :: rest)
  /-- A size that reaches behind the last byte. -/
  | cut (kind size : UInt8) (rest : List UInt8) (hkind : 2 ≤ kind)
      (hsize : rest.length + 2 < size.toNat) : OptionsView (kind :: size :: rest)

/-- Option parsing stays inside the header: it returns with no more memory than the header, and what
it returns is the same whatever stands behind the header. -/
def ParsesInside (order : ByteOrder) (h : TcpHeader) (opt : TcpOpt) : Prop :=
  (∃ r, tcpParseRecvOptions order h.bytes opt = .ok r) ∧
    ∀ rest rest' r r', tcpParseRecvOptions order (h.bytes ++ rest) opt = .ok r →
      tcpParseRecvOptions order (h.bytes ++ rest') opt = .ok r' → r = r'

section

variable {bs : List UInt8} {h : TcpHeader} {opt : TcpOpt} {fuel : Nat}

/-- Every kind, size and body is an option. -/
theorem exists_option {kind : UInt8} (hkind : 2 ≤ kind) {body : List UInt8}
    (hlen : body.length + 2 < 256) : ∃ o : TcpOption, o.bytes = tlvBytes kind body := by
  by_cases hrec : Recognised kind (body.length + 2)
  · simp only [Recognised, List.mem_cons, Prod.mk.injEq, List.not_mem_nil, or_false] at hrec
    obtain ⟨rfl, hsize⟩ | ⟨rfl, hsize⟩ | ⟨rfl, hsize⟩ | ⟨rfl, hsize⟩ := hrec
    · have hbody : body.length = 2 := Nat.add_right_cancel hsize
      have hlt := beNat_lt body
      rw [hbody] at hlt
      refine ⟨.mss (UInt16.ofNat (beNat body)), ?_⟩
      rw [TcpOption.bytes, UInt16.toNat_ofNat_of_lt' hlt, ← hbody, beBytes_beNat]
    · obtain ⟨v, rfl⟩ := List.length_eq_one_iff.mp (Nat.add_right_cancel hsize)
      exact ⟨.window v, rfl⟩
    · obtain rfl := List.length_eq_zero_iff.mp (Nat.add_right_cancel hsize)
      exact ⟨.sackPerm, rfl⟩
    · have hbody : body.length = 8 := Nat.add_right_cancel hsize
      have hval : (body.take 4).length = 4 := by rw [List.length_take, hbody]; rfl
      have hecr : (body.drop 4).length = 4 := by rw [List.length_drop, hbody]
      refine ⟨.timestamp (UInt32.ofNat (beNat (body.take 4))) (UInt32.ofNat (beNat (body.drop 4))),
        ?_⟩
      rw [TcpOption.bytes, beBytes_ofNat_beNat hval, beBytes_ofNat_beNat hecr,
        List.take_append_drop]
  · exact ⟨.other kind body hkind hlen hrec, rfl⟩

/-- **The bytes of options begin** in one of these ways. -/
theorem optionsView : ∀ bs : List UInt8, OptionsView bs
  | [] => .nil
  | kind :: bs => by
    by_cases heol : kind = tcpoptEol
    · rw [heol]
      exact .eol bs
    by_cases hnop : kind = tcpoptNop
    · rw [hnop]
      exact .option .nop bs
    have hkind : 2 ≤ kind := by
      have h0 : kind.toNat ≠ 0 := fun h => heol (UInt8.toNat_inj.mp h)
      have h1 : kind.toNat ≠ 1 := fun h => hnop (UInt8.toNat_inj.mp h)
      exact UInt8.le_iff_toNat_le.mpr (show 2 ≤ kind.toNat by omega)
    cases bs with
    | nil => exact .lone kind hkind
    | cons size rest =>
      by_cases hsilly : size.toNat < 2
      · exact .silly kind size rest hkind hsilly
      by_cases hcut : rest.length + 2 < size.toNat
      · exact .cut kind size rest hkind hcut
      have hbody : (rest.take (size.toNat - 2)).length + 2 = size.toNat := by
        rw [List.length_take]
        omega
      obtain ⟨o, ho⟩ := exists_option hkind (hbody ▸ size.toNat_lt)
      have hbytes : o.bytes ++ rest.drop (size.toNat - 2) = kind :: size :: rest := by
        rw [ho, tlvBytes, hbody, UInt8.ofNat_toNat, List.cons_append, List.cons_append,
          List.take_append_drop]
      exact hbytes ▸ .option o _

/-- An option in front keeps a lone kind at the end. -/
theorem LoneKind.cons (o : TcpOption) (hlone : LoneKind bs) : LoneKind (o.bytes ++ bs) := by
  obtain ⟨os, kind, hkind, rfl⟩ := hlone
  exact ⟨o :: os, kind, hkind, by rw [optionsBytes_cons, List.append_assoc]⟩

/-- A size that is refused. -/
theorem tcpOptionsLoop_refused {kind size : UInt8} (hkind : 2 ≤ kind) {n : Nat} (hn : 0 < n)
    (hsize : size.toNat < 2 ∨ n < size.toNat) (rest : List UInt8) :
    tcpOptionsLoop (fuel + 1) (kind :: size :: rest) n opt = .ok (false, opt) := by
  rw [tcpOptionsLoop_kind fuel hkind _ hn, fetch, exec_ok_bind]
  dsimp only
  split_ifs with hsilly hcut
  · rfl
  · rfl
  · omega

/-- **The loop inside its bytes**: it ends in a lone kind, or it returns, whatever stands behind
them. -/
theorem tcpOptionsLoop_inside (bs : List UInt8) (hfuel : bs.length ≤ fuel) (opt : TcpOpt) :
    LoneKind bs ∨ ∃ r, ∀ rest, tcpOptionsLoop fuel (bs ++ rest) bs.length opt = .ok r := by
  induction fuel generalizing bs opt with
  | zero =>
    obtain rfl := List.length_eq_zero_iff.mp (Nat.le_zero.mp hfuel)
    exact .inr ⟨_, fun rest => tcpOptionsLoop_of_le 0 _ (le_refl 0) opt⟩
  | succ fuel ih =>
    cases optionsView bs with
    | nil => exact .inr ⟨_, fun rest => tcpOptionsLoop_of_le _ _ (le_refl 0) opt⟩
    | eol pad => exact .inr ⟨_, fun rest => tcpOptionsLoop_eol fuel _ (Nat.succ_pos _) opt⟩
    | option o bs =>
      have hpos := o.length_bytes_pos
      rw [List.length_append] at hfuel ⊢
      obtain hlone | ⟨r, hr⟩ := ih bs (by omega) (lastValues [o] opt)
      · exact .inl (hlone.cons o)
      · refine .inr ⟨r, fun rest => ?_⟩
        rw [List.append_assoc, tcpOptionsLoop_option, hr]
    | lone kind hkind => exact .inl ⟨[], kind, hkind, rfl⟩
    | silly kind size bs hkind hsize =>
      exact .inr ⟨_, fun rest => tcpOptionsLoop_refused hkind (Nat.succ_pos _) (.inl hsize) _⟩
    | cut kind size bs hkind hsize =>
      exact .inr ⟨_, fun rest => tcpOptionsLoop_refused hkind (Nat.succ_pos _) (.inr hsize) _⟩

/-- The rounds of the loop up to a lone kind. -/
theorem LoneKind.loop (hlone : LoneKind bs) (hfuel : bs.length ≤ fuel) (opt : TcpOpt) :
    ∃ fuel' kind opt', 2 ≤ kind ∧ ∀ rest, tcpOptionsLoop fuel (bs ++ rest) bs.length opt
      = tcpOptionsLoop (fuel' + 1) (kind :: rest) 1 opt' := by
  obtain ⟨os, kind, hkind, rfl⟩ := hlone
  have hle := length_le_optionsBytes os
  rw [List.length_append, List.length_singleton] at hfuel ⊢
  obtain ⟨left, rfl⟩ := Nat.exists_eq_add_of_le' (show os.length + 1 ≤ fuel by omega)
  refine ⟨left, kind, lastValues os opt, hkind, fun rest => ?_⟩
  rw [List.append_assoc, Nat.add_comm os.length, ← Nat.add_assoc, tcpOptionsLoop_options]
  rfl

/-- **The loop on a lone kind** fetches the byte behind it. -/
theorem LoneKind.loop_faults (hlone : LoneKind bs) (hfuel : bs.length ≤ fuel) (opt : TcpOpt) :
    tcpOptionsLoop fuel bs bs.length opt = .error .outOfBounds := by
  obtain ⟨fuel', kind, opt', hkind, hloop⟩ := hlone.loop hfuel opt
  have hend := hloop []
  rw [List.append_nil] at hend
  rw [hend]
  exact (tcpOptionsLoop_kind fuel' hkind [] Nat.one_pos opt').trans rfl

/-- **A lone kind is refused** whatever its size seems to be. -/
theorem LoneKind.loop_refused (hlone : LoneKind bs) (hfuel : bs.length ≤ fuel) (opt : TcpOpt) :
    ∃ r, ∀ size rest, tcpOptionsLoop fuel (bs ++ size :: rest) bs.length opt = .ok r := by
  obtain ⟨fuel', kind, opt', hkind, hloop⟩ := hlone.loop hfuel opt
  refine ⟨(false, opt'), fun size rest => ?_⟩
  rw [hloop]
  exact tcpOptionsLoop_refused hkind Nat.one_pos (by omega) rest

/-- A header that claims no more bytes than the fixed ones has no options to look at. -/
theorem tcpParseRecvOptions_short {th : List UInt8} {off : Nat} (hth : thOff th = .ok off)
    (hoff : off ≤ 5) (order : ByteOrder) (opt : TcpOpt) :
    tcpParseRecvOptions order th opt = .ok (decide (off ≠ 5), opt) := by
  rw [tcpParseRecvOptions, hth, exec_ok_bind]
  by_cases h5 : off = 5
  · rw [h5]
    rfl
  · have hmin : ¬ off = sizeofTcphdr / 4 := h5
    have hfast : ¬ off = (sizeofTcphdr + tcpolenTstampAligned) / 4 := fun h8 =>
      absurd (h8 ▸ hoff) (by decide)
    rw [if_neg hmin, if_neg hfast, tcpParseOptionsFrom,
      tcpOptionsLoop_of_le _ _ (tcpOptionsLength_nonpos hoff), decide_eq_true h5]

/-- **Parsing a header**: its options end in a lone kind, or parsing returns, whatever stands behind
the header. -/
theorem TcpHeader.parse_inside (h : TcpHeader) (order : ByteOrder) (opt : TcpOpt) :
    LoneKind h.options ∨ ∃ r, ∀ rest, tcpParseRecvOptions order (h.bytes ++ rest) opt = .ok r := by
  by_cases hoff : h.off ≤ 5
  · exact .inr ⟨_, fun rest => tcpParseRecvOptions_short (h.off_append rest) hoff order opt⟩
  · obtain hlone | ⟨r, hr⟩ := tcpOptionsLoop_inside h.options (le_refl _) opt
    · exact .inl hlone
    · refine .inr ⟨r, fun rest => ?_⟩
      rw [h.parse_eq (by omega), h.parseFrom_eq (by omega), hr]

/-- A lone kind needs options. -/
theorem LoneKind.off_gt (hlone : LoneKind h.options) : 5 < h.off := by
  obtain ⟨os, kind, -, hopts⟩ := hlone
  have hlen := congrArg List.length hopts
  rw [h.length_options, List.length_append, List.length_singleton] at hlen
  omega

/-- Parsing a header that ends in a lone kind leaves it. -/
theorem LoneKind.parse_faults (hlone : LoneKind h.options) (order : ByteOrder) (opt : TcpOpt) :
    tcpParseRecvOptions order h.bytes opt = .error .outOfBounds := by
  have hoff := hlone.off_gt
  have hparse := h.parse_eq (by omega) order [] opt
  rw [h.parseFrom_eq (by omega), List.append_nil, List.append_nil,
    hlone.loop_faults (le_refl _)] at hparse
  exact hparse

/-- A header that ends in a lone kind is refused when there is a byte behind it. -/
theorem LoneKind.parse_refused (hlone : LoneKind h.options) (order : ByteOrder) (opt : TcpOpt) :
    ∃ r, ∀ size rest, tcpParseRecvOptions order (h.bytes ++ size :: rest) opt = .ok r := by
  have hoff := hlone.off_gt
  obtain ⟨r, hr⟩ := hlone.loop_refused (le_refl _) opt
  refine ⟨r, fun size rest => ?_⟩
  rw [h.parse_eq (by omega), h.parseFrom_eq (by omega), hr]

end

/-- **Option parsing stays inside the header** exactly when the options do not end in a lone
kind. -/
theorem tcp_parse_recv_options_inside_iff (order : ByteOrder) (h : TcpHeader) (opt : TcpOpt) :
    ParsesInside order h opt ↔ ¬ LoneKind h.options := by
  constructor
  · rintro ⟨⟨r, hr⟩, -⟩ hlone
    rw [hlone.parse_faults] at hr
    cases hr
  · intro hlone
    obtain ⟨r, hr⟩ := (h.parse_inside order opt).resolve_left hlone
    refine ⟨⟨r, ?_⟩, fun rest rest' r₁ r₂ h₁ h₂ => ?_⟩
    · rw [← List.append_nil h.bytes]
      exact hr []
    · rw [hr] at h₁ h₂
      exact Except.ok.inj (h₁.symm.trans h₂)

/-- A header of 24 bytes: three paddings and the kind of a time stamp. -/
def loneKindHeader : TcpHeader where
  bytes := List.replicate 12 0 ++ [0x60] ++ List.replicate 7 0 ++ [1, 1, 1, 8]
  off := 6
  off_eq := by decide
  length_eq := by decide

/-- The kind in the last byte makes the parser fetch the byte behind the header. -/
theorem tcp_parse_recv_options_leaves_header :
    ¬ ∀ (order : ByteOrder) (h : TcpHeader) (opt : TcpOpt), ParsesInside order h opt := by
  intro hall
  obtain ⟨⟨r, hr⟩, -⟩ := hall .little loneKindHeader ⟨0, 0, 0, 0, 0⟩
  have hfault : tcpParseRecvOptions .little loneKindHeader.bytes ⟨0, 0, 0, 0, 0⟩
      = .error .outOfBounds := by decide
  rw [hfault] at hr
  cases hr

end Wee
