import Wee.Net.TcpOptions

/-! # The grammar of TCP options

An option is the padding byte, or a kind, the size of the option and a body. This file has the
bytes of a list of options, what such a list says, and that the general loop of
`tcp_parse_recv_options` reads exactly that off; the fast path for an aligned timestamp is the loop
on the bytes of two paddings and a timestamp. -/

namespace Wee

/-- The kinds that are read, with the size they are read at. -/
def Recognised (kind : UInt8) (opsize : Nat) : Prop :=
  (kind, opsize) ∈ [(tcpoptMss, tcpolenMss), (tcpoptWindow, tcpolenWindow),
    (tcpoptSackPerm, tcpolenSackPerm), (tcpoptTimestamp, tcpolenTimestamp)]

instance instDecidableRecognised (kind : UInt8) (opsize : Nat) :
    Decidable (Recognised kind opsize) :=
  inferInstanceAs (Decidable (_ ∈ _))

/-- A TCP option. -/
inductive TcpOption
  /-- Padding. -/
  | nop
  /-- The maximal segment size. -/
  | mss (v : UInt16)
  /-- The window scaling. -/
  | window (v : UInt8)
  /-- SACK permitted. -/
  | sackPerm
  /-- A time stamp and its echo reply. -/
  | timestamp (tsval tsecr : UInt32)
  /-- Any other kind, or a kind above at another size. -/
  | other (kind : UInt8) (body : List UInt8) (hkind : 2 ≤ kind) (hlen : body.length + 2 < 256)
      (hother : ¬ Recognised kind (body.length + 2))

/-- A kind, the size of the option and a body. -/
def tlvBytes (kind : UInt8) (body : List UInt8) : List UInt8 :=
  kind :: UInt8.ofNat (body.length + 2) :: body

/-- The bytes of an option. -/
def TcpOption.bytes : TcpOption → List UInt8
  | .nop => [tcpoptNop]
  | .mss v => tlvBytes tcpoptMss (beBytes 2 v.toNat)
  | .window v => tlvBytes tcpoptWindow [v]
  | .sackPerm => tlvBytes tcpoptSackPerm []
  | .timestamp tsval tsecr =>
    tlvBytes tcpoptTimestamp (beBytes 4 tsval.toNat ++ beBytes 4 tsecr.toNat)
  | .other kind body _ _ _ => tlvBytes kind body

/-- The bytes of options one after the other. -/
def optionsBytes (os : List TcpOption) : List UInt8 := os.flatMap TcpOption.bytes

/-- The segment size an option announces. -/
def TcpOption.mss? : TcpOption → Option Nat
  | .mss v => some v.toNat
  | _ => none

/-- The window scaling an option announces. -/
def TcpOption.window? : TcpOption → Option Nat
  | .window v => some v.toNat
  | _ => none

/-- What an option leaves in `sack_ok`. -/
def TcpOption.sack? : TcpOption → Option Nat
  | .sackPerm => some tcpSackSeen
  | _ => none

/-- The time stamp of an option. -/
def TcpOption.tsval? : TcpOption → Option Nat
  | .timestamp tsval _ => some tsval.toNat
  | _ => none

/-- The echo reply of an option. -/
def TcpOption.tsecr? : TcpOption → Option Nat
  | .timestamp _ tsecr => some tsecr.toNat
  | _ => none

/-- The last value that `f` reads off the options, or `d` when there is none. -/
def lastOr (f : TcpOption → Option Nat) (os : List TcpOption) (d : Nat) : Nat :=
  (os.filterMap f).getLast?.getD d

/-- What options say: the last value of each recognised one, and `opt` elsewhere. -/
def lastValues (os : List TcpOption) (opt : TcpOpt) : TcpOpt where
  rcvTsval := lastOr TcpOption.tsval? os opt.rcvTsval
  rcvTsecr := lastOr TcpOption.tsecr? os opt.rcvTsecr
  sackOk := lastOr TcpOption.sack? os opt.sackOk
  sndWscale := lastOr TcpOption.window? os opt.sndWscale
  mssClamp := lastOr TcpOption.mss? os opt.mssClamp

/-- What may stand behind the options: nothing, or the end of options and padding. -/
def OptionsEnd (pad : List UInt8) : Prop := ∀ k ∈ pad.head?, k = tcpoptEol

/-- A TCP header: the fixed bytes, and the options `th_off` says there are. -/
structure TcpHeader where
  /-- The bytes. -/
  bytes : List UInt8
  /-- `th_off`. -/
  off : Nat
  /-- `th_off` is the high half of a byte. -/
  off_eq : thOff bytes = .ok off
  /-- The header ends where `th_off` says, or behind the fixed bytes. -/
  length_eq : bytes.length = max sizeofTcphdr (4 * off)

/-- The bytes of the options. -/
def TcpHeader.options (h : TcpHeader) : List UInt8 := h.bytes.drop sizeofTcphdr

section

variable {opt : TcpOpt} {o : TcpOption} {os : List TcpOption} {rest : List UInt8}

/-! ### The last value -/

/-- The last value, option by option. -/
theorem lastOr_cons (f : TcpOption → Option Nat) (o : TcpOption) (os : List TcpOption) (d : Nat) :
    lastOr f (o :: os) d = lastOr f os (lastOr f [o] d) := by
  cases ho : f o with
  | none => simp [lastOr, ho]
  | some v => simp [lastOr, ho, List.getLast?_cons]

/-- What options say, option by option. -/
theorem lastValues_cons (o : TcpOption) (os : List TcpOption) (opt : TcpOpt) :
    lastValues (o :: os) opt = lastValues os (lastValues [o] opt) := by
  rw [lastValues, lastValues]
  congr 1 <;> apply lastOr_cons

/-! ### Unaligned loads -/

/-- `get_unaligned_be16` reads two bytes in network byte order. -/
theorem getUnalignedBe16_append {bs : List UInt8} (h : bs.length = 2) :
    getUnalignedBe16 (bs ++ rest) = .ok (beNat bs) := by
  obtain ⟨a, b, rfl⟩ := List.length_eq_two.mp h
  have hval : a.toNat <<< 8 ||| b.toNat = beNat [a, b] := by
    rw [shiftLeft_or b.toNat_lt]
    simp [beNat]
  exact congrArg Except.ok hval

/-- `get_unaligned_be32` reads four bytes in network byte order. -/
theorem getUnalignedBe32_append {bs : List UInt8} (h : bs.length = 4) :
    getUnalignedBe32 (bs ++ rest) = .ok (beNat bs) := by
  match bs, h with
  | [a, b, c, d], _ =>
    have hshift : a.toNat <<< 24 ||| b.toNat <<< 16 ||| c.toNat <<< 8 ||| d.toNat
        = ((a.toNat <<< 8 ||| b.toNat) <<< 8 ||| c.toNat) <<< 8 ||| d.toNat := by
      simp only [Nat.shiftLeft_or_distrib, ← Nat.shiftLeft_add]
    have hval : a.toNat <<< 24 ||| b.toNat <<< 16 ||| c.toNat <<< 8 ||| d.toNat
        = beNat [a, b, c, d] := by
      rw [hshift, shiftLeft_or d.toNat_lt, shiftLeft_or c.toNat_lt, shiftLeft_or b.toNat_lt]
      simp only [beNat, List.length_cons, List.length_nil]
      ring
    exact congrArg Except.ok hval

/-! ### The loop on an option -/

/-- `int length` for a header with options. -/
theorem tcpOptionsLength_eq {off : Nat} (h5 : 5 ≤ off) (h16 : off < 16) :
    tcpOptionsLength off = (4 * (off - 5) : Nat) := by
  have hall : ∀ k < 16, 5 ≤ k → tcpOptionsLength k = (4 * (k - 5) : Nat) := by decide
  exact hall off h16 h5

/-- `int length` for a header shorter than its fixed bytes. -/
theorem tcpOptionsLength_nonpos {off : Nat} (h : off ≤ 5) : tcpOptionsLength off ≤ 0 := by
  have hall : ∀ k ≤ 5, tcpOptionsLength k ≤ 0 := by decide
  exact hall off h

/-- No option is left. -/
theorem tcpOptionsLoop_of_le (fuel : Nat) (ptr : List UInt8) {length : Int} (h : length ≤ 0)
    (opt : TcpOpt) : tcpOptionsLoop fuel ptr length opt = .ok (true, opt) := by
  cases fuel with
  | zero => rw [tcpOptionsLoop, if_neg (not_lt.mpr h)]
  | succ fuel => rw [tcpOptionsLoop, if_neg (not_lt.mpr h)]

/-- The end of options. -/
theorem tcpOptionsLoop_eol (fuel : Nat) (pad : List UInt8) {n : Nat} (hn : 0 < n) (opt : TcpOpt) :
    tcpOptionsLoop (fuel + 1) (tcpoptEol :: pad) n opt = .ok (true, opt) := by
  rw [tcpOptionsLoop, if_pos (by omega)]
  rfl

/-- **The loop on padding** goes one byte further. -/
theorem tcpOptionsLoop_nop (fuel : Nat) (ptr : List UInt8) (n : Nat) (opt : TcpOpt) :
    tcpOptionsLoop (fuel + 1) (tcpoptNop :: ptr) (n + 1 : Nat) opt
      = tcpOptionsLoop fuel ptr n opt := by
  rw [tcpOptionsLoop, if_pos (by omega)]
  show tcpOptionsLoop fuel ptr ((n + 1 : Nat) - 1) opt = _
  rw [Nat.cast_succ, add_sub_cancel_right]

/-- The loop on a kind that is neither padding nor the end of options. -/
theorem tcpOptionsLoop_kind (fuel : Nat) {kind : UInt8} (hkind : 2 ≤ kind) (ptr : List UInt8)
    {n : Nat} (hn : 0 < n) (opt : TcpOpt) :
    tcpOptionsLoop (fuel + 1) (kind :: ptr) n opt = (do
      let (opsize, ptr) ← fetch ptr
      if opsize.toNat < 2 then return (false, opt)
      else if (n : Int) < opsize.toNat then return (false, opt)
      else
        let opt ← tcpParseOption kind opsize.toNat ptr opt
        tcpOptionsLoop fuel (ptr.drop (opsize.toNat - 2)) (n - opsize.toNat) opt) := by
  have heol : kind ≠ tcpoptEol := by rintro rfl; exact absurd hkind (by decide)
  have hnop : kind ≠ tcpoptNop := by rintro rfl; exact absurd hkind (by decide)
  rw [tcpOptionsLoop, if_pos (by omega), fetch, exec_ok_bind]
  dsimp only
  rw [if_neg heol, if_neg hnop]

/-- **The loop on a kind, a size and a body** goes behind the body. -/
theorem tcpOptionsLoop_tlv (fuel : Nat) {kind : UInt8} (hkind : 2 ≤ kind) {body : List UInt8}
    (hlen : body.length + 2 < 256) (rest : List UInt8) (n : Nat) (opt : TcpOpt) :
    tcpOptionsLoop (fuel + 1) (tlvBytes kind body ++ rest) (body.length + 2 + n : Nat) opt = (do
      let opt ← tcpParseOption kind (body.length + 2) (body ++ rest) opt
      tcpOptionsLoop fuel rest n opt) := by
  have hsize : (UInt8.ofNat (body.length + 2)).toNat = body.length + 2 :=
    UInt8.toNat_ofNat_of_lt' hlen
  rw [tlvBytes, List.cons_append, List.cons_append,
    tcpOptionsLoop_kind fuel hkind _ (by omega), fetch, exec_ok_bind]
  dsimp only
  rw [hsize, if_neg (by omega), if_neg (by omega), Nat.add_sub_cancel, List.drop_left,
    Nat.cast_add _ n, add_sub_cancel_left]

/-- The inner `switch` on an option it does not recognise. -/
theorem tcpParseOption_other {kind : UInt8} {opsize : Nat} (h : ¬ Recognised kind opsize)
    (ptr : List UInt8) (opt : TcpOpt) : tcpParseOption kind opsize ptr opt = .ok opt := by
  unfold tcpParseOption
  split
  · exact if_neg fun heq => h (by subst heq; decide)
  · exact if_neg fun heq => h (by subst heq; decide)
  · exact if_neg fun heq => h (by subst heq; decide)
  · exact if_neg fun heq => h (by subst heq; decide)
  · rfl

/-- The inner `switch` on the body of a segment size. -/
theorem tcpParseOption_mss (v : UInt16) (rest : List UInt8) (opt : TcpOpt) :
    tcpParseOption tcpoptMss tcpolenMss (beBytes 2 v.toNat ++ rest) opt
      = .ok { opt with mssClamp := v.toNat } := by
  have hval : beNat (beBytes 2 v.toNat) = v.toNat :=
    (beNat_beBytes 2 _).trans (Nat.mod_eq_of_lt v.toNat_lt)
  show (getUnalignedBe16 (beBytes 2 v.toNat ++ rest) >>= _) = _
  rw [getUnalignedBe16_append (length_beBytes 2 _), hval, exec_ok_bind, exec_pure]

/-- The inner `switch` on the body of a time stamp. -/
theorem tcpParseOption_timestamp (tsval tsecr : UInt32) (rest : List UInt8) (opt : TcpOpt) :
    tcpParseOption tcpoptTimestamp tcpolenTimestamp
        (beBytes 4 tsval.toNat ++ beBytes 4 tsecr.toNat ++ rest) opt
      = .ok { opt with rcvTsval := tsval.toNat, rcvTsecr := tsecr.toNat } := by
  have hval (x : UInt32) : beNat (beBytes 4 x.toNat) = x.toNat :=
    (beNat_beBytes 4 _).trans (Nat.mod_eq_of_lt x.toNat_lt)
  rw [List.append_assoc]
  show (getUnalignedBe32 (beBytes 4 tsval.toNat ++ _) >>= _) = _
  rw [getUnalignedBe32_append (length_beBytes 4 _), hval, exec_ok_bind,
    List.drop_left' (length_beBytes 4 _), getUnalignedBe32_append (length_beBytes 4 _), hval,
    exec_ok_bind, exec_pure]

/-- The loop on a kind, a size and a body that the inner `switch` accepts. -/
theorem tcpOptionsLoop_tlv_of (fuel : Nat) {kind : UInt8} (hkind : 2 ≤ kind) {body : List UInt8}
    (hlen : body.length + 2 < 256) (n : Nat) {opt' : TcpOpt}
    (hopt : tcpParseOption kind (body.length + 2) (body ++ rest) opt = .ok opt') :
    tcpOptionsLoop (fuel + 1) (tlvBytes kind body ++ rest) ((tlvBytes kind body).length + n : Nat)
      opt = tcpOptionsLoop fuel rest n opt' := by
  have hloop := tcpOptionsLoop_tlv fuel hkind hlen rest n opt
  rw [hopt] at hloop
  exact hloop

/-- **One round of the loop**: it takes over what the option says and goes to the next one. -/
theorem tcpOptionsLoop_option (fuel : Nat) (o : TcpOption) (rest : List UInt8) (n : Nat)
    (opt : TcpOpt) :
    tcpOptionsLoop (fuel + 1) (o.bytes ++ rest) (o.bytes.length + n : Nat) opt
      = tcpOptionsLoop fuel rest n (lastValues [o] opt) := by
  cases o with
  | nop =>
    rw [TcpOption.bytes, List.length_singleton, Nat.add_comm 1 n]
    exact tcpOptionsLoop_nop fuel rest n opt
  | mss v =>
    exact tcpOptionsLoop_tlv_of fuel (by decide) (by simp) n (tcpParseOption_mss v rest opt)
  | window v => exact tcpOptionsLoop_tlv_of fuel (by decide) (by simp) n rfl
  | sackPerm => exact tcpOptionsLoop_tlv_of fuel (by decide) (by simp) n rfl
  | timestamp tsval tsecr =>
    exact tcpOptionsLoop_tlv_of fuel (by decide) (by simp) n
      (tcpParseOption_timestamp tsval tsecr rest opt)
  | other kind body hkind hlen hother =>
    exact tcpOptionsLoop_tlv_of fuel hkind hlen n (tcpParseOption_other hother _ opt)

/-- No option is empty. -/
theorem TcpOption.length_bytes_pos (o : TcpOption) : 0 < o.bytes.length := by
  cases o <;> exact Nat.succ_pos _

/-- The bytes of an option and of those behind it. -/
theorem optionsBytes_cons (o : TcpOption) (os : List TcpOption) :
    optionsBytes (o :: os) = o.bytes ++ optionsBytes os := List.flatMap_cons

/-- There are no more options than bytes. -/
theorem length_le_optionsBytes (os : List TcpOption) : os.length ≤ (optionsBytes os).length := by
  induction os with
  | nil => exact le_refl 0
  | cons o os ih =>
    have hpos := o.length_bytes_pos
    rw [optionsBytes_cons, List.length_append, List.length_cons]
    omega

/-- **The loop on options** takes over what they say and goes behind them. -/
theorem tcpOptionsLoop_options (os : List TcpOption) (fuel : Nat) (rest : List UInt8) (n : Nat)
    (opt : TcpOpt) :
    tcpOptionsLoop (fuel + os.length) (optionsBytes os ++ rest)
        ((optionsBytes os).length + n : Nat) opt
      = tcpOptionsLoop fuel rest n (lastValues os opt) := by
  induction os generalizing opt with
  | nil =>
    show tcpOptionsLoop fuel rest (0 + n : Nat) opt = _
    rw [Nat.zero_add]
    rfl
  | cons o os ih =>
    rw [optionsBytes_cons, List.length_append, List.append_assoc, Nat.add_assoc, List.length_cons,
      ← Nat.add_assoc fuel, tcpOptionsLoop_option, ih, ← lastValues_cons]

/-- **The loop on a whole header**: it returns `true` with what the options say. -/
theorem tcpOptionsLoop_grammar (os : List TcpOption) {pad : List UInt8} (hpad : OptionsEnd pad)
    (rest : List UInt8) {fuel : Nat} (hfuel : (optionsBytes os ++ pad).length ≤ fuel)
    (opt : TcpOpt) :
    tcpOptionsLoop fuel (optionsBytes os ++ pad ++ rest) (optionsBytes os ++ pad).length opt
      = .ok (true, lastValues os opt) := by
  have hle := length_le_optionsBytes os
  rw [List.length_append] at hfuel
  obtain ⟨left, rfl⟩ := Nat.exists_eq_add_of_le' (show os.length ≤ fuel by omega)
  rw [List.append_assoc, List.length_append, tcpOptionsLoop_options]
  cases pad with
  | nil => exact tcpOptionsLoop_of_le left _ (le_refl 0) _
  | cons k pad =>
    obtain rfl : k = tcpoptEol := hpad k rfl
    rw [List.length_cons] at hfuel
    obtain ⟨left, rfl⟩ := Nat.exists_eq_add_one_of_ne_zero (show left ≠ 0 by omega)
    exact tcpOptionsLoop_eol left _ (Nat.succ_pos _) _

/-! ### The header -/

variable {h : TcpHeader}

/-- The fixed bytes are there. -/
theorem TcpHeader.fixed_le (h : TcpHeader) : sizeofTcphdr ≤ h.bytes.length := by
  rw [h.length_eq]
  exact le_max_left _ _

/-- `th_off` is four bits. -/
theorem TcpHeader.off_lt (h : TcpHeader) : h.off < 16 := by
  have hoff := h.off_eq
  have hlt := byteAt_lt h.bytes 12
  rw [thOff, byteLoad_of_lt (lt_of_lt_of_le (by decide) h.fixed_le)] at hoff
  have heq : byteAt h.bytes 12 / 16 = h.off := Except.ok.inj hoff
  omega

/-- `th_off`, with more memory behind the header. -/
theorem TcpHeader.off_append (h : TcpHeader) (rest : List UInt8) :
    thOff (h.bytes ++ rest) = .ok h.off := by
  rw [← h.off_eq, thOff, thOff, byteLoad_append (lt_of_lt_of_le (by decide) h.fixed_le)]

/-- The options, with more memory behind the header. -/
theorem TcpHeader.drop_append (h : TcpHeader) (rest : List UInt8) :
    (h.bytes ++ rest).drop sizeofTcphdr = h.options ++ rest :=
  List.drop_append_of_le_length h.fixed_le

/-- The options are as long as `th_off` says. -/
theorem TcpHeader.length_options (h : TcpHeader) : h.options.length = 4 * (h.off - 5) := by
  rw [TcpHeader.options, List.length_drop, h.length_eq, sizeofTcphdr]
  omega

/-- The general loop on a header. -/
theorem TcpHeader.parseFrom_eq (h : TcpHeader) (h5 : 5 ≤ h.off) (rest : List UInt8)
    (opt : TcpOpt) :
    tcpParseOptionsFrom h.off (h.bytes ++ rest) opt
      = tcpOptionsLoop h.options.length (h.options ++ rest) h.options.length opt := by
  rw [tcpParseOptionsFrom, tcpOptionsLength_eq h5 h.off_lt, h.drop_append, Int.toNat_natCast,
    h.length_options]

/-! ### The fast path -/

/-- The bytes the fast path looks for: two paddings, and the kind and the size of a time stamp. -/
theorem beBytes_alignedTimestampWord :
    beBytes 4 alignedTimestampWord = [tcpoptNop, tcpoptNop, tcpoptTimestamp, 10] := by
  decide

/-- **The fast path** on a header of its size: three words, the first one the constant. -/
theorem tcpParseAlignedTimestamp_eq (order : ByteOrder) (opt : TcpOpt) {th : List UInt8}
    (h : 32 ≤ th.length) :
    tcpParseAlignedTimestamp order opt th
      = .ok (if slice th 20 4 = beBytes 4 alignedTimestampWord then
          (true, { opt with rcvTsval := beNat (slice th 24 4), rcvTsecr := beNat (slice th 28 4) })
        else (false, opt)) := by
  have hlen (off : Nat) (hoff : off + 4 ≤ 32) : (slice th off 4).length = 4 :=
    length_slice (le_trans hoff h)
  have hecr : (if hostNat order (slice th 28 4) ≠ 0 then
      swapBytes order 4 (hostNat order (slice th 28 4)) else 0) = beNat (slice th 28 4) := by
    rw [swapBytes_hostNat order (hlen 28 (by omega))]
    split_ifs with hzero
    · rfl
    · rw [not_ne_iff] at hzero
      have hswap := swapBytes_hostNat order (hlen 28 (by omega))
      rw [hzero] at hswap
      rw [← hswap]
      cases order <;> decide
  rw [tcpParseAlignedTimestamp, sizeofTcphdr, hostLoad_of_le (by omega), exec_ok_bind]
  simp only [htobe32, hostNat_eq_swapBytes (hlen 20 (by omega))
    (show alignedTimestampWord < 256 ^ 4 by decide)]
  split_ifs with hword
  · rw [hostLoad_of_le (by omega), exec_ok_bind, hostLoad_of_le (by omega), exec_ok_bind, hecr,
      be32toh, swapBytes_hostNat order (hlen 24 (by omega))]
    rfl
  · rfl

/-- The options of the fast path, for a time stamp and an echo reply given by their bytes. -/
def alignedOptions (tsval tsecr : List UInt8) : List TcpOption :=
  [.nop, .nop, .timestamp (UInt32.ofNat (beNat tsval)) (UInt32.ofNat (beNat tsecr))]

/-- A word read off four bytes. -/
theorem toNat_ofNat_beNat {bs : List UInt8} (h : bs.length = 4) :
    (UInt32.ofNat (beNat bs)).toNat = beNat bs := by
  have hlt := beNat_lt bs
  rw [h] at hlt
  exact UInt32.toNat_ofNat_of_lt' hlt

/-- The bytes of a word read off four bytes. -/
theorem beBytes_ofNat_beNat {bs : List UInt8} (h : bs.length = 4) :
    beBytes 4 (UInt32.ofNat (beNat bs)).toNat = bs := by
  rw [toNat_ofNat_beNat h, ← h, beBytes_beNat]

/-- The bytes of these options. -/
theorem optionsBytes_aligned {tsval tsecr : List UInt8} (hval : tsval.length = 4)
    (hecr : tsecr.length = 4) :
    optionsBytes (alignedOptions tsval tsecr)
      = beBytes 4 alignedTimestampWord ++ (tsval ++ tsecr) := by
  rw [optionsBytes, alignedOptions, List.flatMap_cons, List.flatMap_cons, List.flatMap_cons,
    List.flatMap_nil, List.append_nil, TcpOption.bytes, TcpOption.bytes, tlvBytes,
    beBytes_ofNat_beNat hval, beBytes_ofNat_beNat hecr, List.length_append, hval, hecr,
    beBytes_alignedTimestampWord]
  rfl

/-- What these options say. -/
theorem lastValues_aligned {tsval tsecr : List UInt8} (hval : tsval.length = 4)
    (hecr : tsecr.length = 4) (opt : TcpOpt) :
    lastValues (alignedOptions tsval tsecr) opt
      = { opt with rcvTsval := beNat tsval, rcvTsecr := beNat tsecr } := by
  rw [← toNat_ofNat_beNat hval, ← toNat_ofNat_beNat hecr]
  rfl

/-- **The fast path against the general loop**: it declines, or both return the same. -/
theorem TcpHeader.aligned_cases (h : TcpHeader) (h8 : h.off = 8) (order : ByteOrder)
    (rest : List UInt8) (opt : TcpOpt) :
    tcpParseAlignedTimestamp order opt (h.bytes ++ rest) = .ok (false, opt) ∨
      ∃ opt', tcpParseAlignedTimestamp order opt (h.bytes ++ rest) = .ok (true, opt') ∧
        tcpParseOptionsFrom h.off (h.bytes ++ rest) opt = .ok (true, opt') := by
  have hlen : h.options.length = 12 := by rw [h.length_options, h8]
  have hbytes : h.bytes.length = 32 := by rw [h.length_eq, h8]; rfl
  have hslice (off : Nat) (hoff : 20 ≤ off) (hle : off + 4 ≤ 32) :
      slice (h.bytes ++ rest) off 4 = slice h.options (off - 20) 4 := by
    rw [TcpHeader.options, slice, slice, List.drop_append_of_le_length (by omega),
      List.take_append_of_le_length (by rw [List.length_drop]; omega), List.drop_drop,
      sizeofTcphdr, Nat.add_sub_cancel' hoff]
  rw [tcpParseAlignedTimestamp_eq order opt (by rw [List.length_append]; omega),
    hslice 20 (by omega) (by omega), hslice 24 (by omega) (by omega),
    hslice 28 (by omega) (by omega)]
  by_cases hword : slice h.options 0 4 = beBytes 4 alignedTimestampWord
  · right
    have hval : (slice h.options 4 4).length = 4 := length_slice (by omega)
    have hecr : (slice h.options 8 4).length = 4 := length_slice (by omega)
    have hopts : h.options
        = optionsBytes (alignedOptions (slice h.options 4 4) (slice h.options 8 4)) ++ [] := by
      rw [optionsBytes_aligned hval hecr, ← hword, slice_append h.options 4 4 4,
        slice_append h.options 0 4 8, slice, List.drop_zero, List.append_nil]
      exact (List.take_of_length_le (le_of_eq hlen)).symm
    have hend : OptionsEnd [] := fun k hk => by cases hk
    have hloop := tcpOptionsLoop_grammar (alignedOptions (slice h.options 4 4)
      (slice h.options 8 4)) hend rest (le_refl _) opt
    rw [← hopts, ← h.parseFrom_eq (by omega), lastValues_aligned hval hecr] at hloop
    exact ⟨_, by rw [if_pos hword], hloop⟩
  · left
    rw [if_neg hword]

/-- The whole function runs the general loop, or does what it would do. -/
theorem TcpHeader.parse_eq (h : TcpHeader) (hoff : h.off ≠ 5) (order : ByteOrder)
    (rest : List UInt8) (opt : TcpOpt) :
    tcpParseRecvOptions order (h.bytes ++ rest) opt
      = tcpParseOptionsFrom h.off (h.bytes ++ rest) opt := by
  have hno : ¬ h.off = sizeofTcphdr / 4 := hoff
  rw [tcpParseRecvOptions, h.off_append, exec_ok_bind, if_neg hno]
  split_ifs with h8
  · obtain hmiss | ⟨opt', hhit, hfrom⟩ := h.aligned_cases h8 order rest opt
    · rw [hmiss, exec_ok_bind]
      exact if_neg Bool.false_ne_true
    · rw [hhit, exec_ok_bind, hfrom]
      exact if_pos rfl
  · rfl

end

/-- **Option parsing matches the grammar**: on a header with options, whatever stands behind it in
memory, `tcp_parse_recv_options` returns `true` and leaves the last value of each recognised option
in `tcpopt`, with the other fields as they were. -/
theorem tcp_parse_recv_options_grammar (order : ByteOrder) (h : TcpHeader) (os : List TcpOption)
    (pad rest : List UInt8) (opt : TcpOpt) (hoff : 5 < h.off)
    (hopts : h.options = optionsBytes os ++ pad) (hpad : OptionsEnd pad) :
    tcpParseRecvOptions order (h.bytes ++ rest) opt = .ok (true, lastValues os opt) := by
  rw [h.parse_eq (by omega), h.parseFrom_eq (by omega), hopts]
  exact tcpOptionsLoop_grammar os hpad rest (le_refl _) opt

/-- A header of 32 bytes: a segment size, an option of kind 30, another segment size, and the end of
options. -/
def sampleHeader : TcpHeader where
  bytes := List.replicate 12 0 ++ [0x80] ++ List.replicate 7 0
    ++ [2, 4, 5, 180, 30, 2, 2, 4, 2, 24, 0, 9]
  off := 8
  off_eq := by decide
  length_eq := by decide

/-- The last segment size counts. -/
theorem tcp_parse_recv_options_grammar_sample :
    tcpParseRecvOptions .little (sampleHeader.bytes ++ []) ⟨7, 7, 7, 7, 7⟩
      = .ok (true, ⟨7, 7, 7, 7, 536⟩) :=
  tcp_parse_recv_options_grammar .little sampleHeader
    [.mss 1460, .other 30 [] (by decide) (by decide) (by decide), .mss 536] [0, 9] []
    ⟨7, 7, 7, 7, 7⟩ (by decide) (by decide) (fun k hk => by cases hk; rfl)

/-- **The fast path is the general loop** on every header it accepts. -/
theorem tcp_parse_aligned_timestamp_eq_loop (order : ByteOrder) (h : TcpHeader) (hoff : h.off = 8)
    (rest : List UInt8) (opt opt' : TcpOpt)
    (hfast : tcpParseAlignedTimestamp order opt (h.bytes ++ rest) = .ok (true, opt')) :
    tcpParseOptionsFrom h.off (h.bytes ++ rest) opt = .ok (true, opt') := by
  obtain hmiss | ⟨opt'', hhit, hfrom⟩ := h.aligned_cases hoff order rest opt
  · rw [hmiss] at hfast
    cases hfast
  · rw [hhit] at hfast
    cases hfast
    exact hfrom

/-- A header of 32 bytes: two paddings and a time stamp. -/
def alignedHeader : TcpHeader where
  bytes := List.replicate 12 0 ++ [0x80] ++ List.replicate 7 0
    ++ [1, 1, 8, 10, 0x12, 0x34, 0x56, 0x78, 0, 0, 0, 1]
  off := 8
  off_eq := by decide
  length_eq := by decide

/-- A time stamp read both ways. -/
theorem tcp_parse_aligned_timestamp_eq_loop_sample :
    tcpParseOptionsFrom 8 (alignedHeader.bytes ++ []) ⟨0, 0, 0, 0, 0⟩
      = .ok (true, ⟨0x12345678, 1, 0, 0, 0⟩) :=
  tcp_parse_aligned_timestamp_eq_loop .little alignedHeader rfl [] ⟨0, 0, 0, 0, 0⟩
    ⟨0x12345678, 1, 0, 0, 0⟩ (by decide)

end Wee
