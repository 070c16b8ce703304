import Wee.Nova.Codec

/-! # Packing and unpacking Nova packets

`nova_unpack` reads exactly the headers `NovaFields` describes: it returns `true` on the bytes of
one that passes its checks, and every packet on which it returns `true` begins with one. The results
on round trips, on re-encoding and on safety follow from these two directions. -/

namespace Wee

/-! ### Strings with a length -/

/-- `malloc(len + 1)` of a length that leaves room for the NUL. -/
theorem mallocStr_natCast {n : Nat} (h : n < 2 ^ 31 - 1) : mallocStr n = some (n + 1) := by
  have hint : toSigned 32 (toUnsigned 32 ((n : Int) + 1)) = (n + 1 : Nat) := by
    rw [← Nat.cast_succ, toUnsigned_natCast (by omega), toSigned_of_lt (by omega)]
  rw [mallocStr, hint, toUnsigned_natCast (by omega), cMalloc, if_pos (by omega)]

/-- A block that `malloc(len + 1)` gave and that `len` bytes and a NUL fit has a length that is not
negative and to which one can be added. -/
theorem mallocStr_inv {len : Int} {n : Nat} (hfits : FitsInt 4 len) (h : mallocStr len = some n)
    (hn : toUnsigned 64 len < n) : 0 ≤ len ∧ len < 2 ^ 31 - 1 := by
  obtain ⟨hlo, hhi⟩ := hfits
  rw [mallocStr, cMalloc] at h
  split at h
  · rename_i hlt
    cases h
    unfold toSigned toUnsigned at hlt
    unfold toUnsigned at hn
    split at hlt
    · constructor <;> omega
    · constructor <;> omega
  · cases h

variable {b b' : Buffer} {rest : List UInt8}

/-- Reading a length and its string. -/
theorem bufReadLenStr_field {s : List UInt8} (h : BufInv b) (hs : s.length < 2 ^ 31 - 1)
    (hbytes : bufBytes b = lenStr s ++ rest) :
    ∃ b', bufReadLenStr b = .ok ((s.length : Int), s ++ [0], b') ∧ BufRepr b' rest := by
  rw [lenStr, List.append_assoc] at hbytes
  obtain ⟨b₁, hlen, hinv₁, hbytes₁⟩ :=
    h.readInt_field (by decide) ⟨by omega, by omega⟩ hbytes
  obtain ⟨b₂, hstr, hrepr⟩ := hinv₁.retrieveInto_field hbytes₁
  refine ⟨b₂, ?_, hrepr⟩
  have hsize : toUnsigned 64 (s.length : Int) = s.length := toUnsigned_natCast (by omega)
  simp only [bufReadLenStr, bufReadInt32, hlen, exec_ok_bind, mallocStr_natCast hs, hsize, hstr,
    exec_pure]

/-- What a length and its string were. -/
theorem bufReadLenStr_inv {len : Int} {str : List UInt8} (h : BufInv b)
    (hok : bufReadLenStr b = .ok (len, str, b')) :
    BufInv b' ∧ ∃ s : List UInt8, len = s.length ∧ str = s ++ [0] ∧ s.length < 2 ^ 31 - 1
      ∧ bufBytes b = lenStr s ++ bufBytes b' := by
  obtain ⟨⟨x, b₁⟩, hlen, hrest⟩ := exec_bind_eq_ok.mp hok
  obtain ⟨⟨d, b₂⟩, hstr, heq⟩ := exec_bind_eq_ok.mp hrest
  cases heq
  obtain ⟨hinv₁, hbytes₁, hfits⟩ := h.readInt_inv (by decide) hlen
  obtain ⟨hinv₂, ⟨n, hn, hlt⟩, s, hs, hd, hbytes₂⟩ := hinv₁.retrieveInto_inv hstr
  obtain ⟨hlo, hhi⟩ := mallocStr_inv hfits hn hlt
  have hlen' : len = s.length := by
    obtain ⟨m, rfl⟩ := Int.eq_ofNat_of_zero_le hlo
    rw [toUnsigned_natCast (by omega)] at hs
    rw [hs]
  refine ⟨hinv₂, s, hlen', hd, by omega, ?_⟩
  rw [hbytes₁, hbytes₂, lenStr, hlen', List.append_assoc]

/-! ### The fields behind the checks -/

/-- Reading the rest of a header. -/
theorem novaUnpackFields_field (f : NovaFields) (hdr : NovaHdr) (h : BufInv b)
    (hbytes : bufBytes b = f.tail ++ rest) :
    ∃ b', novaUnpackFields b { hdr with msgSize := f.msgSize, headSize := f.headSize }
        = .ok (true, f.hdr hdr, b') ∧ BufRepr b' rest := by
  simp only [NovaFields.tail, List.append_assoc] at hbytes
  obtain ⟨b₁, h₁, hinv₁, hbytes₁⟩ := h.readInt_field (by decide) f.version_fits hbytes
  obtain ⟨b₂, h₂, hinv₂, hbytes₂⟩ := hinv₁.readInt_field (by decide) f.ip_fits hbytes₁
  obtain ⟨b₃, h₃, hinv₃, hbytes₃⟩ := hinv₂.readInt_field (by decide) f.port_fits hbytes₂
  obtain ⟨b₄, h₄, hinv₄, hbytes₄⟩ := bufReadLenStr_field hinv₃ f.service_lt hbytes₃
  obtain ⟨b₅, h₅, hinv₅, hbytes₅⟩ := bufReadLenStr_field hinv₄ f.method_lt hbytes₄
  obtain ⟨b₆, h₆, hinv₆, hbytes₆⟩ := hinv₅.readInt_field (by decide) f.seqNo_fits hbytes₅
  obtain ⟨b₇, h₇, hrepr⟩ := bufReadLenStr_field hinv₆ f.attach_lt hbytes₆
  refine ⟨b₇, ?_, hrepr⟩
  simp only [novaUnpackFields, bufReadInt8, bufReadInt32, bufReadInt64, h₁, h₂, h₃, h₄, h₅, h₆, h₇,
    exec_ok_bind, exec_pure, NovaFields.hdr]

/-- What the rest of a header was, for any values of the four fields before it. -/
theorem novaUnpackFields_inv {hdr hdr' : NovaHdr} {magic : Int} {ok : Bool} (h : BufInv b)
    (hmsg : FitsInt 4 hdr.msgSize) (hmagic : FitsInt 2 magic) (hhead : FitsInt 2 hdr.headSize)
    (hok : novaUnpackFields b hdr = .ok (ok, hdr', b')) :
    ok = true ∧ BufInv b' ∧ ∃ f : NovaFields, f.msgSize = hdr.msgSize ∧ f.magic = magic
      ∧ f.headSize = hdr.headSize ∧ hdr' = f.hdr hdr ∧ bufBytes b = f.tail ++ bufBytes b' := by
  obtain ⟨⟨version, b₁⟩, h₁, hok⟩ := exec_bind_eq_ok.mp hok
  obtain ⟨⟨ip, b₂⟩, h₂, hok⟩ := exec_bind_eq_ok.mp hok
  obtain ⟨⟨port, b₃⟩, h₃, hok⟩ := exec_bind_eq_ok.mp hok
  obtain ⟨⟨slen, service, b₄⟩, h₄, hok⟩ := exec_bind_eq_ok.mp hok
  obtain ⟨⟨mlen, method, b₅⟩, h₅, hok⟩ := exec_bind_eq_ok.mp hok
  obtain ⟨⟨seqNo, b₆⟩, h₆, hok⟩ := exec_bind_eq_ok.mp hok
  obtain ⟨⟨alen, attach, b₇⟩, h₇, hok⟩ := exec_bind_eq_ok.mp hok
  cases hok
  obtain ⟨hinv₁, hbytes₁, hversion⟩ := h.readInt_inv (by decide) h₁
  obtain ⟨hinv₂, hbytes₂, hip⟩ := hinv₁.readInt_inv (by decide) h₂
  obtain ⟨hinv₃, hbytes₃, hport⟩ := hinv₂.readInt_inv (by decide) h₃
  obtain ⟨hinv₄, s, rfl, rfl, hs, hbytes₄⟩ := bufReadLenStr_inv hinv₃ h₄
  obtain ⟨hinv₅, m, rfl, rfl, hm, hbytes₅⟩ := bufReadLenStr_inv hinv₄ h₅
  obtain ⟨hinv₆, hbytes₆, hseq⟩ := hinv₅.readInt_inv (by decide) h₆
  obtain ⟨hinv₇, a, rfl, rfl, ha, hbytes₇⟩ := bufReadLenStr_inv hinv₆ h₇
  let f : NovaFields :=
    { msgSize := hdr.msgSize, magic := magic, headSize := hdr.headSize, version := version,
      ip := ip, port := port, service := s, method := m, seqNo := seqNo, attach := a,
      msgSize_fits := hmsg, magic_fits := hmagic, headSize_fits := hhead,
      version_fits := hversion, ip_fits := hip, port_fits := hport, seqNo_fits := hseq,
      service_lt := hs, method_lt := hm, attach_lt := ha }
  refine ⟨rfl, hinv₇, f, rfl, rfl, rfl, rfl, ?_⟩
  simp only [NovaFields.tail, List.append_assoc, f]
  rw [hbytes₁, hbytes₂, hbytes₃, hbytes₄, hbytes₅, hbytes₆, hbytes₇]

/-! ### The checks -/

/-- The sizes and the magic that `nova_unpack` turns down. -/
def NovaRefused (msgSize magic headSize : Int) : Prop :=
  msgSize ≤ novaHeaderCommonLen ∨ toUnsigned 16 magic ≠ novaMagic ∨ msgSize < headSize

/-- The packets that `nova_unpack` turns down: too short, or refused by the first three fields. -/
def NovaRejected (bs : List UInt8) : Prop :=
  bs.length ≤ novaHeaderCommonLen
    ∨ NovaRefused (intOf (bs.take 4)) (intOf ((bs.drop 4).take 2)) (intOf ((bs.drop 6).take 2))

/-- The first three fields of a packet that is long enough. -/
theorem exists_checked_fields {bs : List UInt8} (h : novaHeaderCommonLen < bs.length) :
    ∃ msgSize magic headSize rest, FitsInt 4 msgSize ∧ FitsInt 2 magic ∧ FitsInt 2 headSize
      ∧ bs = beInt 4 msgSize ++ beInt 2 magic ++ beInt 2 headSize ++ rest := by
  rw [novaHeaderCommonLen] at h
  have hfront {d : List UInt8} {k : Nat} (hk : 0 < k) (hd : d.length = k) :
      FitsInt k (intOf d) ∧ beInt k (intOf d) = d := by
    subst hd
    exact ⟨toSigned_fits hk _, beInt_intOf d⟩
  obtain ⟨hfits₁, hbytes₁⟩ := hfront (d := bs.take 4) (k := 4) (by decide)
    (by rw [List.length_take]; omega)
  obtain ⟨hfits₂, hbytes₂⟩ := hfront (d := (bs.drop 4).take 2) (k := 2) (by decide)
    (by rw [List.length_take, List.length_drop]; omega)
  obtain ⟨hfits₃, hbytes₃⟩ := hfront (d := (bs.drop 6).take 2) (k := 2) (by decide)
    (by rw [List.length_take, List.length_drop]; omega)
  refine ⟨_, _, _, bs.drop 8, hfits₁, hfits₂, hfits₃, ?_⟩
  rw [hbytes₁, hbytes₂, hbytes₃, ← List.take_add, ← List.take_add, List.take_append_drop]

/-- The condition of the checks on the bytes of the three fields. -/
theorem novaRejected_iff {msgSize magic headSize : Int} {rest : List UInt8}
    (hmsg : FitsInt 4 msgSize) (hmagic : FitsInt 2 magic) (hhead : FitsInt 2 headSize) :
    NovaRejected (beInt 4 msgSize ++ beInt 2 magic ++ beInt 2 headSize ++ rest)
      ↔ 8 + rest.length ≤ novaHeaderCommonLen ∨ NovaRefused msgSize magic headSize := by
  have hlen : (beInt 4 msgSize ++ beInt 2 magic ++ beInt 2 headSize ++ rest).length
      = 8 + rest.length := by
    simp only [List.length_append, length_beInt]
  have hdrop : (beInt 4 msgSize ++ beInt 2 magic ++ beInt 2 headSize ++ rest).drop 6
      = beInt 2 headSize ++ rest := by
    rw [List.append_assoc _ _ rest]
    exact List.drop_left' (by rw [List.length_append, length_beInt, length_beInt])
  rw [NovaRejected, hlen, hdrop, List.append_assoc, List.append_assoc,
    List.take_left' (length_beInt _ _), List.drop_left' (length_beInt _ _),
    List.take_left' (length_beInt _ _), List.take_left' (length_beInt _ _),
    intOf_beInt (by decide) hmsg, intOf_beInt (by decide) hmagic, intOf_beInt (by decide) hhead]

/-- **The checks** of `nova_unpack` on a packet that is long enough: it returns `false`, or it goes
on to the fields behind them. -/
theorem novaUnpack_checks {msgSize magic headSize : Int} (hdr : NovaHdr) (h : BufInv b)
    (hlong : novaHeaderCommonLen < bufReadable b)
    (hmsg : FitsInt 4 msgSize) (hmagic : FitsInt 2 magic) (hhead : FitsInt 2 headSize)
    (hbytes : bufBytes b = beInt 4 msgSize ++ beInt 2 magic ++ beInt 2 headSize ++ rest) :
    (NovaRefused msgSize magic headSize →
        ∃ hdr' b', novaUnpack b hdr = .ok (false, hdr', b'))
      ∧ (¬ NovaRefused msgSize magic headSize → ∃ b', BufRepr b' rest
        ∧ novaUnpack b hdr
          = novaUnpackFields b' { hdr with msgSize := msgSize, headSize := headSize }) := by
  simp only [List.append_assoc] at hbytes
  obtain ⟨b₁, h₁, hinv₁, hbytes₁⟩ := h.readInt_field (by decide) hmsg hbytes
  obtain ⟨b₂, h₂, hinv₂, hbytes₂⟩ := hinv₁.readInt_field (by decide) hmagic hbytes₁
  obtain ⟨b₃, h₃, hrepr₃⟩ := hinv₂.readInt_field (by decide) hhead hbytes₂
  rw [novaUnpack, if_neg (by omega)]
  simp only [bufReadInt32, bufReadInt16, h₁, exec_ok_bind, NovaRefused]
  by_cases hsize : msgSize ≤ novaHeaderCommonLen
  · rw [if_pos hsize]
    exact ⟨fun _ => ⟨_, _, rfl⟩, fun hpass => absurd (.inl hsize) hpass⟩
  rw [if_neg hsize, h₂, exec_ok_bind]
  dsimp only
  by_cases hm : toUnsigned 16 magic = novaMagic
  · rw [if_neg (not_not.mpr hm), h₃, exec_ok_bind]
    dsimp only
    by_cases hlt : msgSize < headSize
    · rw [if_pos hlt]
      exact ⟨fun _ => ⟨_, _, rfl⟩, fun hpass => absurd (.inr (.inr hlt)) hpass⟩
    · rw [if_neg hlt]
      refine ⟨fun hbad => ?_, fun _ => ⟨b₃, hrepr₃, rfl⟩⟩
      rcases hbad with hbad | hbad | hbad
      · exact absurd hbad hsize
      · exact absurd hm hbad
      · exact absurd hbad hlt
  · rw [if_pos hm]
    exact ⟨fun _ => ⟨_, _, rfl⟩, fun hpass => absurd (.inr (.inl hm)) hpass⟩

/-- A packet that the checks turn down. -/
theorem novaUnpack_rejected {bs : List UInt8} (hdr : NovaHdr) (h : BufRepr b bs)
    (hrej : NovaRejected bs) : ∃ hdr' b', novaUnpack b hdr = .ok (false, hdr', b') := by
  obtain ⟨hinv, rfl⟩ := h
  by_cases hlong : novaHeaderCommonLen < bufReadable b
  · rw [← hinv.length_bufBytes] at hlong
    obtain ⟨msgSize, magic, headSize, rest, hmsg, hmagic, hhead, heq⟩ :=
      exists_checked_fields hlong
    rw [heq, novaRejected_iff hmsg hmagic hhead] at hrej
    rw [hinv.length_bufBytes] at hlong
    refine (novaUnpack_checks hdr hinv hlong hmsg hmagic hhead heq).1 (hrej.resolve_left ?_)
    rw [← hinv.length_bufBytes, heq] at hlong
    simp only [List.length_append, length_beInt] at hlong
    omega
  · exact ⟨hdr, b, by rw [novaUnpack, if_pos (by omega)]; rfl⟩

/-- **Unpacking a header**: on the bytes of a header that passes the checks `nova_unpack` returns
`true`, with its fields, and what is behind them is left. -/
theorem novaUnpack_field (f : NovaFields) (hdr : NovaHdr) (h : BufRepr b (f.bytes ++ rest))
    (hrej : ¬ NovaRejected (f.bytes ++ rest)) :
    ∃ b', novaUnpack b hdr = .ok (true, f.hdr hdr, b') ∧ BufRepr b' rest := by
  obtain ⟨hinv, hbytes⟩ := h
  have hlong : novaHeaderCommonLen < bufReadable b := by
    rw [← hinv.length_bufBytes, hbytes]
    exact not_le.mp fun hle => hrej (.inl hle)
  rw [NovaFields.bytes, List.append_assoc _ f.tail] at hbytes hrej
  rw [novaRejected_iff f.msgSize_fits f.magic_fits f.headSize_fits] at hrej
  obtain ⟨b₁, hrepr, heq⟩ := (novaUnpack_checks hdr hinv hlong f.msgSize_fits f.magic_fits
    f.headSize_fits hbytes).2 fun href => hrej (.inr href)
  rw [heq]
  exact novaUnpackFields_field f hdr hrepr.1 hrepr.2

/-- `nova_unpack` returns `true` only on packets that the checks let through. -/
theorem not_novaRejected {hdr hdr' : NovaHdr} {bs : List UInt8} (h : BufRepr b bs)
    (hok : novaUnpack b hdr = .ok (true, hdr', b')) : ¬ NovaRejected bs := by
  intro hrej
  obtain ⟨hdr₁, b₁, hfalse⟩ := novaUnpack_rejected hdr h hrej
  rw [hok] at hfalse
  cases hfalse

/-- **What an unpacked packet was**: where the checks let a packet through and `nova_unpack`
returns, it returns `true` and the packet begins with the bytes of a header. -/
theorem novaUnpack_inv {hdr hdr' : NovaHdr} {bs : List UInt8} {ok : Bool} (h : BufRepr b bs)
    (hpass : ¬ NovaRejected bs) (hok : novaUnpack b hdr = .ok (ok, hdr', b')) :
    ok = true ∧ BufInv b' ∧ ∃ f : NovaFields, hdr' = f.hdr hdr ∧ bs = f.bytes ++ bufBytes b' := by
  obtain ⟨hinv, rfl⟩ := h
  have hlong : novaHeaderCommonLen < (bufBytes b).length := not_le.mp fun hle => hpass (.inl hle)
  obtain ⟨msgSize, magic, headSize, rest, hmsg, hmagic, hhead, heq⟩ := exists_checked_fields hlong
  rw [heq, novaRejected_iff hmsg hmagic hhead] at hpass
  rw [hinv.length_bufBytes] at hlong
  obtain ⟨b₁, ⟨hinv₁, hbytes₁⟩, hfields⟩ :=
    (novaUnpack_checks hdr hinv hlong hmsg hmagic hhead heq).2 fun href => hpass (.inr href)
  rw [hfields] at hok
  obtain ⟨hret, hinv', f, hf₁, hf₂, hf₃, hhdr, htail⟩ :=
    novaUnpackFields_inv hinv₁ hmsg hmagic hhead hok
  refine ⟨hret, hinv', f, hhdr, ?_⟩
  rw [heq, NovaFields.bytes, hf₁, hf₂, hf₃, ← hbytes₁, htail]
  simp only [List.append_assoc]

/-! ### Packing -/

/-- The strings of a header: blocks that hold at least as many bytes as their lengths say. -/
structure NovaHdr.HoldsStrings (h : NovaHdr) : Prop where
  /-- The length of the service is not negative. -/
  service_nonneg : 0 ≤ h.serviceLen
  /-- The service is in its block. -/
  service_le : h.serviceLen ≤ h.serviceName.length
  /-- The length of the service is an `int32_t`. -/
  service_lt : h.serviceLen < 2 ^ 31
  /-- The length of the method is not negative. -/
  method_nonneg : 0 ≤ h.methodLen
  /-- The method is in its block. -/
  method_le : h.methodLen ≤ h.methodName.length
  /-- The length of the method is an `int32_t`. -/
  method_lt : h.methodLen < 2 ^ 31
  /-- The length of the attachment is not negative. -/
  attach_nonneg : 0 ≤ h.attachLen
  /-- The attachment is in its block. -/
  attach_le : h.attachLen ≤ h.attach.length
  /-- The length of the attachment is an `int32_t`. -/
  attach_lt : h.attachLen < 2 ^ 31

/-- The service of a header: the stated number of bytes of its block. -/
def NovaHdr.serviceStr (h : NovaHdr) : List UInt8 := h.serviceName.take h.serviceLen.toNat

/-- The method of a header. -/
def NovaHdr.methodStr (h : NovaHdr) : List UInt8 := h.methodName.take h.methodLen.toNat

/-- The attachment of a header. -/
def NovaHdr.attachStr (h : NovaHdr) : List UInt8 := h.attach.take h.attachLen.toNat

/-- The pieces `nova_pack` writes. -/
def novaPieces (h : NovaHdr) (body : List UInt8) : List (List UInt8) :=
  [beInt 4 (szAdd (toUnsigned 64 h.headSize) body.length), beInt 2 h.magic, beInt 2 h.headSize,
    beInt 1 h.version, beInt 4 h.ip, beInt 4 h.port, beInt 4 h.serviceLen, h.serviceStr,
    beInt 4 h.methodLen, h.methodStr, beInt 8 h.seqNo, beInt 4 h.attachLen, h.attachStr, body]

/-- Appending a string that its block holds. -/
theorem bufAppendStr_eq (b : Buffer) {str : List UInt8} {len : Int} (hlo : 0 ≤ len)
    (hle : len ≤ str.length) (hlt : len < 2 ^ 31) :
    bufAppendStr b str len = bufAppend b (str.take len.toNat) := by
  obtain ⟨n, rfl⟩ := Int.eq_ofNat_of_zero_le hlo
  rw [bufAppendStr, toUnsigned_natCast (by omega), memLoad_of_le (by omega), exec_ok_bind, slice,
    List.drop_zero, Int.toNat_natCast]

/-- `nova_pack` is one `buf_append` for each piece. -/
theorem novaPack_eq (b : Buffer) {h : NovaHdr} (hs : h.HoldsStrings) (body : List UInt8) :
    novaPack b h body = bufAppends b (novaPieces h body) := by
  have hlast (b : Buffer) : bufAppend b body = bufAppends b [body] := by
    rw [bufAppends_cons]
    exact (bind_pure _).symm
  simp only [novaPack, bufAppendStr_eq _ hs.service_nonneg hs.service_le hs.service_lt,
    bufAppendStr_eq _ hs.method_nonneg hs.method_le hs.method_lt,
    bufAppendStr_eq _ hs.attach_nonneg hs.attach_le hs.attach_lt, hlast]
  rfl

/-- `nova_pack` adds its pieces at the end of the queue. -/
theorem novaPack_spec {h : NovaHdr} (hb : BufInv b) (hs : h.HoldsStrings) (body : List UInt8)
    (hov : b.sz + (novaPieces h body).flatten.length < 2 ^ 64) :
    Returns (novaPack b h body) fun b' =>
      BufInv b' ∧ bufBytes b' = bufBytes b ++ (novaPieces h body).flatten := by
  rw [novaPack_eq b hs]
  exact (hb.appends_spec _ hov).imp fun b' hb' => ⟨hb'.1, hb'.2.1⟩

/-! ### The round trip -/

/-- The fields of a header are values of their C types. -/
structure NovaHdr.Typed (h : NovaHdr) : Prop where
  /-- `uint16_t`. -/
  magic_lt : h.magic < 2 ^ 16
  /-- `int16_t`. -/
  headSize_fits : FitsInt 2 h.headSize
  /-- `int8_t`. -/
  version_fits : FitsInt 1 h.version
  /-- `uint32_t`. -/
  ip_lt : h.ip < 2 ^ 32
  /-- `uint32_t`. -/
  port_lt : h.port < 2 ^ 32
  /-- `int64_t`. -/
  seqNo_fits : FitsInt 8 h.seqNo

/-- Two headers agree on everything besides the size of the packet and the magic. -/
structure NovaHdr.SameFields (h h' : NovaHdr) : Prop where
  /-- The size of the header. -/
  headSize : h'.headSize = h.headSize
  /-- The version. -/
  version : h'.version = h.version
  /-- The address. -/
  ip : h'.ip = h.ip
  /-- The port. -/
  port : h'.port = h.port
  /-- The length of the service. -/
  serviceLen : h'.serviceLen = h.serviceLen
  /-- The service. -/
  service : h'.serviceStr = h.serviceStr
  /-- The length of the method. -/
  methodLen : h'.methodLen = h.methodLen
  /-- The method. -/
  method : h'.methodStr = h.methodStr
  /-- The sequence number. -/
  seqNo : h'.seqNo = h.seqNo
  /-- The length of the attachment. -/
  attachLen : h'.attachLen = h.attachLen
  /-- The attachment. -/
  attach : h'.attachStr = h.attachStr

/-- A string of the stated length. -/
theorem length_take_toNat {str : List UInt8} {len : Int} (hlo : 0 ≤ len) (hle : len ≤ str.length) :
    ((str.take len.toNat).length : Int) = len := by
  rw [List.length_take]
  omega

/-- The service has the length of its field. -/
theorem NovaHdr.HoldsStrings.length_serviceStr {h : NovaHdr} (hs : h.HoldsStrings) :
    (h.serviceStr.length : Int) = h.serviceLen :=
  length_take_toNat hs.service_nonneg hs.service_le

/-- The method has the length of its field. -/
theorem NovaHdr.HoldsStrings.length_methodStr {h : NovaHdr} (hs : h.HoldsStrings) :
    (h.methodStr.length : Int) = h.methodLen :=
  length_take_toNat hs.method_nonneg hs.method_le

/-- The attachment has the length of its field. -/
theorem NovaHdr.HoldsStrings.length_attachStr {h : NovaHdr} (hs : h.HoldsStrings) :
    (h.attachStr.length : Int) = h.attachLen :=
  length_take_toNat hs.attach_nonneg hs.attach_le

/-- The strings of a header of the right size are short. -/
theorem NovaHdr.HoldsStrings.strings_lt {h : NovaHdr} (hs : h.HoldsStrings)
    (hmax : novaHeaderCommonLen + h.serviceLen + h.methodLen + h.attachLen ≤ 0x7fff) :
    h.serviceStr.length < 2 ^ 31 - 1 ∧ h.methodStr.length < 2 ^ 31 - 1
      ∧ h.attachStr.length < 2 ^ 31 - 1 := by
  have hservice := hs.length_serviceStr
  have hmethod := hs.length_methodStr
  have hattach := hs.length_attachStr
  rw [novaHeaderCommonLen] at hmax
  omega

/-- What a header of the right size puts on the wire, in a packet of `msgSize` bytes. -/
def NovaHdr.fields (h : NovaHdr) (msgSize : Int) (ht : h.Typed) (hs : h.HoldsStrings)
    (hmsg : FitsInt 4 msgSize)
    (hmax : novaHeaderCommonLen + h.serviceLen + h.methodLen + h.attachLen ≤ 0x7fff) :
    NovaFields where
  msgSize := msgSize
  magic := toSigned (8 * 2) h.magic
  headSize := h.headSize
  version := h.version
  ip := toSigned (8 * 4) h.ip
  port := toSigned (8 * 4) h.port
  service := h.serviceStr
  method := h.methodStr
  seqNo := h.seqNo
  attach := h.attachStr
  msgSize_fits := hmsg
  magic_fits := toSigned_fits Nat.two_pos _
  headSize_fits := ht.headSize_fits
  version_fits := ht.version_fits
  ip_fits := toSigned_fits (Nat.succ_pos 3) _
  port_fits := toSigned_fits (Nat.succ_pos 3) _
  seqNo_fits := ht.seqNo_fits
  service_lt := (hs.strings_lt hmax).1
  method_lt := (hs.strings_lt hmax).2.1
  attach_lt := (hs.strings_lt hmax).2.2

section RoundTrip

variable {h : NovaHdr} {msgSize : Int} (ht : h.Typed) (hs : h.HoldsStrings)
  (hmsg : FitsInt 4 msgSize)
  (hmax : novaHeaderCommonLen + h.serviceLen + h.methodLen + h.attachLen ≤ 0x7fff)

/-- `nova_pack` writes the bytes of the header and the body. -/
theorem novaPieces_flatten {body : List UInt8}
    (hsum : (szAdd (toUnsigned 64 h.headSize) body.length : Int) = msgSize) :
    (novaPieces h body).flatten = (h.fields msgSize ht hs hmsg hmax).bytes ++ body := by
  rw [novaPieces, hsum, beInt_natCast ht.magic_lt, beInt_natCast (k := 4) ht.ip_lt,
    beInt_natCast (k := 4) ht.port_lt]
  simp only [NovaFields.bytes, NovaFields.tail, NovaHdr.fields, lenStr, hs.length_serviceStr,
    hs.length_methodStr, hs.length_attachStr, List.flatten_cons, List.flatten_nil,
    List.append_assoc, List.append_nil]

/-- The header read back has the fields of the one packed. -/
theorem sameFields_fields (h₀ : NovaHdr) :
    h.SameFields ((h.fields msgSize ht hs hmsg hmax).hdr h₀) := by
  have hback {w n : Nat} (hn : n < 2 ^ w) : toUnsigned w (toSigned w n) = n := by
    rw [toUnsigned_toSigned, Nat.mod_eq_of_lt hn]
  have hstr (s : List UInt8) : (s ++ [0]).take (s.length : Int).toNat = s := by
    rw [Int.toNat_natCast, List.take_left]
  exact { headSize := rfl, version := rfl, ip := hback ht.ip_lt, port := hback ht.port_lt,
          serviceLen := hs.length_serviceStr, service := hstr _,
          methodLen := hs.length_methodStr, method := hstr _, seqNo := rfl,
          attachLen := hs.length_attachStr, attach := hstr _ }

end RoundTrip

/-- `nova_detect` on the readable bytes of a packet that begins with a header. -/
theorem novaDetect_fields (f : NovaFields) (h : BufRepr b (f.bytes ++ rest)) :
    novaDetect (b.buf.drop b.readIdx) (bufReadable b)
      = .ok (decide (toUnsigned 16 f.magic = novaMagic)) := by
  obtain ⟨hinv, hbytes⟩ := h
  have hw := hinv.write_le_sz
  have hl := hinv.length_buf
  have hread := hinv.readable_eq
  have hsize := f.length_bytes
  have hlen : novaHeaderCommonLen ≤ bufReadable b := by
    rw [← hinv.length_bufBytes, hbytes, List.length_append]
    omega
  have hfield : slice (b.buf.drop b.readIdx) 4 2 = beInt 2 f.magic := by
    have hslice : slice (bufBytes b) 4 2 = slice (b.buf.drop b.readIdx) 4 2 := by
      rw [novaHeaderCommonLen] at hlen
      rw [bufBytes, slice_slice _ (by omega), slice, slice, List.drop_drop]
    rw [← hslice, hbytes, slice, NovaFields.bytes]
    simp only [List.append_assoc]
    rw [List.drop_left' (length_beInt 4 _), List.take_left' (length_beInt 2 _)]
  have hload : memLoad (b.buf.drop b.readIdx) 4 2 = .ok (beInt 2 f.magic) := by
    rw [novaHeaderCommonLen] at hlen
    rw [memLoad_of_le (by rw [List.length_drop]; omega), hfield]
  rw [novaDetect, if_neg (by omega), hload, exec_ok_bind, beInt, beNat_beBytes_toUnsigned]
  rfl

/-- The sizes of a header and a body, added up as `size_t`. -/
theorem szAdd_headSize {headSize : Int} {n : Nat} (hnn : 0 ≤ headSize)
    (hint : headSize + n < 2 ^ 31) : (szAdd (toUnsigned 64 headSize) n : Int) = headSize + n := by
  obtain ⟨m, rfl⟩ := Int.eq_ofNat_of_zero_le hnn
  rw [toUnsigned_natCast (by omega), szAdd_eq (by omega), Nat.cast_add]

/-- A packet of the size it announces passes the checks. -/
theorem NovaFields.not_rejected (f : NovaFields) {body : List UInt8}
    (hsize : ((f.bytes ++ body).length : Int) = f.msgSize)
    (hlong : novaHeaderCommonLen < f.msgSize) (hmagic : toUnsigned 16 f.magic = novaMagic)
    (hhead : f.headSize ≤ f.msgSize) : ¬ NovaRejected (f.bytes ++ body) := by
  rw [NovaFields.bytes, List.append_assoc _ f.tail,
    novaRejected_iff f.msgSize_fits f.magic_fits f.headSize_fits, NovaRefused]
  rw [List.length_append, NovaFields.bytes] at hsize
  simp only [List.length_append, length_beInt] at hsize ⊢
  rintro (hshort | hsmall | hbad | hlt)
  · omega
  · exact absurd hsmall (not_le.mpr hlong)
  · exact hbad hmagic
  · exact absurd hlt (not_lt.mpr hhead)

/-- **Nova codec round trip.** Packed into an empty buffer, a header whose `head_size` is 37 and the
lengths of its strings takes exactly `head_size + |body|` bytes; `nova_detect` accepts them, and
`nova_unpack` gives the header back, with the size of the packet and with the magic it was given,
and leaves exactly the body. -/
theorem nova_roundtrip (h h₀ : NovaHdr) (body : List UInt8) (b : Buffer) (ht : h.Typed)
    (hs : h.HoldsStrings) (hmagic : h.magic = novaMagic)
    (hhead : h.headSize = novaHeaderCommonLen + h.serviceLen + h.methodLen + h.attachLen)
    (hmax : h.headSize ≤ 0x7fff) (hlong : novaHeaderCommonLen < h.headSize + body.length)
    (hint : h.headSize + body.length < 2 ^ 31)
    (hb : BufInv b) (hempty : bufBytes b = []) (hsz : b.sz < 2 ^ 63) :
    Returns (novaPack b h body) fun b' =>
      (bufReadable b' : Int) = h.headSize + body.length
        ∧ novaDetect (b'.buf.drop b'.readIdx) (bufReadable b') = .ok true
        ∧ Returns (novaUnpack b' h₀) fun r =>
          r.1 = true ∧ r.2.1.msgSize = bufReadable b' ∧ h.SameFields r.2.1
            ∧ r.2.1.magic = h₀.magic ∧ bufBytes r.2.2 = body := by
  have hmsg : FitsInt 4 (h.headSize + body.length) := by
    rw [novaHeaderCommonLen] at hlong
    constructor <;> omega
  have hstrings := hmax
  rw [hhead] at hstrings
  -- the sum of the sizes is the one announced
  have hnn : 0 ≤ h.headSize := by
    have := hs.service_nonneg
    have := hs.method_nonneg
    have := hs.attach_nonneg
    omega
  have hsum := szAdd_headSize hnn hint
  let f := h.fields (h.headSize + body.length) ht hs hmsg hstrings
  have hflat : (novaPieces h body).flatten = f.bytes ++ body :=
    novaPieces_flatten ht hs hmsg hstrings hsum
  have hsize : ((f.bytes ++ body).length : Int) = h.headSize + body.length := by
    have hservice := hs.length_serviceStr
    have hmethod := hs.length_methodStr
    have hattach := hs.length_attachStr
    have hfields : f.bytes.length = novaHeaderCommonLen + h.serviceStr.length + h.methodStr.length
      + h.attachStr.length := f.length_bytes
    rw [List.length_append]
    omega
  have hmagic' : toUnsigned 16 f.magic = novaMagic := by
    show toUnsigned 16 (toSigned 16 h.magic) = novaMagic
    rw [toUnsigned_toSigned, Nat.mod_eq_of_lt ht.magic_lt, hmagic]
  refine (novaPack_spec hb hs body (by rw [hflat]; omega)).imp fun b' hb' => ?_
  obtain ⟨hinv, hbytes⟩ := hb'
  rw [hempty, List.nil_append, hflat] at hbytes
  have hread : (bufReadable b' : Int) = h.headSize + body.length := by
    rw [← hinv.length_bufBytes, hbytes, hsize]
  -- none of the checks turns the packet down
  have hpass : ¬ NovaRejected (f.bytes ++ body) :=
    f.not_rejected hsize hlong hmagic' (show h.headSize ≤ h.headSize + body.length by omega)
  obtain ⟨b'', hok, hrepr⟩ := novaUnpack_field f h₀ ⟨hinv, hbytes⟩ hpass
  refine ⟨hread, ?_, _, hok, rfl, hread.symm, sameFields_fields ht hs hmsg hstrings h₀, rfl,
    hrepr.2⟩
  rw [novaDetect_fields f ⟨hinv, hbytes⟩, hmagic']
  rfl

/-- A header with a service and a method of one byte and no attachment. -/
def novaPing : NovaHdr :=
  { msgSize := 0, magic := novaMagic, headSize := 39, version := 1, ip := 0x7F000001, port := 8050,
    serviceLen := 1, serviceName := [0x73, 0], methodLen := 1, methodName := [0x6D, 0], seqNo := -1,
    attachLen := 0, attach := [0] }

/-- `novaPing` with a body of one byte. -/
theorem nova_roundtrip_ping :
    Returns (novaPack (exactBuf []) novaPing [0x42]) fun b' =>
      (bufReadable b' : Int) = novaPing.headSize + [0x42].length
        ∧ novaDetect (b'.buf.drop b'.readIdx) (bufReadable b') = .ok true
        ∧ Returns (novaUnpack b' novaHdrCreate) fun r =>
          r.1 = true ∧ r.2.1.msgSize = bufReadable b' ∧ novaPing.SameFields r.2.1
            ∧ r.2.1.magic = novaHdrCreate.magic ∧ bufBytes r.2.2 = [0x42] :=
  nova_roundtrip novaPing novaHdrCreate [0x42] (exactBuf [])
    ⟨by decide, ⟨by decide, by decide⟩, ⟨by decide, by decide⟩, by decide, by decide,
      ⟨by decide, by decide⟩⟩
    ⟨by decide, by decide, by decide, by decide, by decide, by decide, by decide, by decide,
      by decide⟩
    rfl (by decide) (by decide) (by decide) (by decide) (exactBuf_repr (by decide)).1
    (exactBuf_repr (by decide)).2 (by decide)

/-! ### Re-encoding -/

/-- A header that `nova_unpack` left holds its strings. -/
theorem holdsStrings_hdr (f : NovaFields) (h₀ : NovaHdr) : (f.hdr h₀).HoldsStrings := by
  have hlen (s : List UInt8) : (s.length : Int) ≤ (s ++ [0]).length := by
    rw [List.length_append]
    omega
  have hservice := f.service_lt
  have hmethod := f.method_lt
  have hattach := f.attach_lt
  exact { service_nonneg := Int.natCast_nonneg _, service_le := hlen _,
          service_lt := by dsimp only [NovaFields.hdr]; omega,
          method_nonneg := Int.natCast_nonneg _, method_le := hlen _,
          method_lt := by dsimp only [NovaFields.hdr]; omega,
          attach_nonneg := Int.natCast_nonneg _, attach_le := hlen _,
          attach_lt := by dsimp only [NovaFields.hdr]; omega }

/-- What `nova_pack` writes for a header that `nova_unpack` left: the size it computes, the magic of
the header it was given, and the other fields as they were read. -/
theorem novaPieces_hdr (f : NovaFields) (h₀ : NovaHdr) (body : List UInt8) :
    (novaPieces (f.hdr h₀) body).flatten
      = beInt 4 (szAdd (toUnsigned 64 f.headSize) body.length) ++ beInt 2 h₀.magic
        ++ beInt 2 f.headSize ++ f.tail ++ body := by
  have hstr (s : List UInt8) : (s ++ [0]).take (s.length : Int).toNat = s := by
    rw [Int.toNat_natCast, List.take_left]
  have hword {x : Int} (hx : FitsInt 4 x) : beInt 4 (toUnsigned 32 x) = beInt 4 x := by
    have hlt : toUnsigned 32 x < 2 ^ (8 * 4) := by
      unfold toUnsigned
      omega
    rw [beInt_natCast hlt, toSigned_toUnsigned (by decide) hx.1 hx.2]
  simp only [novaPieces, NovaFields.hdr, NovaHdr.serviceStr, NovaHdr.methodStr, NovaHdr.attachStr,
    hstr, hword f.ip_fits, hword f.port_fits, NovaFields.tail, lenStr, List.flatten_cons,
    List.flatten_nil, List.append_assoc, List.append_nil]

/-- The sum of the sizes that `nova_pack` stores, modulo the width it is stored with. -/
theorem szAdd_toUnsigned_emod (x : Int) (n : Nat) :
    (szAdd (toUnsigned 64 x) n : Int) % 2 ^ 32 = (x + n) % 2 ^ 32 := by
  unfold szAdd toUnsigned
  omega

/-- The bytes of a packet begin with the header they were read as, and with no other. -/
theorem novaFields_unique {f f' : NovaFields} {body body' : List UInt8}
    (hlen : (f.bytes ++ body).length < 2 ^ 64) (hpass : ¬ NovaRejected (f.bytes ++ body))
    (heq : f.bytes ++ body = f'.bytes ++ body') :
    f'.msgSize = f.msgSize ∧ f'.headSize = f.headSize ∧ body' = body := by
  -- the decoder reads one header
  have hrepr := exactBuf_repr hlen
  obtain ⟨b₁, hok₁, hrepr₁⟩ := novaUnpack_field f novaHdrCreate hrepr hpass
  rw [heq] at hpass
  have hrepr' : BufRepr (exactBuf (f.bytes ++ body)) (f'.bytes ++ body') := heq ▸ hrepr
  obtain ⟨b₂, hok₂, hrepr₂⟩ := novaUnpack_field f' novaHdrCreate hrepr' hpass
  rw [hok₁] at hok₂
  obtain ⟨-, hsame⟩ := Prod.mk.inj (Except.ok.inj hok₂)
  obtain ⟨hhdr, rfl⟩ := Prod.mk.inj hsame
  have hmsg : f.msgSize = f'.msgSize := congrArg NovaHdr.msgSize hhdr
  have hhead : f.headSize = f'.headSize := congrArg NovaHdr.headSize hhdr
  exact ⟨hmsg.symm, hhead.symm, hrepr₂.2.symm.trans hrepr₁.2⟩

/-- Packing again what was unpacked gives the bytes back when the announced size is the computed one
and the header had the magic. -/
theorem novaPieces_eq_iff {f : NovaFields} {h₀ : NovaHdr} {body : List UInt8}
    (hmagic : h₀.magic < 2 ^ 16) (hpass : ¬ NovaRejected (f.bytes ++ body)) :
    (novaPieces (f.hdr h₀) body).flatten = f.bytes ++ body
      ↔ h₀.magic = novaMagic ∧ (f.headSize + body.length) % 2 ^ 32 = f.msgSize := by
  obtain ⟨-, hhi⟩ := f.msgSize_fits
  have hsmall : ¬ f.msgSize ≤ novaHeaderCommonLen ∧ toUnsigned 16 f.magic = novaMagic := by
    rw [NovaFields.bytes, List.append_assoc _ f.tail,
      novaRejected_iff f.msgSize_fits f.magic_fits f.headSize_fits, NovaRefused] at hpass
    push Not at hpass
    exact ⟨not_le.mpr hpass.2.1, hpass.2.2.1⟩
  obtain ⟨hlo, hm⟩ := hsmall
  have hmod : f.magic % 2 ^ 16 = novaMagic := by
    have hnn : 0 ≤ f.magic % 2 ^ 16 := Int.emod_nonneg _ (by decide)
    rw [toUnsigned] at hm
    omega
  have hcut : (novaPieces (f.hdr h₀) body).flatten = f.bytes ++ body
      ↔ beInt 4 (szAdd (toUnsigned 64 f.headSize) body.length) = beInt 4 f.msgSize
        ∧ beInt 2 h₀.magic = beInt 2 f.magic := by
    rw [novaPieces_hdr, NovaFields.bytes]
    simp only [List.append_assoc]
    constructor
    · intro h
      obtain ⟨h₁, h⟩ := List.append_inj h (by rw [length_beInt, length_beInt])
      exact ⟨h₁, (List.append_inj h (by rw [length_beInt, length_beInt])).1⟩
    · rintro ⟨h₁, h₂⟩
      rw [h₁, h₂]
  rw [hcut, beInt_inj, beInt_inj, szAdd_toUnsigned_emod, hmod, and_comm,
    Int.emod_eq_of_lt (by omega) (by exact_mod_cast hmagic),
    Int.emod_eq_of_lt (a := f.msgSize) (by rw [novaHeaderCommonLen] at hlo; omega) (by omega),
    Nat.cast_inj]

/-- **Nova re-encoding.** Where `nova_unpack` returns `true`, `nova_pack` with the header it left
and the rest of the packet as body reproduces the packet iff the header it was given had the magic
already (`nova_unpack` does not store it) and the size the packet announces is that of its header
and its body. -/
theorem nova_reencode_iff {bs : List UInt8} {b b' out : Buffer} {h₀ h : NovaHdr}
    (hb : BufRepr b bs) (hsz : b.sz < 2 ^ 63) (hout : BufRepr out []) (houtSz : out.sz < 2 ^ 63)
    (hmagic : h₀.magic < 2 ^ 16) (hok : novaUnpack b h₀ = .ok (true, h, b')) :
    (Returns (novaPack out h (bufBytes b')) fun out' => bufBytes out' = bs)
      ↔ h₀.magic = novaMagic ∧ ∃ (f : NovaFields) (body : List UInt8),
        bs = f.bytes ++ body ∧ (f.headSize + body.length) % 2 ^ 32 = f.msgSize := by
  have hpass := not_novaRejected hb hok
  have hlen : bs.length < 2 ^ 63 := by
    have hw := hb.1.write_le_sz
    have hread := hb.1.length_bufBytes
    rw [hb.1.readable_eq, hb.2] at hread
    omega
  obtain ⟨-, -, f, rfl, rfl⟩ := novaUnpack_inv hb hpass hok
  have hflat : ((novaPieces (f.hdr h₀) (bufBytes b')).flatten).length
      = (f.bytes ++ bufBytes b').length := by
    rw [novaPieces_hdr, NovaFields.bytes]
    simp only [List.length_append, length_beInt]
  obtain ⟨out', hpack, -, hbytes⟩ := novaPack_spec hout.1 (holdsStrings_hdr f h₀) (bufBytes b')
    (by rw [hflat]; omega)
  rw [hout.2, List.nil_append] at hbytes
  have hreturns : (Returns (novaPack out (f.hdr h₀) (bufBytes b')) fun out' =>
      bufBytes out' = f.bytes ++ bufBytes b')
      ↔ (novaPieces (f.hdr h₀) (bufBytes b')).flatten = f.bytes ++ bufBytes b' := by
    constructor
    · rintro ⟨out'', hpack', heq⟩
      obtain rfl := Except.ok.inj (hpack.symm.trans hpack')
      rw [← hbytes, heq]
    · intro heq
      exact ⟨out', hpack, hbytes.trans heq⟩
  rw [hreturns, novaPieces_eq_iff hmagic hpass]
  refine and_congr_right fun _ => ⟨fun hsize => ⟨f, _, rfl, hsize⟩, ?_⟩
  rintro ⟨f', body, heq, hsize⟩
  obtain ⟨hmsg, hhead, hbody⟩ := novaFields_unique (by omega) hpass heq
  rwa [hmsg, hhead, hbody] at hsize

/-- The packet of `novaPing` with the body `0x42`. -/
def novaPingBytes : List UInt8 :=
  [0, 0, 0, 40, 0xDA, 0xBC, 0, 39, 1, 0x7F, 0, 0, 1, 0, 0, 0x1F, 0x72, 0, 0, 0, 1, 0x73,
    0, 0, 0, 1, 0x6D, 0xFF, 0xFF, 0xFF, 0xFF, 0xFF, 0xFF, 0xFF, 0xFF, 0, 0, 0, 0, 0x42]

/-- `novaPingBytes` read into a header that has the magic. -/
theorem nova_reencode_iff_ping :
    ∃ h b', novaUnpack (exactBuf novaPingBytes) { novaHdrCreate with magic := novaMagic }
        = .ok (true, h, b')
      ∧ ((Returns (novaPack (exactBuf []) h (bufBytes b')) fun out' =>
          bufBytes out' = novaPingBytes)
        ↔ novaMagic = novaMagic ∧ ∃ (f : NovaFields) (body : List UInt8),
          novaPingBytes = f.bytes ++ body ∧ (f.headSize + body.length) % 2 ^ 32 = f.msgSize) :=
  ⟨_, _, rfl, nova_reencode_iff (exactBuf_repr (by decide)) (by decide)
    (exactBuf_repr (by decide)) (by decide)
    (show ({ novaHdrCreate with magic := novaMagic } : NovaHdr).magic < 2 ^ 16 by decide) rfl⟩

/-- `novaPingBytes` read into a fresh header and packed again: the magic is lost. -/
theorem nova_reencode_loses_magic :
    ∃ h b', novaUnpack (exactBuf novaPingBytes) novaHdrCreate = .ok (true, h, b')
      ∧ ¬ Returns (novaPack (exactBuf []) h (bufBytes b')) fun out' =>
          bufBytes out' = novaPingBytes := by
  refine ⟨_, _, rfl, ?_⟩
  rintro ⟨out', hok, hbytes⟩
  cases hok
  exact absurd hbytes (by decide)

/-! ### Safety -/

/-- What `nova_unpack` owes its caller on a packet: it returns, and when it accepts, the lengths are
not negative and exactly `head_size` bytes have been consumed. -/
def NovaUnpackSafe (b : Buffer) (h₀ : NovaHdr) : Prop :=
  Returns (novaUnpack b h₀) fun r => r.1 = true →
    0 ≤ r.2.1.serviceLen ∧ 0 ≤ r.2.1.methodLen ∧ 0 ≤ r.2.1.attachLen
      ∧ (bufReadable b : Int) - bufReadable r.2.2 = r.2.1.headSize
      ∧ bufBytes r.2.2 = (bufBytes b).drop r.2.1.headSize.toNat

/-- **`nova_unpack` is safe on a packet** iff its checks turn the packet down, or the packet begins
with a header (lengths that are not negative and strings that are there) of `head_size` bytes. -/
theorem nova_unpack_safe_iff {bs : List UInt8} {b : Buffer} (h₀ : NovaHdr) (hb : BufRepr b bs) :
    NovaUnpackSafe b h₀ ↔ NovaRejected bs ∨ ∃ (f : NovaFields) (body : List UInt8),
      bs = f.bytes ++ body ∧ f.headSize = f.bytes.length := by
  have hread := hb.1.length_bufBytes
  rw [hb.2] at hread
  constructor
  · rintro ⟨⟨ok, h, b'⟩, hok, hsafe⟩
    refine or_iff_not_imp_left.mpr fun hpass => ?_
    obtain ⟨rfl, hinv, f, rfl, rfl⟩ := novaUnpack_inv hb hpass hok
    obtain ⟨-, -, -, hconsumed, -⟩ := hsafe rfl
    refine ⟨f, bufBytes b', rfl, ?_⟩
    dsimp only [NovaFields.hdr] at hconsumed
    rw [List.length_append, hinv.length_bufBytes] at hread
    omega
  · intro h
    by_cases hpass : NovaRejected bs
    · obtain ⟨h', b', hok⟩ := novaUnpack_rejected h₀ hb hpass
      exact ⟨_, hok, fun htrue => absurd htrue Bool.false_ne_true⟩
    · obtain ⟨f, body, rfl, hsize⟩ := h.resolve_left hpass
      obtain ⟨b', hok, hinv, hbytes⟩ := novaUnpack_field f h₀ hb hpass
      refine ⟨_, hok, fun _ => ⟨Int.natCast_nonneg _, Int.natCast_nonneg _, Int.natCast_nonneg _,
        ?_, ?_⟩⟩
      · dsimp only [NovaFields.hdr]
        rw [hsize, ← hread, ← hinv.length_bufBytes, hbytes, List.length_append]
        omega
      · dsimp only [NovaFields.hdr]
        rw [hsize, Int.toNat_natCast, hb.2, List.drop_left, hbytes]

/-- `novaPingBytes` is read safely. -/
theorem nova_unpack_safe_iff_ping :
    NovaUnpackSafe (exactBuf novaPingBytes) novaHdrCreate ↔ NovaRejected novaPingBytes
      ∨ ∃ (f : NovaFields) (body : List UInt8),
        novaPingBytes = f.bytes ++ body ∧ f.headSize = f.bytes.length :=
  nova_unpack_safe_iff novaHdrCreate (exactBuf_repr (by decide))

/-- A packet of 40 bytes whose service is one byte longer than what is there. -/
def novaLongService : List UInt8 :=
  [0, 0, 0, 40, 0xDA, 0xBC, 0, 39, 1, 0x7F, 0, 0, 1, 0, 0, 0x1F, 0x72, 0, 0, 0, 20, 0x73,
    0, 0, 0, 1, 0x6D, 0xFF, 0xFF, 0xFF, 0xFF, 0xFF, 0xFF, 0xFF, 0xFF, 0, 0, 0, 0, 0x42]

/-- `nova_unpack` does not return on it. -/
theorem nova_unpack_overruns : ¬ NovaUnpackSafe (exactBuf novaLongService) novaHdrCreate := by
  rintro ⟨r, hok, -⟩
  cases hok

end Wee
