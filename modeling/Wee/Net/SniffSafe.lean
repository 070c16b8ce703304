import Wee.Net.Sniff
import Wee.Net.TcpOptionsBounds

/-! # What the packet handler reads

The handler compares no offset with `caplen` before it uses it; the one check, the assertion on the
size of the payload, comes behind all loads. This file says which captured bytes it needs, and that
it leaves them, or fails the assertion, on all others. -/

namespace Wee

/-! ### The fields of a frame -/

/-- The link header says that the frame carries IPv4, as far as the handler looks. -/
def LinkIsIpv4 (order : ByteOrder) (dl : DlType) (pkt : List UInt8) : Prop :=
  match dl with
  | .null => toSigned 32 (hostNat order (slice pkt 0 4)) = pfInet
  | .raw => True
  | .en10mb => beNat (slice pkt 12 2) = ethertypeIp
  | .linuxSll => beNat (slice pkt 14 2) = ethertypeIp

/-- The destination address, as a load has it. -/
def dstAddr (order : ByteOrder) (dl : DlType) (pkt : List UInt8) : Nat :=
  hostNat order (slice pkt (dl.hdrOffset + 16) 4)

/-- The destination is one the handler takes for a broadcast or multicast address. -/
def FilteredOut (order : ByteOrder) (dl : DlType) (pkt : List UInt8) : Prop :=
  Ipv4IsBroadcastAddr (dstAddr order dl pkt) ∨ Ipv4IsMulticastAddr (dstAddr order dl pkt)

instance instDecidableFilteredOut (order : ByteOrder) (dl : DlType) (pkt : List UInt8) :
    Decidable (FilteredOut order dl pkt) :=
  inferInstanceAs (Decidable (_ ∨ _))

/-- The offset of the TCP header. -/
def tcpHdrAt (dl : DlType) (pkt : List UInt8) : Nat :=
  dl.hdrOffset + byteAt pkt dl.hdrOffset % 16 * 4

/-- `th_off` of the TCP header at `tcp`. -/
def thOffAt (pkt : List UInt8) (tcp : Nat) : Nat := byteAt pkt (tcp + 12) / 16

/-- The end of the TCP header at `tcp`. -/
def tcpEndAt (pkt : List UInt8) (tcp : Nat) : Nat := tcp + 4 * thOffAt pkt tcp

/-- The options of the TCP header at `tcp`. -/
def optionsAt (pkt : List UInt8) (tcp : Nat) : List UInt8 :=
  slice pkt (tcp + sizeofTcphdr) (4 * (thOffAt pkt tcp - 5))

/-- A TCP header at `tcp` that the handler reads inside the frame, with its payload. -/
structure SegmentCaptured (pkt : List UInt8) (tcp : Nat) : Prop where
  /-- `th_off` is there. -/
  off_lt : tcp + 12 < pkt.length
  /-- The header ends inside the frame. -/
  end_le : tcpEndAt pkt tcp ≤ pkt.length
  /-- There is a byte behind options that end in a lone kind. -/
  lone : LoneKind (optionsAt pkt tcp) → tcpEndAt pkt tcp < pkt.length
  /-- The size of the payload is an `int`. -/
  payload_lt : pkt.length - tcpEndAt pkt tcp < 2 ^ 31

/-- The bytes of the frame that the handler reads are all captured. -/
structure CapturedEnough (order : ByteOrder) (dl : DlType) (pkt : List UInt8) : Prop where
  /-- The link header. -/
  link : dl.hdrOffset ≤ pkt.length
  /-- The fixed part of the IP header. -/
  ip : LinkIsIpv4 order dl pkt → dl.hdrOffset + 20 ≤ pkt.length
  /-- The TCP header. -/
  tcp : LinkIsIpv4 order dl pkt → ¬ FilteredOut order dl pkt →
    byteAt pkt (dl.hdrOffset + 9) = ipprotoTcp → SegmentCaptured pkt (tcpHdrAt dl pkt)

/-- The handler is safe on a frame: it returns, having read only captured bytes and failed no
assertion, and a payload it hands out is inside the captured bytes. -/
def HandledSafely (order : ByteOrder) (dl : DlType) (c : Captured) : Prop :=
  Returns (pcapPktHandler order dl c) fun r =>
    ∀ call, r.call = some call → call.payload + call.payloadSz ≤ c.caplen

section

variable {order : ByteOrder} {dl : DlType} {pkt : List UInt8} {tcp : Nat}

/-! ### The link header -/

/-- A link header that is cut. -/
theorem dlProtocol_short (h : pkt.length < dl.hdrOffset) :
    dlProtocol order dl pkt = .error .outOfBounds := by
  cases dl with
  | null => rw [dlProtocol, hostLoad_of_gt h, exec_error_bind]
  | raw => exact absurd h (Nat.not_lt_zero _)
  | en10mb => rw [dlProtocol, hostLoad_of_gt h, exec_error_bind]
  | linuxSll => rw [dlProtocol, hostLoad_of_gt h, exec_error_bind]

/-- **The protocol of a link header**. -/
theorem dlProtocol_spec (order : ByteOrder) (h : dl.hdrOffset ≤ pkt.length) :
    Returns (dlProtocol order dl pkt) fun p => p = ethertypeIp ↔ LinkIsIpv4 order dl pkt := by
  have hload {off : Nat} (hoff : off + 2 ≤ pkt.length) :
      ntohs order (hostNat order (slice pkt off 2)) = beNat (slice pkt off 2) :=
    swapBytes_hostNat order (length_slice hoff)
  cases dl with
  | null =>
    rw [dlProtocol, hostLoad_of_le h, exec_ok_bind]
    refine returns_ok ?_
    rw [LinkIsIpv4]
    split_ifs with hfam
    · exact iff_of_false (by decide) hfam
    · exact iff_of_true rfl (not_not.mp hfam)
  | raw => exact returns_ok (iff_of_true rfl trivial)
  | en10mb =>
    rw [dlProtocol, hostLoad_of_le h, exec_ok_bind, hload h]
    exact returns_ok Iff.rfl
  | linuxSll =>
    rw [dlProtocol, hostLoad_of_le h, exec_ok_bind, hload h]
    exact returns_ok Iff.rfl

/-! ### The TCP header -/

/-- `th_off` is four bits. -/
theorem thOffAt_lt (pkt : List UInt8) (tcp : Nat) : thOffAt pkt tcp < 16 := by
  have hlt := byteAt_lt pkt (tcp + 12)
  rw [thOffAt]
  omega

/-- The load of `th_off`. -/
theorem thOff_drop (h : tcp + 12 < pkt.length) :
    thOff (pkt.drop tcp) = .ok (thOffAt pkt tcp) := by
  have hlen : 12 < (pkt.drop tcp).length := by rw [List.length_drop]; omega
  rw [thOff, byteLoad_of_lt hlen, exec_ok_bind, byteAt_drop]
  rfl

/-- The load of a `th_off` that is cut off. -/
theorem thOff_drop_short (h : pkt.length ≤ tcp + 12) :
    thOff (pkt.drop tcp) = .error .outOfBounds := by
  rw [thOff, byteLoad_of_ge (by rw [List.length_drop]; omega), exec_error_bind]

/-- A TCP header with options that is captured. -/
theorem exists_header (hoff : 5 < thOffAt pkt tcp) (hend : tcpEndAt pkt tcp ≤ pkt.length) :
    ∃ h : TcpHeader, h.options = optionsAt pkt tcp ∧
      pkt.drop tcp = h.bytes ++ pkt.drop (tcpEndAt pkt tcp) := by
  rw [tcpEndAt] at hend
  have hlen : (slice pkt tcp (4 * thOffAt pkt tcp)).length = 4 * thOffAt pkt tcp :=
    length_slice hend
  have hbytes : pkt.drop tcp = slice pkt tcp (4 * thOffAt pkt tcp)
      ++ pkt.drop (tcpEndAt pkt tcp) := by
    rw [slice, tcpEndAt, ← List.drop_drop, List.take_append_drop]
  have hth : thOff (slice pkt tcp (4 * thOffAt pkt tcp)) = .ok (thOffAt pkt tcp) := by
    rw [← thOff_drop (show tcp + 12 < pkt.length by omega), hbytes, thOff, thOff,
      byteLoad_append (by omega)]
  refine ⟨⟨_, _, hth, ?_⟩, ?_, hbytes⟩
  · rw [hlen, max_eq_right (by rw [sizeofTcphdr]; omega)]
  · rw [TcpHeader.options, drop_slice, optionsAt, sizeofTcphdr]
    congr 1
    omega

/-- **Parsing the options of a captured header** returns unless they end in a lone kind that is the
last byte captured. -/
theorem parse_captured_iff (order : ByteOrder) (h : tcp + 12 < pkt.length)
    (hend : tcpEndAt pkt tcp ≤ pkt.length) (opt : TcpOpt) :
    (∃ r, tcpParseRecvOptions order (pkt.drop tcp) opt = .ok r) ↔
      (LoneKind (optionsAt pkt tcp) → tcpEndAt pkt tcp < pkt.length) := by
  by_cases hoff : thOffAt pkt tcp ≤ 5
  · have hnone : optionsAt pkt tcp = [] := by
      rw [optionsAt, Nat.sub_eq_zero_of_le hoff, Nat.mul_zero, slice_zero]
    refine iff_of_true ⟨_, tcpParseRecvOptions_short (thOff_drop h) hoff order opt⟩ ?_
    rintro ⟨os, kind, -, hopts⟩
    rw [hnone] at hopts
    exact absurd hopts.symm (List.append_ne_nil_of_right_ne_nil _ (List.cons_ne_nil _ _))
  · obtain ⟨hd, hopts, hbytes⟩ := exists_header (not_le.mp hoff) hend
    rw [← hopts, hbytes]
    constructor
    · rintro ⟨r, hr⟩ hlone
      by_contra hge
      rw [List.drop_of_length_le (not_lt.mp hge), List.append_nil, hlone.parse_faults] at hr
      cases hr
    · intro hbehind
      obtain hlone | ⟨r, hr⟩ := hd.parse_inside order opt
      · obtain ⟨r, hr⟩ := hlone.parse_refused order opt
        rw [List.drop_eq_getElem_cons (hbehind hlone)]
        exact ⟨r, hr _ _⟩
      · exact ⟨r, hr _⟩

/-- **The size of the payload** is what is captured behind the headers, when that is an `int`. -/
theorem payload_eq {total caplen : Nat} (hcap : caplen < 2 ^ 32) (hle : total ≤ caplen)
    (hint : caplen - total < 2 ^ 31) :
    payloadSize caplen total = (caplen - total : Nat) := by
  unfold payloadSize toSigned
  split_ifs with hlt
  · omega
  · omega

/-- Otherwise the assertion fails. -/
theorem payload_neg {total caplen : Nat} (hcap : caplen < 2 ^ 32) (htotal : total < 2 ^ 31)
    (h : total ≤ caplen → 2 ^ 31 ≤ caplen - total) :
    payloadSize caplen total < 0 := by
  unfold payloadSize toSigned
  split_ifs with hlt
  · omega
  · omega

/-- Only a header without options has an option size of zero. -/
theorem off_of_tcpOptionsLength {off : Nat} (h16 : off < 16) (h : tcpOptionsLength off = 0) :
    off ≤ 5 := by
  have hall : ∀ k < 16, tcpOptionsLength k = 0 → k ≤ 5 := by decide
  exact hall off h16 h

/-- **The options of a captured header** are read unless they end in a lone kind that is the last
byte captured. -/
theorem tcpPktOptions_iff (order : ByteOrder) (h : tcp + 12 < pkt.length)
    (hend : tcpEndAt pkt tcp ≤ pkt.length) :
    (∃ opt, tcpPktOptions order (pkt.drop tcp) (thOffAt pkt tcp * 4) = .ok opt) ↔
      (LoneKind (optionsAt pkt tcp) → tcpEndAt pkt tcp < pkt.length) := by
  rw [← parse_captured_iff order h hend ⟨0, 0, 0, 0, 0⟩, tcpPktOptions]
  split_ifs with hopts
  · cases tcpParseRecvOptions order (pkt.drop tcp) ⟨0, 0, 0, 0, 0⟩ with
    | error e => exact iff_of_false (fun ⟨opt, hopt⟩ => by cases hopt) (fun ⟨r, hr⟩ => by cases hr)
    | ok r => exact iff_of_true ⟨r.2, rfl⟩ ⟨r, rfl⟩
  · have hoff := off_of_tcpOptionsLength (thOffAt_lt pkt tcp) (not_ne_iff.mp hopts)
    exact iff_of_true ⟨_, rfl⟩ ⟨_, tcpParseRecvOptions_short (thOff_drop h) hoff order _⟩

/-- **The handler from the TCP header on**, on a captured segment: it hands out what is captured
behind the headers. -/
theorem SegmentCaptured.handler {sz : Nat} (h : SegmentCaptured pkt (dl.hdrOffset + sz))
    (order : ByteOrder) (hcap : pkt.length < 2 ^ 32) :
    ∃ opt, tcpPktHandler order dl pkt sz = .ok {
      ipHdr := dl.hdrOffset, tcpHdr := dl.hdrOffset + sz, tcpOpt := opt,
      payload := tcpEndAt pkt (dl.hdrOffset + sz),
      payloadSz := pkt.length - tcpEndAt pkt (dl.hdrOffset + sz) } := by
  have htotal : dl.hdrOffset + sz + thOffAt pkt (dl.hdrOffset + sz) * 4
      = tcpEndAt pkt (dl.hdrOffset + sz) := by
    rw [tcpEndAt, Nat.mul_comm]
  obtain ⟨opt, hopt⟩ := (tcpPktOptions_iff order h.off_lt h.end_le).mpr h.lone
  rw [tcpPktHandler, thOff_drop h.off_lt, exec_ok_bind]
  dsimp only
  rw [hopt, exec_ok_bind, htotal, payload_eq hcap h.end_le h.payload_lt,
    cassert_bind_of (Int.natCast_nonneg _)]
  exact ⟨opt, rfl⟩

/-- **The handler from the TCP header on** needs all of a segment. -/
theorem tcpPktHandler_inv {sz : Nat} {call : SniffCall} (hsz : sz ≤ 60)
    (hcap : pkt.length < 2 ^ 32) (h : tcpPktHandler order dl pkt sz = .ok call) :
    SegmentCaptured pkt (dl.hdrOffset + sz) := by
  have hdl : dl.hdrOffset ≤ 16 := by cases dl <;> decide
  have hoff := thOffAt_lt pkt (dl.hdrOffset + sz)
  have hlt : dl.hdrOffset + sz + 12 < pkt.length := by
    by_contra hge
    rw [tcpPktHandler, thOff_drop_short (not_lt.mp hge), exec_error_bind] at h
    cases h
  rw [tcpPktHandler, thOff_drop hlt, exec_ok_bind] at h
  dsimp only at h
  obtain ⟨opt, hopt, h⟩ := exec_bind_eq_ok.mp h
  obtain ⟨u, hassert, -⟩ := exec_bind_eq_ok.mp h
  have hnonneg := of_cassert hassert
  have hsize : tcpEndAt pkt (dl.hdrOffset + sz) ≤ pkt.length ∧
      pkt.length - tcpEndAt pkt (dl.hdrOffset + sz) < 2 ^ 31 := by
    by_contra hnot
    have htotal : dl.hdrOffset + sz + thOffAt pkt (dl.hdrOffset + sz) * 4 < 2 ^ 31 := by omega
    have hneg := payload_neg hcap htotal (by rw [tcpEndAt] at hnot; omega)
    exact absurd hnonneg (not_le.mpr hneg)
  exact ⟨hlt, hsize.1, (tcpPktOptions_iff order hlt hsize.1).mp ⟨opt, hopt⟩, hsize.2⟩

/-! ### The handler -/

/-- The handler on a frame that its link header does not call IPv4. -/
theorem handler_not_ipv4 (order : ByteOrder) {c : Captured} (hlink : dl.hdrOffset ≤ c.pkt.length)
    (hip : ¬ LinkIsIpv4 order dl c.pkt) :
    pcapPktHandler order dl c = .ok ⟨decide (c.caplen ≠ c.len), none⟩ := by
  obtain ⟨p, hp, hiff⟩ := dlProtocol_spec order hlink
  rw [pcapPktHandler, hp, exec_ok_bind, if_pos (fun h => hip (hiff.mp h))]
  rfl

/-- The handler on a frame that its link header calls IPv4, with an IP header: it ignores the
destinations it takes for broadcast or multicast and what is not TCP. -/
theorem handler_ipv4 (order : ByteOrder) {c : Captured} (hip : LinkIsIpv4 order dl c.pkt)
    (hlen : dl.hdrOffset + 20 ≤ c.pkt.length) :
    pcapPktHandler order dl c =
      if FilteredOut order dl c.pkt ∨ byteAt c.pkt (dl.hdrOffset + 9) ≠ ipprotoTcp then
        .ok ⟨decide (c.caplen ≠ c.len), none⟩
      else do
        let call ← tcpPktHandler order dl c.pkt (byteAt c.pkt dl.hdrOffset % 16 * 4)
        return ⟨decide (c.caplen ≠ c.len), some call⟩ := by
  obtain ⟨p, hp, hiff⟩ := dlProtocol_spec order (show dl.hdrOffset ≤ c.pkt.length by omega)
  rw [pcapPktHandler, hp, exec_ok_bind, if_neg (not_not.mpr (hiff.mpr hip))]
  dsimp only
  rw [hostLoad_of_le (show dl.hdrOffset + 16 + 4 ≤ _ by omega), exec_ok_bind,
    byteLoad_of_lt (show dl.hdrOffset < _ by omega), exec_ok_bind,
    byteLoad_of_lt (show dl.hdrOffset + 9 < _ by omega), exec_ok_bind]
  by_cases hb : Ipv4IsBroadcastAddr (dstAddr order dl c.pkt)
  · rw [if_pos (show Ipv4IsBroadcastAddr (hostNat _ _) from hb), if_pos (.inl (.inl hb)), exec_pure]
  · rw [if_neg (show ¬ Ipv4IsBroadcastAddr (hostNat _ _) from hb)]
    by_cases hm : Ipv4IsMulticastAddr (dstAddr order dl c.pkt)
    · rw [if_pos (show Ipv4IsMulticastAddr (hostNat _ _) from hm), if_pos (.inl (.inr hm)),
        exec_pure]
    · have hf : ¬ FilteredOut order dl c.pkt := not_or.mpr ⟨hb, hm⟩
      rw [if_neg (show ¬ Ipv4IsMulticastAddr (hostNat _ _) from hm)]
      by_cases hp : byteAt c.pkt (dl.hdrOffset + 9) = ipprotoTcp
      · rw [if_neg (not_not.mpr hp), if_neg (not_or.mpr ⟨hf, not_not.mpr hp⟩)]
      · rw [if_pos hp, if_pos (.inr hp), exec_pure]

/-- A frame without a whole IP header is not handled when its link header calls it IPv4. -/
theorem handler_short (order : ByteOrder) {c : Captured} (hip : LinkIsIpv4 order dl c.pkt)
    (hlen : c.pkt.length < dl.hdrOffset + 20) :
    pcapPktHandler order dl c = .error .outOfBounds := by
  by_cases hlink : dl.hdrOffset ≤ c.pkt.length
  · obtain ⟨p, hp, hiff⟩ := dlProtocol_spec order hlink
    rw [pcapPktHandler, hp, exec_ok_bind, if_neg (not_not.mpr (hiff.mpr hip))]
    dsimp only
    rw [hostLoad_of_gt (by omega), exec_error_bind]
  · rw [pcapPktHandler, dlProtocol_short (not_le.mp hlink), exec_error_bind]

/-- **A captured frame** is handled: if the callback is called, then with what is captured behind
the headers. -/
theorem CapturedEnough.handler {c : Captured} (h : CapturedEnough order dl c.pkt) :
    Returns (pcapPktHandler order dl c) fun r => ∀ call, r.call = some call →
      SegmentCaptured c.pkt (tcpHdrAt dl c.pkt) ∧
        call.payload = tcpEndAt c.pkt (tcpHdrAt dl c.pkt) ∧
        call.payloadSz = c.caplen - tcpEndAt c.pkt (tcpHdrAt dl c.pkt) := by
  by_cases hip : LinkIsIpv4 order dl c.pkt
  · rw [handler_ipv4 order hip (h.ip hip)]
    split_ifs with hskip
    · exact returns_ok fun call hcall => by cases hcall
    · rw [not_or, not_ne_iff] at hskip
      have hseg := h.tcp hip hskip.1 hskip.2
      obtain ⟨opt, hopt⟩ := hseg.handler order c.caplen_lt
      rw [hopt, exec_ok_bind]
      refine returns_ok fun call hcall => ?_
      cases hcall
      exact ⟨hseg, rfl, rfl⟩
  · rw [handler_not_ipv4 order h.link hip]
    exact returns_ok fun call hcall => by cases hcall

/-- **A frame that is handled** is captured as far as the handler looks. -/
theorem capturedEnough_of_ok {c : Captured} {r : Handled}
    (h : pcapPktHandler order dl c = .ok r) : CapturedEnough order dl c.pkt := by
  have hlink : dl.hdrOffset ≤ c.pkt.length := by
    by_contra hcut
    rw [pcapPktHandler, dlProtocol_short (not_le.mp hcut), exec_error_bind] at h
    cases h
  have hfixed (hip : LinkIsIpv4 order dl c.pkt) : dl.hdrOffset + 20 ≤ c.pkt.length := by
    by_contra hcut
    rw [handler_short order hip (not_le.mp hcut)] at h
    cases h
  refine ⟨hlink, hfixed, fun hip hdst htcp => ?_⟩
  rw [handler_ipv4 order hip (hfixed hip), if_neg (not_or.mpr ⟨hdst, not_not.mpr htcp⟩)] at h
  obtain ⟨call, hcall, -⟩ := exec_bind_eq_ok.mp h
  exact tcpPktHandler_inv (by omega) c.caplen_lt hcall

end

/-- **The packet handler is safe** on exactly the frames of which everything that it reads is
captured. -/
theorem pcap_pkt_handler_safe_iff (order : ByteOrder) (dl : DlType) (c : Captured) :
    HandledSafely order dl c ↔ CapturedEnough order dl c.pkt := by
  constructor
  · rintro ⟨r, hr, -⟩
    exact capturedEnough_of_ok hr
  · intro h
    refine h.handler.imp fun r hr call hcall => ?_
    obtain ⟨hseg, hpay, hsz⟩ := hr call hcall
    have hend : tcpEndAt c.pkt (tcpHdrAt dl c.pkt) ≤ c.caplen := hseg.end_le
    rw [hpay, hsz]
    omega

/-- A runt: one byte of an Ethernet frame. -/
def runtFrame : Captured := ⟨[0xff], 60, by decide⟩

/-- The handler reads behind a runt. -/
theorem pcap_pkt_handler_reads_behind :
    ¬ ∀ (order : ByteOrder) (dl : DlType) (c : Captured), HandledSafely order dl c := by
  intro hall
  obtain ⟨r, hr, -⟩ := hall .little .en10mb runtFrame
  have hfault : pcapPktHandler .little .en10mb runtFrame = .error .outOfBounds := by decide
  rw [hfault] at hr
  cases hr

end Wee
