import Wee.Net.SniffSafe

/-! # Well-formed frames

On frames that are captured in full and well formed the handler returns. It hands out everything
behind the TCP header, so that the payload is the one of the segment only in a frame without
trailing bytes; and on a little-endian host its test for multicast addresses looks at the last octet
of the address in place of the first. -/

namespace Wee

/-- `ip_len` of the IP header at `ip`. -/
def ipLenAt (pkt : List UInt8) (ip : Nat) : Nat := beNat (slice pkt (ip + 2) 2)

/-- The size of the IP header at `ip`. -/
def ipHdrSzAt (pkt : List UInt8) (ip : Nat) : Nat := byteAt pkt ip % 16 * 4

/-- A well-formed IPv4 datagram stands at `ip`; other bytes may follow it. -/
structure Ipv4Datagram (pkt : List UInt8) (ip : Nat) : Prop where
  /-- The version. -/
  version : byteAt pkt ip / 16 = 4
  /-- The header has its fixed part. -/
  hdr_ge : 20 ≤ ipHdrSzAt pkt ip
  /-- The datagram has its header. -/
  hdr_le : ipHdrSzAt pkt ip ≤ ipLenAt pkt ip
  /-- The datagram is captured. -/
  len_le : ip + ipLenAt pkt ip ≤ pkt.length

/-- The datagram at `ip` carries a TCP segment, with well-formed options. -/
structure TcpSegment (pkt : List UInt8) (ip : Nat) : Prop where
  /-- The header has its fixed part. -/
  off_ge : 5 ≤ thOffAt pkt (ip + ipHdrSzAt pkt ip)
  /-- The header is inside the datagram. -/
  hdr_le : ipHdrSzAt pkt ip + 4 * thOffAt pkt (ip + ipHdrSzAt pkt ip) ≤ ipLenAt pkt ip
  /-- The options are options. -/
  options : ∃ os pad, optionsAt pkt (ip + ipHdrSzAt pkt ip) = optionsBytes os ++ pad ∧
    OptionsEnd pad

/-- The datagram at `ip` is no fragment: no more fragments, and offset zero. -/
def Unfragmented (pkt : List UInt8) (ip : Nat) : Prop := beNat (slice pkt (ip + 6) 2) % 2 ^ 14 = 0

instance instDecidableUnfragmented (pkt : List UInt8) (ip : Nat) :
    Decidable (Unfragmented pkt ip) :=
  inferInstanceAs (Decidable (_ = _))

/-- The frame carries an IPv4 datagram, by its link header or, where it has none, by its first
byte. -/
def CarriesIpv4 (order : ByteOrder) (dl : DlType) (pkt : List UInt8) : Prop :=
  match dl with
  | .null => hostNat order (slice pkt 0 4) = 2
  | .raw => byteAt pkt 0 / 16 = 4
  | .en10mb => beNat (slice pkt 12 2) = ethertypeIp
  | .linuxSll => beNat (slice pkt 14 2) = ethertypeIp

instance instDecidableCarriesIpv4 (order : ByteOrder) (dl : DlType) (pkt : List UInt8) :
    Decidable (CarriesIpv4 order dl pkt) :=
  match dl with
  | .null => inferInstanceAs (Decidable (_ = _))
  | .raw => inferInstanceAs (Decidable (_ = _))
  | .en10mb => inferInstanceAs (Decidable (_ = _))
  | .linuxSll => inferInstanceAs (Decidable (_ = _))

/-- A well-formed frame of a link type that a host has captured in full: the link header, and a
datagram where it says IPv4, with a segment where that says TCP; without a link header, IPv4 or
IPv6. -/
structure WellFormedFrame (order : ByteOrder) (dl : DlType) (c : Captured) : Prop where
  /-- The frame is captured in full. -/
  full : c.caplen = c.len
  /-- `snaplen` is an `int`. -/
  caplen_lt : c.caplen < 2 ^ 31
  /-- The link header. -/
  link : dl.hdrOffset ≤ c.caplen
  /-- The datagram. -/
  datagram : CarriesIpv4 order dl c.pkt → Ipv4Datagram c.pkt dl.hdrOffset
  /-- The segment; a fragment has a part of one. -/
  segment : CarriesIpv4 order dl c.pkt → byteAt c.pkt (dl.hdrOffset + 9) = ipprotoTcp →
    Unfragmented c.pkt dl.hdrOffset → TcpSegment c.pkt dl.hdrOffset
  /-- Other frames without a link header are IPv6. -/
  ipv6 : dl = .raw → ¬ CarriesIpv4 order dl c.pkt → byteAt c.pkt 0 / 16 = 6 ∧ 40 ≤ c.caplen

/-- The callback is given the payload of the TCP segment: the bytes of the datagram behind the TCP
header. -/
def PayloadRight (dl : DlType) (pkt : List UInt8) (call : SniffCall) : Prop :=
  let ip := dl.hdrOffset
  let tcp := ip + ipHdrSzAt pkt ip
  call.payload = tcp + 4 * thOffAt pkt tcp ∧
    call.payloadSz = ipLenAt pkt ip - ipHdrSzAt pkt ip - 4 * thOffAt pkt tcp

/-- An octet of a class D address, when it is the first one. -/
def ClassD (octet : Nat) : Prop := 224 ≤ octet ∧ octet ≤ 239

/-- The destination at `ip` is 255.255.255.255. -/
def DstBroadcast (pkt : List UInt8) (ip : Nat) : Prop :=
  slice pkt (ip + 16) 4 = [255, 255, 255, 255]

instance instDecidableClassD (octet : Nat) : Decidable (ClassD octet) :=
  inferInstanceAs (Decidable (_ ∧ _))

instance instDecidableDstBroadcast (pkt : List UInt8) (ip : Nat) :
    Decidable (DstBroadcast pkt ip) :=
  inferInstanceAs (Decidable (_ = _))

/-- The frames that are to be passed on: TCP over IPv4 to a destination that is neither
255.255.255.255 nor in 224.0.0.0/4. -/
def Wanted (dl : DlType) (pkt : List UInt8) : Prop :=
  CarriesIpv4 .little dl pkt ∧ byteAt pkt (dl.hdrOffset + 9) = ipprotoTcp ∧
    ¬ DstBroadcast pkt dl.hdrOffset ∧ ¬ ClassD (byteAt pkt (dl.hdrOffset + 16))

/-- What the handler of a little-endian host passes on, of the frames it takes for IPv4: it looks at
the last octet of the destination. -/
def PassedOn (dl : DlType) (pkt : List UInt8) : Prop :=
  byteAt pkt (dl.hdrOffset + 9) = ipprotoTcp ∧
    ¬ DstBroadcast pkt dl.hdrOffset ∧ ¬ ClassD (byteAt pkt (dl.hdrOffset + 19))

/-- The handler of a little-endian host passes on exactly the wanted frames. -/
def SelectsRight (dl : DlType) (c : Captured) : Prop :=
  Returns (pcapPktHandler .little dl c) fun r => r.call.isSome ↔ Wanted dl c.pkt

/-- What the handler of a little-endian host looks at does not mislead it. -/
structure SelectionAgrees (dl : DlType) (pkt : List UInt8) : Prop where
  /-- The first octet of the destination of a segment and the last one are both of class D, or both
  not. -/
  octets : CarriesIpv4 .little dl pkt → byteAt pkt (dl.hdrOffset + 9) = ipprotoTcp →
    (ClassD (byteAt pkt (dl.hdrOffset + 16)) ↔ ClassD (byteAt pkt (dl.hdrOffset + 19)))
  /-- What stands in a fragment in place of the TCP header can be read as one. -/
  fragment : Wanted dl pkt → ¬ Unfragmented pkt dl.hdrOffset →
    SegmentCaptured pkt (tcpHdrAt dl pkt)
  /-- An IPv6 datagram without a link header does not pass for TCP over IPv4. -/
  ipv6 : dl = .raw → ¬ CarriesIpv4 .little dl pkt → byteAt pkt 9 = ipprotoTcp →
    DstBroadcast pkt 0 ∨ ClassD (byteAt pkt 19)

section

variable {order : ByteOrder} {dl : DlType} {pkt : List UInt8} {ip : Nat} {c : Captured}

/-! ### Addresses -/

/-- The high bits of a value, masked in place. -/
theorem and_shiftLeft (a m k : Nat) : a &&& m <<< k = (a >>> k &&& m) <<< k := by
  refine Nat.eq_of_testBit_eq fun i => ?_
  simp only [Nat.testBit_and, Nat.testBit_shiftLeft, Nat.testBit_shiftRight]
  by_cases hik : k ≤ i
  · simp [hik]
  · simp [hik]

/-- **The multicast test** looks at the high byte of the word. -/
theorem ipv4IsMulticastAddr_iff {addr : Nat} (h : addr < 2 ^ 32) :
    Ipv4IsMulticastAddr addr ↔ ClassD (addr / 2 ^ 24) := by
  have hmask : ipv4Addr 240 0 0 0 = (2 ^ 4 - 1) <<< 28 := by decide
  have hclass : ipv4Addr 224 0 0 0 = 14 <<< 28 := by decide
  rw [Ipv4IsMulticastAddr, hmask, hclass, and_shiftLeft, Nat.and_two_pow_sub_one_eq_mod,
    Nat.shiftLeft_eq, Nat.shiftLeft_eq, Nat.shiftRight_eq_div_pow, ClassD]
  omega

/-- **The filter of a little-endian host** looks at the last octet of the destination. -/
theorem filteredOut_little_iff (h : dl.hdrOffset + 20 ≤ pkt.length) :
    FilteredOut .little dl pkt ↔
      DstBroadcast pkt dl.hdrOffset ∨ ClassD (byteAt pkt (dl.hdrOffset + 19)) := by
  have hlen : (slice pkt (dl.hdrOffset + 16) 4).length = 4 := length_slice (by omega)
  have hlt : dstAddr .little dl pkt < 2 ^ 32 := by
    have hword := hostNat_lt .little (slice pkt (dl.hdrOffset + 16) 4)
    rw [hlen] at hword
    exact hword
  have hall : Ipv4IsBroadcastAddr (dstAddr .little dl pkt) ↔ DstBroadcast pkt dl.hdrOffset := by
    have hswap : ipv4Addr 255 255 255 255 = swapBytes .little 4 (2 ^ 32 - 1) := by decide
    have hbytes : beBytes 4 (2 ^ 32 - 1) = [255, 255, 255, 255] := by decide
    rw [Ipv4IsBroadcastAddr, dstAddr, hswap, hostNat_eq_swapBytes hlen (by decide), hbytes,
      DstBroadcast]
  have hhigh : dstAddr .little dl pkt / 2 ^ 24 = byteAt pkt (dl.hdrOffset + 19) := by
    rw [dstAddr]
    exact (hostNat_little_div (k := 3) hlen).trans (byteAt_slice pkt _ (by decide))
  rw [FilteredOut, hall, ipv4IsMulticastAddr_iff hlt, hhigh]

/-- No octet of 255.255.255.255 is of class D. -/
theorem DstBroadcast.not_classD (h : DstBroadcast pkt ip) {j : Nat} (hj : j < 4) :
    ¬ ClassD (byteAt pkt (ip + 16 + j)) := by
  have hall : ∀ i < 4, byteAt [255, 255, 255, 255] i = 255 := by decide
  rw [← byteAt_slice pkt (ip + 16) hj, h, hall j hj, ClassD]
  omega

/-! ### Well-formed frames are captured -/

/-- The link header as the handler looks at it, where there is one. -/
theorem linkIsIpv4_iff (hlink : dl.hdrOffset ≤ pkt.length) (hraw : dl ≠ .raw) :
    LinkIsIpv4 order dl pkt ↔ CarriesIpv4 order dl pkt := by
  cases dl with
  | null =>
    have hlt := hostNat_lt order (slice pkt 0 4)
    rw [length_slice (show 0 + 4 ≤ _ from hlink)] at hlt
    rw [LinkIsIpv4, CarriesIpv4, toSigned, pfInet]
    split_ifs with hsign
    · omega
    · omega
  | raw => exact absurd rfl hraw
  | en10mb => exact Iff.rfl
  | linuxSll => exact Iff.rfl

/-- What the frame carries, the handler looks at. -/
theorem CarriesIpv4.link (h : CarriesIpv4 order dl pkt) (hlink : dl.hdrOffset ≤ pkt.length) :
    LinkIsIpv4 order dl pkt := by
  by_cases hraw : dl = .raw
  · subst hraw
    trivial
  · exact (linkIsIpv4_iff hlink hraw).mpr h

/-- Options that are options do not end in a lone kind. -/
theorem not_loneKind_of_options {os : List TcpOption} {pad : List UInt8} (hpad : OptionsEnd pad) :
    ¬ LoneKind (optionsBytes os ++ pad) := by
  intro hlone
  have hok := tcpOptionsLoop_grammar os hpad [] (le_refl _) ⟨0, 0, 0, 0, 0⟩
  rw [List.append_nil, hlone.loop_faults (le_refl _)] at hok
  cases hok

/-- A segment inside a datagram is captured. -/
theorem Ipv4Datagram.segmentCaptured (h : Ipv4Datagram pkt ip) (hseg : TcpSegment pkt ip)
    (hcap : pkt.length < 2 ^ 31) : SegmentCaptured pkt (ip + ipHdrSzAt pkt ip) := by
  have hlen := h.len_le
  have hhdr := hseg.hdr_le
  have hoff := hseg.off_ge
  obtain ⟨os, pad, hopts, hpad⟩ := hseg.options
  refine ⟨by omega, by rw [tcpEndAt]; omega, fun hlone => ?_, by omega⟩
  rw [hopts] at hlone
  exact absurd hlone (not_loneKind_of_options hpad)

/-- A well-formed IPv4 frame has a whole IP header. -/
theorem WellFormedFrame.hdr_le (h : WellFormedFrame order dl c) (hip : CarriesIpv4 order dl c.pkt) :
    dl.hdrOffset + 20 ≤ c.pkt.length := by
  have hge := (h.datagram hip).hdr_ge
  have hle := (h.datagram hip).hdr_le
  have hlen := (h.datagram hip).len_le
  omega

/-- **The segment of a well-formed frame** is captured. -/
theorem WellFormedFrame.segmentCaptured (h : WellFormedFrame order dl c)
    (hip : CarriesIpv4 order dl c.pkt) (htcp : byteAt c.pkt (dl.hdrOffset + 9) = ipprotoTcp)
    (hwhole : Unfragmented c.pkt dl.hdrOffset) : SegmentCaptured c.pkt (tcpHdrAt dl c.pkt) :=
  (h.datagram hip).segmentCaptured (h.segment hip htcp hwhole) h.caplen_lt

/-! ### Selection -/

/-- What the handler filters out, and what is not TCP, is not passed on. -/
theorem passedOn_iff (hlen : dl.hdrOffset + 20 ≤ pkt.length) :
    PassedOn dl pkt ↔
      ¬ (FilteredOut .little dl pkt ∨ byteAt pkt (dl.hdrOffset + 9) ≠ ipprotoTcp) := by
  rw [filteredOut_little_iff hlen, PassedOn]
  tauto

/-- **The handler on a frame it takes for IPv4 and does not pass on**. -/
theorem handler_of_not_passedOn (hip : LinkIsIpv4 .little dl c.pkt)
    (hlen : dl.hdrOffset + 20 ≤ c.pkt.length) (h : ¬ PassedOn dl c.pkt) {P : Prop} :
    (Returns (pcapPktHandler .little dl c) fun r => r.call.isSome ↔ P) ↔ ¬ P := by
  rw [passedOn_iff hlen, not_not] at h
  rw [handler_ipv4 .little hip hlen, if_pos h]
  constructor
  · rintro ⟨r, hr, hiff⟩ hP
    cases hr
    cases hiff.mpr hP
  · intro hP
    exact returns_ok (iff_of_false (fun h => by cases h) hP)

/-- **The handler on a frame it takes for IPv4 and passes on**: it calls the callback, unless it
faults behind the IP header. -/
theorem handler_of_passedOn (hip : LinkIsIpv4 .little dl c.pkt)
    (hlen : dl.hdrOffset + 20 ≤ c.pkt.length) (h : PassedOn dl c.pkt) {P : Prop} :
    (Returns (pcapPktHandler .little dl c) fun r => r.call.isSome ↔ P) ↔
      SegmentCaptured c.pkt (tcpHdrAt dl c.pkt) ∧ P := by
  rw [passedOn_iff hlen] at h
  have hrun := handler_ipv4 .little hip hlen
  rw [if_neg h] at hrun
  have hcalls {r : Handled} (hr : pcapPktHandler .little dl c = .ok r) : r.call.isSome := by
    rw [hrun] at hr
    obtain ⟨call, -, hcall⟩ := exec_bind_eq_ok.mp hr
    cases hcall
    rfl
  rw [not_or, not_ne_iff] at h
  constructor
  · rintro ⟨r, hr, hiff⟩
    exact ⟨(capturedEnough_of_ok hr).tcp hip h.1 h.2, hiff.mp (hcalls hr)⟩
  · rintro ⟨hseg, hP⟩
    have hcap : CapturedEnough .little dl c.pkt := ⟨by omega, fun _ => hlen, fun _ _ _ => hseg⟩
    obtain ⟨r, hr, -⟩ := hcap.handler
    exact ⟨r, hr, iff_of_true (hcalls hr) hP⟩

/-- A frame whose link header does not say IPv4 is not passed on. -/
theorem selects_other (hlink : dl.hdrOffset ≤ c.pkt.length) (hraw : dl ≠ .raw)
    (hip : ¬ CarriesIpv4 .little dl c.pkt) : SelectsRight dl c := by
  have hno : ¬ LinkIsIpv4 .little dl c.pkt := fun h => hip ((linkIsIpv4_iff hlink hraw).mp h)
  rw [SelectsRight, handler_not_ipv4 .little hlink hno]
  exact returns_ok (iff_of_false (fun h => by cases h) (fun hwant => hip hwant.1))

end

/-- **The payload handed out is the segment's** exactly when nothing follows the IP datagram. -/
theorem payload_right_iff (order : ByteOrder) (dl : DlType) (c : Captured) (r : Handled)
    (call : SniffCall) (hwf : WellFormedFrame order dl c) (hip : CarriesIpv4 order dl c.pkt)
    (htcp : byteAt c.pkt (dl.hdrOffset + 9) = ipprotoTcp)
    (hwhole : Unfragmented c.pkt dl.hdrOffset) (hrun : pcapPktHandler order dl c = .ok r)
    (hcall : r.call = some call) :
    PayloadRight dl c.pkt call ↔ c.caplen = dl.hdrOffset + ipLenAt c.pkt dl.hdrOffset := by
  obtain ⟨r', hr', hpost⟩ := (capturedEnough_of_ok hrun).handler
  obtain rfl : r = r' := Except.ok.inj (hrun.symm.trans hr')
  obtain ⟨-, hpay, hsz⟩ := hpost call hcall
  have hlen : dl.hdrOffset + ipLenAt c.pkt dl.hdrOffset ≤ c.caplen := (hwf.datagram hip).len_le
  have hhdr := (hwf.segment hip htcp hwhole).hdr_le
  have hend : tcpEndAt c.pkt (tcpHdrAt dl c.pkt) = dl.hdrOffset + ipHdrSzAt c.pkt dl.hdrOffset
      + 4 * thOffAt c.pkt (dl.hdrOffset + ipHdrSzAt c.pkt dl.hdrOffset) := rfl
  rw [PayloadRight, hpay, hsz, hend]
  constructor
  · rintro ⟨-, hsize⟩
    omega
  · intro hcap
    exact ⟨rfl, by omega⟩

/-- A TCP segment without payload from 10.0.0.1 to an address 10.0.0.x, in an Ethernet frame that is
padded to its minimal size. -/
def ethernetBytes (x : UInt8) : List UInt8 :=
  List.replicate 12 0 ++ [8, 0]
    ++ [0x45, 0, 0, 40] ++ List.replicate 5 0 ++ [6, 0, 0, 10, 0, 0, 1, 10, 0, 0, x]
    ++ List.replicate 12 0 ++ [0x50] ++ List.replicate 7 0
    ++ List.replicate 6 0

/-- The frame to 10.0.0.x. -/
def ethernetFrame (x : UInt8) : Captured := ⟨ethernetBytes x, 60, show 60 < 2 ^ 32 by decide⟩

/-- The frames to 10.0.0.2 and 10.0.0.230 are well formed. -/
theorem ethernetFrame_wellFormed (order : ByteOrder) {x : UInt8} (hx : x = 2 ∨ x = 230) :
    WellFormedFrame order .en10mb (ethernetFrame x) := by
  obtain rfl | rfl := hx <;>
  exact ⟨by decide, by decide, by decide,
    fun _ => ⟨by decide, by decide, by decide, by decide⟩,
    fun _ _ _ => ⟨by decide, by decide, [], [], by decide, fun k hk => by cases hk⟩,
    fun h => by cases h⟩

/-- What the callback is given: the padding, as six bytes of data. -/
def paddedCall : SniffCall := ⟨14, 34, ⟨0, 0, 0, 0, 0⟩, 54, 6⟩

/-- The padding of the frame is not the payload of its segment. -/
theorem payload_right_iff_padded :
    ¬ PayloadRight .en10mb (ethernetFrame 2).pkt paddedCall := fun h =>
  absurd ((payload_right_iff .little .en10mb (ethernetFrame 2) ⟨false, some paddedCall⟩ paddedCall
    (ethernetFrame_wellFormed .little (.inl rfl)) (by decide) (by decide) (by decide) (by decide)
    rfl).mp h) (by decide)

/-- The padding of a frame is handed out as data. -/
theorem payload_has_padding :
    ¬ ∀ (order : ByteOrder) (dl : DlType) (c : Captured) (r : Handled) (call : SniffCall),
      WellFormedFrame order dl c → CarriesIpv4 order dl c.pkt →
      byteAt c.pkt (dl.hdrOffset + 9) = ipprotoTcp → Unfragmented c.pkt dl.hdrOffset →
      pcapPktHandler order dl c = .ok r → r.call = some call → PayloadRight dl c.pkt call := by
  intro hall
  obtain ⟨-, hsz⟩ := hall .little .en10mb (ethernetFrame 2) ⟨false, some paddedCall⟩ paddedCall
    (ethernetFrame_wellFormed .little (.inl rfl)) (by decide) (by decide) (by decide) (by decide)
    rfl
  exact absurd hsz (by decide)

/-- **The handler of a little-endian host selects the right frames** exactly when its look at the
destination, or at a frame without a link header, does not mislead it. -/
theorem selects_right_iff (dl : DlType) (c : Captured) (hwf : WellFormedFrame .little dl c) :
    SelectsRight dl c ↔ SelectionAgrees dl c.pkt := by
  by_cases hip : CarriesIpv4 .little dl c.pkt
  · have hlink := hip.link hwf.link
    have hlen := hwf.hdr_le hip
    have hfirst (hdst : DstBroadcast c.pkt dl.hdrOffset) :
        ¬ ClassD (byteAt c.pkt (dl.hdrOffset + 16)) := hdst.not_classD (show 0 < 4 by decide)
    have hlast (hdst : DstBroadcast c.pkt dl.hdrOffset) :
        ¬ ClassD (byteAt c.pkt (dl.hdrOffset + 19)) := hdst.not_classD (show 3 < 4 by decide)
    by_cases hpass : PassedOn dl c.pkt
    · rw [SelectsRight, handler_of_passedOn hlink hlen hpass]
      obtain ⟨htcp, hdst, hclass⟩ := hpass
      constructor
      · rintro ⟨hseg, -, -, -, hnot⟩
        exact ⟨fun _ _ => iff_of_false hnot hclass, fun _ _ => hseg, fun _ hno => absurd hip hno⟩
      · intro hagree
        have hwant : Wanted dl c.pkt :=
          ⟨hip, htcp, hdst, fun h => hclass ((hagree.octets hip htcp).mp h)⟩
        by_cases hwhole : Unfragmented c.pkt dl.hdrOffset
        · exact ⟨hwf.segmentCaptured hip htcp hwhole, hwant⟩
        · exact ⟨hagree.fragment hwant hwhole, hwant⟩
    · rw [SelectsRight, handler_of_not_passedOn hlink hlen hpass]
      constructor
      · intro hnot
        refine ⟨fun _ htcp => ?_, fun h => absurd h hnot, fun _ hno => absurd hip hno⟩
        rw [PassedOn] at hpass
        rw [Wanted] at hnot
        tauto
      · rintro hagree ⟨-, htcp, hdst, hclass⟩
        exact hpass ⟨htcp, hdst, fun h => hclass ((hagree.octets hip htcp).mpr h)⟩
  · by_cases hraw : dl = .raw
    · subst hraw
      have hlink : LinkIsIpv4 .little .raw c.pkt := trivial
      have hlen : DlType.raw.hdrOffset + 20 ≤ c.pkt.length :=
        le_trans (by decide) (hwf.ipv6 rfl hip).2
      by_cases hpass : PassedOn .raw c.pkt
      · rw [SelectsRight, handler_of_passedOn hlink hlen hpass]
        obtain ⟨htcp, hdst, hclass⟩ := hpass
        refine iff_of_false (fun h => hip h.2.1) fun h => ?_
        exact (h.ipv6 rfl hip htcp).elim hdst hclass
      · rw [SelectsRight, handler_of_not_passedOn hlink hlen hpass]
        refine iff_of_true (fun h => hip h.1)
          ⟨fun h => absurd h hip, fun h => absurd h.1 hip, fun _ _ htcp => ?_⟩
        by_contra hnone
        exact hpass ⟨htcp, not_or.mp hnone⟩
    · exact iff_of_true (selects_other hwf.link hraw hip)
        ⟨fun h => absurd h hip, fun h => absurd h.1 hip, fun h => absurd h hraw⟩

/-- The frame to 10.0.0.2 is passed on, as it should be. -/
theorem selects_right_iff_padded : SelectsRight .en10mb (ethernetFrame 2) :=
  (selects_right_iff .en10mb (ethernetFrame 2) (ethernetFrame_wellFormed .little (.inl rfl))).mpr
    ⟨fun _ _ => by decide, fun _ h => absurd (by decide) h, fun h => by cases h⟩

/-- The frame to 10.0.0.230 is dropped as a multicast. -/
theorem selects_unicast_wrong :
    ¬ ∀ (dl : DlType) (c : Captured), WellFormedFrame .little dl c → SelectsRight dl c := by
  intro hall
  obtain ⟨r, hr, hiff⟩ :=
    hall .en10mb (ethernetFrame 230) (ethernetFrame_wellFormed .little (.inr rfl))
  have hrun : pcapPktHandler .little .en10mb (ethernetFrame 230) = .ok ⟨false, none⟩ := by decide
  rw [hrun] at hr
  cases hr
  exact absurd (hiff.mpr ⟨by decide, by decide, by decide, by decide⟩) (by decide)

end Wee
