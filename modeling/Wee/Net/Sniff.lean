import Wee.Net.TcpOptions

/-! # The packet handler of the sniffer

`pcap_pkt_handler` looks at the link header, the IPv4 header and the TCP header of a captured frame
and hands the rest to a callback. Every offset comes from the frame; loads are from the bytes
captured. -/

namespace Wee

/-- The link types `tcpsniff` accepts. -/
inductive DlType
  /-- `DLT_NULL`: BSD loopback encapsulation. -/
  | null
  /-- `DLT_RAW`: no link header. -/
  | raw
  /-- `DLT_EN10MB`: Ethernet. -/
  | en10mb
  /-- `DLT_LINUX_SLL`: what the device `any` captures. -/
  | linuxSll
  deriving DecidableEq, Repr

/-- `dl_hdr_offset`, as `tcpsniff` sets it. -/
def DlType.hdrOffset : DlType → Nat
  | .null => 4
  | .raw => 0
  | .en10mb => 14
  | .linuxSll => 16

/-- `PF_INET`. -/
def pfInet : Int := 2

/-- `ETHERTYPE_IP`. -/
def ethertypeIp : Nat := 0x0800

/-- `IPPROTO_TCP`. -/
def ipprotoTcp : Nat := 6

/-- `IPV4_ADDR`. -/
def ipv4Addr (a b c d : Nat) : Nat := a <<< 24 ||| b <<< 16 ||| c <<< 8 ||| d

/-- `IPV4_IS_BROADCAST_ADDR`. -/
def Ipv4IsBroadcastAddr (addr : Nat) : Prop := addr = ipv4Addr 255 255 255 255

/-- `IPV4_IS_MULTICAST_ADDR`. -/
def Ipv4IsMulticastAddr (addr : Nat) : Prop := addr &&& ipv4Addr 240 0 0 0 = ipv4Addr 224 0 0 0

instance instDecidableIpv4IsBroadcastAddr (addr : Nat) : Decidable (Ipv4IsBroadcastAddr addr) :=
  inferInstanceAs (Decidable (_ = _))

instance instDecidableIpv4IsMulticastAddr (addr : Nat) : Decidable (Ipv4IsMulticastAddr addr) :=
  inferInstanceAs (Decidable (_ = _))

/-- A captured frame: `pkt`, with `caplen` bytes, and the rest of `pkt_hdr`. -/
structure Captured where
  /-- The bytes captured. -/
  pkt : List UInt8
  /-- `len`: the length of the frame. -/
  len : Nat
  /-- `caplen` is a `bpf_u_int32`. -/
  caplen_lt : pkt.length < 2 ^ 32

/-- `caplen`. -/
def Captured.caplen (c : Captured) : Nat := c.pkt.length

/-- What the callback is given; the pointers are offsets in `pkt`. -/
structure SniffCall where
  /-- The IP header. -/
  ipHdr : Nat
  /-- The TCP header. -/
  tcpHdr : Nat
  /-- The options of the TCP header. -/
  tcpOpt : TcpOpt
  /-- The payload. -/
  payload : Nat
  /-- The size of the payload. -/
  payloadSz : Nat
  deriving DecidableEq, Repr

/-- What the handler does with a frame. -/
structure Handled where
  /-- Whether it complains that the frame is not captured in full. -/
  short : Bool
  /-- The call of the callback, if there is one. -/
  call : Option SniffCall
  deriving DecidableEq, Repr

/-- The `switch` on the link type: the network protocol of the frame. -/
def dlProtocol (order : ByteOrder) (dl : DlType) (pkt : List UInt8) : Exec Nat :=
  match dl with
  | .null => do
    let family ← hostLoad order pkt 0 4
    return if toSigned 32 family ≠ pfInet then 0 else ethertypeIp
  | .raw => .ok ethertypeIp
  | .en10mb => do
    let etherType ← hostLoad order pkt 12 2
    return ntohs order etherType
  | .linuxSll => do
    let sllProtocol ← hostLoad order pkt 14 2
    return ntohs order sllProtocol

/-- `tcp_opt`: what the options leave in a structure of zeros. Whether they are well formed is not
looked at. -/
def tcpPktOptions (order : ByteOrder) (th : List UInt8) (tcpHdrSz : Nat) : Exec TcpOpt :=
  if toSigned 32 (szSub tcpHdrSz sizeofTcphdr) ≠ 0 then
    Prod.snd <$> tcpParseRecvOptions order th ⟨0, 0, 0, 0, 0⟩
  else .ok ⟨0, 0, 0, 0, 0⟩

/-- `payload_sz`: a difference of unsigned integers of 32 bits, as an `int`. -/
def payloadSize (caplen totalHdrSz : Nat) : Int := toSigned 32 (caplen + (2 ^ 32 - totalHdrSz))

/-- `pcap_pkt_handler` from the TCP header on. -/
def tcpPktHandler (order : ByteOrder) (dl : DlType) (pkt : List UInt8) (ipHdrSz : Nat) :
    Exec SniffCall := do
  let tcpHdr := dl.hdrOffset + ipHdrSz
  let off ← thOff (pkt.drop tcpHdr)
  let tcpHdrSz := off * 4
  let tcpOpt ← tcpPktOptions order (pkt.drop tcpHdr) tcpHdrSz
  let totalHdrSz := dl.hdrOffset + ipHdrSz + tcpHdrSz
  let payloadSz := payloadSize pkt.length totalHdrSz
  cassert (0 ≤ payloadSz)
  return {
    ipHdr := dl.hdrOffset, tcpHdr := tcpHdr, tcpOpt := tcpOpt,
    payload := totalHdrSz, payloadSz := payloadSz.toNat }

/-- `pcap_pkt_handler`. -/
def pcapPktHandler (order : ByteOrder) (dl : DlType) (c : Captured) : Exec Handled := do
  let short := decide (c.caplen ≠ c.len)
  let protocol ← dlProtocol order dl c.pkt
  if protocol ≠ ethertypeIp then return ⟨short, none⟩
  else
    let ipHdr := dl.hdrOffset
    let dst ← hostLoad order c.pkt (ipHdr + 16) 4
    if Ipv4IsBroadcastAddr dst then return ⟨short, none⟩
    else if Ipv4IsMulticastAddr dst then return ⟨short, none⟩
    else
      -- `ip_hl` is the low half of the first byte
      let verHl ← byteLoad c.pkt ipHdr
      let ipHdrSz := verHl % 16 * 4
      let ipP ← byteLoad c.pkt (ipHdr + 9)
      if ipP ≠ ipprotoTcp then return ⟨short, none⟩
      else
        let call ← tcpPktHandler order dl c.pkt ipHdrSz
        return ⟨short, some call⟩

end Wee
