import Wee.Net.Endian

/-! # The TCP options of a header

`tcp_parse_recv_options` reads the options behind the fixed header: a header of one size, the one
that carries nothing but an aligned timestamp, is tried first as three words, and the general loop
goes from option to option. A pointer is the list of the bytes from it on, as far as the memory
goes. -/

namespace Wee

/-! ### The code -/

/-- `sizeof(struct tcphdr)`. -/
def sizeofTcphdr : Nat := 20

/-- `TCPOPT_EOL`: end of options. -/
@[match_pattern] abbrev tcpoptEol : UInt8 := 0

/-- `TCPOPT_NOP`: padding. -/
@[match_pattern] abbrev tcpoptNop : UInt8 := 1

/-- `TCPOPT_MSS`: segment size negotiating. -/
@[match_pattern] abbrev tcpoptMss : UInt8 := 2

/-- `TCPOPT_WINDOW`: window scaling. -/
@[match_pattern] abbrev tcpoptWindow : UInt8 := 3

/-- `TCPOPT_SACK_PERM`: SACK permitted. -/
@[match_pattern] abbrev tcpoptSackPerm : UInt8 := 4

/-- `TCPOPT_TIMESTAMP`: better RTT estimations. -/
@[match_pattern] abbrev tcpoptTimestamp : UInt8 := 8

/-- `TCPOLEN_MSS`. -/
def tcpolenMss : Nat := 4

/-- `TCPOLEN_WINDOW`. -/
def tcpolenWindow : Nat := 3

/-- `TCPOLEN_SACK_PERM`. -/
def tcpolenSackPerm : Nat := 2

/-- `TCPOLEN_TIMESTAMP`. -/
def tcpolenTimestamp : Nat := 10

/-- `TCPOLEN_TSTAMP_ALIGNED`: what stacks really send out. -/
def tcpolenTstampAligned : Nat := 12

/-- `TCP_SACK_SEEN`. -/
def tcpSackSeen : Nat := 1 <<< 0

/-- `struct tcpopt`. -/
structure TcpOpt where
  /-- Time stamp value. -/
  rcvTsval : Nat
  /-- Time stamp echo reply. -/
  rcvTsecr : Nat
  /-- SACK seen on a SYN packet. -/
  sackOk : Nat
  /-- Window scaling received from the sender. -/
  sndWscale : Nat
  /-- Maximal mss, negotiated at connection setup. -/
  mssClamp : Nat
  deriving DecidableEq, Repr

/-- `*ptr++`: the byte at the pointer and the pointer behind it. -/
def fetch : List UInt8 → Exec (UInt8 × List UInt8)
  | [] => .error .outOfBounds
  | b :: ptr => .ok (b, ptr)

/-- `get_unaligned_be16`. -/
def getUnalignedBe16 : List UInt8 → Exec Nat
  | a :: b :: _ => .ok (a.toNat <<< 8 ||| b.toNat)
  | _ => .error .outOfBounds

/-- `get_unaligned_be32`. -/
def getUnalignedBe32 : List UInt8 → Exec Nat
  | a :: b :: c :: d :: _ =>
    .ok (a.toNat <<< 24 ||| b.toNat <<< 16 ||| c.toNat <<< 8 ||| d.toNat)
  | _ => .error .outOfBounds

/-- `th->th_off`: the high half of the byte at offset 12. -/
def thOff (th : List UInt8) : Exec Nat := do
  let b ← byteLoad th 12
  return b / 16

/-- The word `tcp_parse_aligned_timestamp` looks for, in network byte order. -/
def alignedTimestampWord : Nat :=
  tcpoptNop.toNat <<< 24 ||| tcpoptNop.toNat <<< 16 ||| tcpoptTimestamp.toNat <<< 8
    ||| tcpolenTimestamp

/-- `tcp_parse_aligned_timestamp`. -/
def tcpParseAlignedTimestamp (order : ByteOrder) (opt : TcpOpt) (th : List UInt8) :
    Exec (Bool × TcpOpt) := do
  let word ← hostLoad order th sizeofTcphdr 4
  if word = htobe32 order alignedTimestampWord then
    let tsval ← hostLoad order th (sizeofTcphdr + 4) 4
    let tsecr ← hostLoad order th (sizeofTcphdr + 8) 4
    return (true, { opt with
      rcvTsval := be32toh order tsval
      rcvTsecr := if tsecr ≠ 0 then htobe32 order tsecr else 0 })
  else
    return (false, opt)

/-- The inner `switch`: what an option of size `opsize` with its body at `ptr` leaves in `opt`. -/
def tcpParseOption (opcode : UInt8) (opsize : Nat) (ptr : List UInt8) (opt : TcpOpt) :
    Exec TcpOpt :=
  match opcode with
  | tcpoptMss =>
    if opsize = tcpolenMss then do
      let mss ← getUnalignedBe16 ptr
      return { opt with mssClamp := mss }
    else .ok opt
  | tcpoptWindow =>
    if opsize = tcpolenWindow then do
      let (wscale, _) ← fetch ptr
      return { opt with sndWscale := wscale.toNat }
    else .ok opt
  | tcpoptTimestamp =>
    if opsize = tcpolenTimestamp then do
      let tsval ← getUnalignedBe32 ptr
      let tsecr ← getUnalignedBe32 (ptr.drop 4)
      return { opt with rcvTsval := tsval, rcvTsecr := tsecr }
    else .ok opt
  | tcpoptSackPerm =>
    if opsize = tcpolenSackPerm then .ok { opt with sackOk := tcpSackSeen } else .ok opt
  | _ => .ok opt

/-- The `while` loop of `tcp_parse_recv_options`, with fuel for its rounds. -/
def tcpOptionsLoop : Nat → List UInt8 → Int → TcpOpt → Exec (Bool × TcpOpt)
  | 0, _, length, opt => if 0 < length then .error .outOfFuel else .ok (true, opt)
  | fuel + 1, ptr, length, opt =>
    if 0 < length then do
      let (opcode, ptr) ← fetch ptr
      if opcode = tcpoptEol then return (true, opt)
      else if opcode = tcpoptNop then tcpOptionsLoop fuel ptr (length - 1) opt
      else
        let (opsize, ptr) ← fetch ptr
        -- "silly options", and options that do not end inside the header
        if opsize.toNat < 2 then return (false, opt)
        else if length < opsize.toNat then return (false, opt)
        else
          let opt ← tcpParseOption opcode opsize.toNat ptr opt
          tcpOptionsLoop fuel (ptr.drop (opsize.toNat - 2)) (length - opsize.toNat) opt
    else .ok (true, opt)

/-- `int length`: the bytes of the options, as the header claims them. -/
def tcpOptionsLength (off : Nat) : Int := toSigned 32 (szSub (off * 4) sizeofTcphdr)

/-- `tcp_parse_recv_options` from the general loop on. -/
def tcpParseOptionsFrom (off : Nat) (th : List UInt8) (opt : TcpOpt) : Exec (Bool × TcpOpt) :=
  tcpOptionsLoop (tcpOptionsLength off).toNat (th.drop sizeofTcphdr) (tcpOptionsLength off) opt

/-- `tcp_parse_recv_options`. -/
def tcpParseRecvOptions (order : ByteOrder) (th : List UInt8) (opt : TcpOpt) :
    Exec (Bool × TcpOpt) := do
  let off ← thOff th
  if off = sizeofTcphdr / 4 then return (false, opt)
  else if off = (sizeofTcphdr + tcpolenTstampAligned) / 4 then
    let (hit, opt) ← tcpParseAlignedTimestamp order opt th
    if hit then return (true, opt) else tcpParseOptionsFrom off th opt
  else tcpParseOptionsFrom off th opt

end Wee
