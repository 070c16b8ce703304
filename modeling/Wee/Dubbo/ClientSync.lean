import Wee.Dubbo.ClientSession

/-! # The synchronous call (`dubbo_invoke_sync`)

`dubbo_invoke_sync` sends a request and reads until the first bytes are there; then it reads on while
`remaining` is negative. `is_completed_dubbo_pkt` sets `remaining` to the bytes that are missing, so
that it is positive when the header comment, and the loop, take it to be negative: a response that
does not come in one piece is decoded too early. And the result of the call is never set to
`true`. -/

namespace Wee

/-! ### Sending and receiving -/

/-- What one call of `send` does. -/
inductive SendRes
  /-- `send` returned `-1` and set `errno`. -/
  | fail (errno : Int)
  /-- `send` took this many bytes, or all of them when there are fewer. -/
  | sent (n : Nat)
  deriving DecidableEq, Repr

/-- `socket_sendAllSync` of `size` bytes, `sent` of which are gone, over the outcomes of its calls of
`send`. -/
def socketSendAllSync (size : Nat) : List SendRes → Nat → Exec Nat
  | [], sent => if sent < size then .error .outOfFuel else return sent
  | r :: rs, sent =>
    if sent < size then
      match r with
      | .fail errno => if errno = eintr then socketSendAllSync size rs sent else return sent
      | .sent n => socketSendAllSync size rs (sent + min n (size - sent))
    else return sent

section Result

variable {args : CliArgs} {fuel : Nat} {lastReqid : Int64} {sockfd : Int} {sends : List SendRes}
  {reads : List ReadvRes} {buf : Buffer} {r : SyncRes}

end Result

/-! ### `remaining` -/

section Remaining

variable {buf : Buffer} {flag : Int8} {status reqid : Int} {n : Nat} {rest : List UInt8}

end Remaining

/-! ### A response in pieces -/

/-- The request is on its way: it has been encoded in `buf`, the socket is connected and `send` has
taken all of it. -/
structure SyncSent (args : CliArgs) (lastReqid : Int64) (sockfd : Int) (sends : List SendRes)
    (buf : Buffer) : Prop where
  /-- The request. -/
  encoded : ∃ req, dubboReqCreate args.rebuildJsonArgs (nextReqid lastReqid) args.service args.method
    args.args = some req ∧ dubboEncode req = .ok (some buf)
  /-- The socket. -/
  connected : sockfd ≠ -1
  /-- The bytes. -/
  sent : socketSendAllSync (bufReadable buf) sends 0 = .ok (bufReadable buf)

section Receive

variable {args : CliArgs} {fuel : Nat} {lastReqid : Int64} {sockfd : Int} {sends : List SendRes}
  {reads : List ReadvRes} {buf : Buffer} {f : ResFrame} {c : List UInt8} {chunks : List (List UInt8)}

/-- The buffer of the request, emptied. -/
theorem SyncSent.buffer (h : SyncSent args lastReqid sockfd sends buf) :
    BufInv (bufRetrieveAll buf) ∧ bufBytes (bufRetrieveAll buf) = []
      ∧ (bufRetrieveAll buf).sz = 8208 := by
  obtain ⟨req, hcreate, hencode⟩ := h.encoded
  obtain ⟨hwf, -, -, hsz⟩ := dubboEncode_some (isEvt_of_create hcreate) hencode
  obtain ⟨hinv, hbytes⟩ := bufRetrieveAll_spec hwf
  exact ⟨hinv, hbytes, hsz⟩

end Receive

end Wee
