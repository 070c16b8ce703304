import Wee.Dubbo.Codec
import Wee.Base.BufferQueue

/-! # Frames

A Dubbo frame is a 16-byte header (magic, flag, status, request number and body size) and a body.
`encode_req_hdr` completes a frame in front of a body; `is_dubbo_pkt` and `is_completed_dubbo_pkt`
recognise the header at the front of a buffer. -/

namespace Wee

/-- The header of a frame whose body has `n` bytes. -/
def dubboHdrBytes (flag : Int8) (status reqid : Int) (n : Nat) : List UInt8 :=
  beBytes 2 dubboMagic ++ beBytes 1 (toUnsigned 8 flag.toInt) ++ beBytes 1 (toUnsigned 8 status)
    ++ beBytes 8 (toUnsigned 64 reqid) ++ beBytes 4 n

/-- A frame: the header and the body. -/
def dubboFrame (flag : Int8) (status reqid : Int) (body : List UInt8) : List UInt8 :=
  dubboHdrBytes flag status reqid body.length ++ body

/-- A header has 16 bytes. -/
@[simp] theorem length_dubboHdrBytes (flag : Int8) (status reqid : Int) (n : Nat) :
    (dubboHdrBytes flag status reqid n).length = 16 := by
  simp only [dubboHdrBytes, List.length_append, length_beBytes]

/-- The length of a frame. -/
theorem length_dubboFrame (flag : Int8) (status reqid : Int) (body : List UInt8) :
    (dubboFrame flag status reqid body).length = 16 + body.length := by
  rw [dubboFrame, List.length_append, length_dubboHdrBytes]

/-- `encode_req_hdr` completes the frame in front of the body. -/
theorem encodeReqHdr_spec {buf : Buffer} (h : BufWf buf) (hfront : dubboHdrLen ≤ buf.readIdx)
    (flag : Int8) (status reqid : Int) :
    ∃ buf', encodeReqHdr buf ⟨flag, status, toSigned 32 (bufReadable buf), reqid⟩
        = .ok (some buf')
      ∧ BufWf buf' ∧ bufBytes buf' = dubboFrame flag status reqid (bufBytes buf)
      ∧ buf'.sz = buf.sz := by
  have h16 : 16 ≤ buf.readIdx := hfront
  obtain ⟨b₁, hok₁, hwf₁, hbytes₁, hri₁, hsz₁, -⟩ :=
    bufPrependInt_spec (k := 4) h (by omega) (toSigned 32 (bufReadable buf))
  obtain ⟨b₂, hok₂, hwf₂, hbytes₂, hri₂, hsz₂, -⟩ :=
    bufPrependInt_spec (k := 8) hwf₁ (by omega) reqid
  obtain ⟨b₃, hok₃, hwf₃, hbytes₃, hri₃, hsz₃, -⟩ :=
    bufPrependInt_spec (k := 1) hwf₂ (by omega) status
  obtain ⟨b₄, hok₄, hwf₄, hbytes₄, hri₄, hsz₄, -⟩ :=
    bufPrependInt_spec (k := 1) hwf₃ (by omega) flag.toInt
  obtain ⟨b₅, hok₅, hwf₅, hbytes₅, -, hsz₅, -⟩ :=
    bufPrependInt_spec (k := 2) hwf₄ (by omega) dubboMagic
  refine ⟨b₅, ?_, hwf₅, ?_, by omega⟩
  · rw [encodeReqHdr, if_neg (by rw [bufPrependable]; omega)]
    simp only [bufPrependInt32, bufPrependInt64, bufPrependInt8, bufPrependInt16, hok₁, hok₂, hok₃,
      hok₄, hok₅, exec_ok_bind]
    rfl
  · have hsize : beBytes 4 (toUnsigned 32 (toSigned 32 (bufReadable buf)))
        = beBytes 4 (bufBytes buf).length := by
      rw [h.length_bufBytes, toUnsigned_toSigned]
      exact beBytes_mod 4 (bufReadable buf) 4 (Nat.le_refl 4)
    have hmagic : toUnsigned 16 (dubboMagic : Int) = dubboMagic := by decide
    rw [hbytes₅, hbytes₄, hbytes₃, hbytes₂, hbytes₁, dubboFrame, dubboHdrBytes]
    simp only [Nat.reduceMul, hsize, hmagic, List.append_assoc]

section Recognise

variable {buf : Buffer} {flag : Int8} {status reqid : Int} {n : Nat} {rest : List UInt8}

/-- A buffer that begins with a header has 16 readable bytes. -/
theorem le_readable_of_hdr (h : BufShape buf)
    (hbytes : bufBytes buf = dubboHdrBytes flag status reqid n ++ rest) :
    bufReadable buf = 16 + rest.length := by
  rw [← h.length_bufBytes, hbytes, List.length_append, length_dubboHdrBytes]

/-- `is_dubbo_pkt` accepts a header. -/
theorem isDubboPkt_of_hdr (h : BufShape buf)
    (hbytes : bufBytes buf = dubboHdrBytes flag status reqid n ++ rest) :
    isDubboPkt buf = .ok true := by
  have hread := le_readable_of_hdr h hbytes
  have hmagic : (bufBytes buf).take 2 = beBytes 2 dubboMagic := by
    rw [hbytes, dubboHdrBytes]
    simp only [List.append_assoc]
    exact List.take_left' (length_beBytes 2 dubboMagic)
  rw [isDubboPkt, if_pos (by rw [dubboHdrLen]; omega), bufPeekInt16,
    h.peekInt_spec (by omega), hmagic]
  decide

/-- `is_completed_dubbo_pkt` reads the body size from a header, whether the body is there or not. -/
theorem isCompletedDubboPkt_of_hdr (h : BufShape buf)
    (hbytes : bufBytes buf = dubboHdrBytes flag status reqid n ++ rest) (hpos : 0 < n)
    (hmax : n ≤ 4194304) :
    isCompletedDubboPkt buf
      = .ok (some (toSigned 32 (szSub (n + 16) (bufReadable buf)))) := by
  have hread := le_readable_of_hdr h hbytes
  have hidx := h.readable_eq
  have hw := h.write_le_sz
  have hr := h.read_le_write
  have hl := h.length_buf
  have hload : memLoad buf.buf (buf.readIdx + dubboHdrLen - 4) 4 = .ok (beBytes 4 n) := by
    have hoff : buf.readIdx + dubboHdrLen - 4 = buf.readIdx + 12 := by
      rw [dubboHdrLen]
      omega
    have hslice : slice buf.buf (buf.readIdx + 12) 4 = slice (bufBytes buf) 12 4 := by
      rw [bufBytes, slice_slice _ (by omega)]
    rw [hoff, memLoad_of_le (by omega), hslice, hbytes, dubboHdrBytes, slice]
    rw [List.drop_append_of_le_length (by simp), List.drop_left' (by simp)]
    rw [List.take_left' (by simp)]
  have hsize : toSigned 32 (beNat (beBytes 4 n)) = n := by
    rw [beNat_beBytes, Nat.mod_eq_of_lt (by omega), toSigned_of_lt (by omega)]
  have hcast : toUnsigned 64 ((n : Int) + dubboHdrLen) = n + 16 := by
    have hsum : (n : Int) + (dubboHdrLen : Int) = ((n + 16 : Nat) : Int) := by
      rw [dubboHdrLen]
      omega
    rw [hsum, toUnsigned_natCast (by omega)]
  have hneg : ¬ ((n : Int) ≤ 0 ∨ dubboMaxPktSz < n) := by
    rw [dubboMaxPktSz]
    omega
  rw [isCompletedDubboPkt, isDubboPkt_of_hdr h hbytes, exec_ok_bind, if_pos rfl, hload,
    exec_ok_bind]
  simp only [hsize]
  rw [if_neg hneg, hcast, exec_pure]

end Recognise

end Wee
