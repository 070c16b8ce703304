import Wee.Base.BufferAppend
import Wee.Dubbo.ClientHandlers

/-! # The send path of the client

`cli_send_req` appends an encoded request to the send buffer and `cli_write` writes what the
connection takes; what is left waits for `cli_on_write`. As long as the client does not reconnect,
the bytes written and the bytes in the buffer together are the requests in order, and the write
event is registered exactly while the buffer is not empty. -/

namespace Wee

/-! ### One write -/

/-- `s'` comes from `s` by moving bytes from the send buffer to the connection. -/
structure Delivers (s s' : CliState) : Prop where
  /-- The send buffer is well formed. -/
  inv : BufInv s'.sndBuf
  /-- Nothing is lost and nothing repeated. -/
  bytes : s'.written ++ bufBytes s'.sndBuf = s.written ++ bufBytes s.sndBuf
  /-- The connection is the same. -/
  fd : s'.fd = s.fd
  /-- No reconnect. -/
  reconnects : s'.reconnects = s.reconnects

section Delivers

variable {fuel : Nat} {s s' s'' : CliState} {ok : Bool}

/-- Nothing is written. -/
theorem Delivers.refl (h : BufInv s.sndBuf) : Delivers s s := ⟨h, rfl, rfl, rfl⟩

/-- Writing, then writing. -/
theorem Delivers.trans (h : Delivers s s') (h' : Delivers s' s'') : Delivers s s'' where
  inv := h'.inv
  bytes := h'.bytes.trans h.bytes
  fd := h'.fd.trans h.fd
  reconnects := h'.reconnects.trans h.reconnects

/-- The queue of a buffer is empty exactly when nothing is readable. -/
theorem BufInv.bytes_eq_nil_iff {b : Buffer} (h : BufInv b) :
    bufBytes b = [] ↔ bufReadable b = 0 := by
  rw [← h.toBufWf.length_bufBytes, List.length_eq_zero_iff]

/-- A `write` that accepts the first `n` bytes. -/
theorem Delivers.accept {accepted : List UInt8} {b : Buffer} {n : Nat} (h : BufInv s.sndBuf)
    (hload : memLoad s.sndBuf.buf s.sndBuf.readIdx n = .ok accepted)
    (hretr : bufRetrieve s.sndBuf n = .ok b) :
    Delivers s { s.nextWrite with sndBuf := b, written := s.written ++ accepted } := by
  have hn : n ≤ bufReadable s.sndBuf := by
    by_contra hgt
    rw [bufRetrieve_of_gt (not_le.mp hgt)] at hretr
    cases hretr
  rw [h.shape.load_front hn] at hload
  obtain rfl := Except.ok.inj hload
  obtain ⟨b₁, hretr₁, hinv, hbytes, -⟩ := h.retrieve_spec hn
  obtain rfl := Except.ok.inj (hretr₁.symm.trans hretr)
  refine ⟨hinv, ?_, rfl, rfl⟩
  show (s.written ++ (bufBytes s.sndBuf).take n) ++ bufBytes b₁ = s.written ++ bufBytes s.sndBuf
  rw [hbytes, List.append_assoc, List.take_append_drop]

/-- **The loop of `cli_write`** delivers bytes. It ends with bytes accepted last when the buffer is
empty, and only then. -/
theorem cliWriteLoop_delivers {nwritten errno : Int} {r : Int × Int × CliState}
    (h : BufInv s.sndBuf) (hne : bufBytes s.sndBuf ≠ [] ∨ 0 < nwritten)
    (hok : cliWriteLoop fuel s nwritten errno = .ok r) :
    Delivers s r.2.2 ∧ (0 < r.1 ↔ bufBytes r.2.2.sndBuf = []) := by
  induction fuel generalizing s nwritten errno with
  | zero => cases hok
  | succ fuel ih =>
    rw [cliWriteLoop] at hok
    split_ifs at hok with hempty hret hintr
    · -- nothing is left: `write` has accepted bytes last
      cases hok
      have hnil := h.bytes_eq_nil_iff.mpr hempty
      exact ⟨.refl h, fun _ => hnil, fun _ => hne.resolve_left (fun hne => hne hnil)⟩
    · -- interrupted: the buffer is as it was
      have hleft : bufBytes s.sndBuf ≠ [] := fun hnil => hempty (h.bytes_eq_nil_iff.mp hnil)
      obtain ⟨hdel, hend⟩ := ih (s := s.nextWrite) h (.inl hleft) hok
      exact ⟨⟨hdel.inv, hdel.bytes, hdel.fd, hdel.reconnects⟩, hend⟩
    · -- any other outcome that is not positive ends the loop with bytes left
      cases hok
      refine ⟨⟨h, rfl, rfl, rfl⟩, fun hpos => absurd hpos (not_lt_of_ge hret), fun hnil => ?_⟩
      exact absurd (h.bytes_eq_nil_iff.mp hnil) hempty
    · -- the accepted bytes leave the buffer
      obtain ⟨accepted, hload, hok⟩ := exec_bind_eq_ok.mp hok
      obtain ⟨b, hretr, hok⟩ := exec_bind_eq_ok.mp hok
      have hone := Delivers.accept h hload hretr
      obtain ⟨hdel, hend⟩ := ih hone.inv (.inr (by omega)) hok
      exact ⟨hone.trans hdel, hend⟩

/-- The handler for writability that the send buffer calls for. -/
def sendHandler (s : CliState) : Option WriteProc :=
  if bufBytes s.sndBuf = [] then none else some .onWrite

/-- Registering a handler for writability, when it succeeds. -/
theorem aeCreateWritable_true {fd : Int} {proc : WriteProc}
    (h : aeCreateWritable s fd proc = .ok (true, s')) :
    s' = { s.nextAdd with writable := Function.update s.writable fd (some proc) } := by
  unfold aeCreateWritable at h
  split_ifs at h
  · cases h
  · cases h
    rfl
  · cases h

/-- **`cli_write`** delivers bytes, and when it returns `true` the write event is registered exactly
when bytes are left. -/
theorem cliWrite_delivers (h : BufInv s.sndBuf) (hok : cliWrite fuel s = .ok (ok, s')) :
    Delivers s s' ∧ (ok = true → s'.writable s'.fd = sendHandler s') := by
  rw [cliWrite] at hok
  split_ifs at hok with hempty
  · -- nothing to write, and the event is taken away
    obtain ⟨s₁, hdel, hret⟩ := exec_bind_eq_ok.mp hok
    cases hret
    obtain rfl := aeDeleteWritable_ok hdel
    refine ⟨⟨h, rfl, rfl, rfl⟩, fun _ => ?_⟩
    rw [sendHandler, if_pos (h.bytes_eq_nil_iff.mpr hempty)]
    exact Function.update_self _ _ _
  · obtain ⟨⟨nwritten, errno, s₁⟩, hloop, hok⟩ := exec_bind_eq_ok.mp hok
    have hleft : bufBytes s.sndBuf ≠ [] := fun hnil => hempty (h.bytes_eq_nil_iff.mp hnil)
    obtain ⟨hdel, hend⟩ := cliWriteLoop_delivers h (.inl hleft) hloop
    dsimp only at hok hdel hend
    split_ifs at hok with hret hagain hrest
    · -- the connection takes no more: the event is registered for the rest
      obtain ⟨net, writable, hs', -⟩ := aeCreateWritable_ok hok
      have hkept : Delivers s s' := by
        rw [hs']
        exact ⟨hdel.inv, hdel.bytes, hdel.fd, hdel.reconnects⟩
      refine ⟨hkept, ?_⟩
      rintro rfl
      have hsome : bufBytes s₁.sndBuf ≠ [] := fun hnil =>
        absurd (hend.mpr hnil) (not_lt_of_ge hret)
      rw [aeCreateWritable_true hok]
      show Function.update s₁.writable s₁.fd (some .onWrite) s₁.fd = sendHandler s₁
      rw [sendHandler, if_neg hsome, Function.update_self]
    · -- the connection failed, and nothing is said about the event
      cases hok
      exact ⟨hdel, fun hok => by cases hok⟩
    · -- nothing is left
      obtain ⟨s₂, hdelete, hret'⟩ := exec_bind_eq_ok.mp hok
      cases hret'
      obtain rfl := aeDeleteWritable_ok hdelete
      refine ⟨⟨hdel.inv, hdel.bytes, hdel.fd, hdel.reconnects⟩, fun _ => ?_⟩
      rw [sendHandler, if_pos (hdel.inv.bytes_eq_nil_iff.mpr hrest)]
      exact Function.update_self _ _ _
    · -- bytes were accepted last, so that nothing can be left
      have hnil := hend.mp (not_le.mp hret)
      exact absurd (hdel.inv.bytes_eq_nil_iff.mp hnil) hrest

end Delivers

/-! ### Requests and write events -/

/-- What uses the send buffer of a connection. -/
inductive SendOp
  /-- `cli_send_req`. -/
  | sendReq
  /-- `cli_on_write`. -/
  | onWrite
  deriving DecidableEq, Repr

/-- One use of the send buffer, with the request it encodes. -/
def sendStep (args : CliArgs) (fuel : Nat) (s : CliState) : SendOp → Exec (List UInt8 × CliState)
  | .sendReq => do
    let (frame, _) ← cliEncodeReq args s
    let s ← cliSendReq args fuel s
    return (frame, s)
  | .onWrite => do
    let s ← cliOnWrite args fuel s
    return ([], s)

/-- The bytes `sent` are written or wait in the send buffer, in this order. -/
structure Carries (sent : List UInt8) (s : CliState) : Prop where
  /-- The send buffer is well formed. -/
  inv : BufInv s.sndBuf
  /-- No byte is lost and none repeated. -/
  bytes : s.written ++ bufBytes s.sndBuf = sent

section Steps

variable {args : CliArgs} {fuel : Nat} {s s' : CliState} {sent frame : List UInt8} {ok : Bool}

/-- Delivering carries what was carried. -/
theorem Carries.deliver (h : Carries sent s) (hdel : Delivers s s') : Carries sent s' :=
  ⟨hdel.inv, hdel.bytes.trans h.bytes⟩

/-- The request depends on the number alone, and it fits. -/
theorem cliEncodeReq_frame {s₁ : CliState} (h : cliEncodeReq args s = .ok (frame, s₁))
    (s' : CliState) (hid : s'.lastReqid = s.lastReqid) :
    cliEncodeReq args s' = .ok (frame, { s' with lastReqid := nextReqid s'.lastReqid })
      ∧ frame.length ≤ maxReqFrame := by
  rw [cliEncodeReq, hid]
  rw [cliEncodeReq] at h
  cases hreq : dubboReqCreate args.rebuildJsonArgs (nextReqid s.lastReqid) args.service
      args.method args.args with
  | none =>
    rw [hreq] at h
    cases h
  | some req =>
    rw [hreq] at h
    obtain ⟨buf, hencode, h⟩ := exec_bind_eq_ok.mp h
    cases buf with
    | none => cases h
    | some buf =>
      obtain ⟨hwf, -, hlen, -⟩ := dubboEncode_some (isEvt_of_create hreq) hencode
      obtain ⟨frame', hload, hret⟩ := exec_bind_eq_ok.mp h
      rw [hwf.load_readable] at hload
      cases hload
      cases hret
      refine ⟨?_, hlen⟩
      simp only [hencode, exec_ok_bind, hwf.load_readable, exec_pure]

/-- **`cli_send_req`** without a reconnect queues its request behind the bytes sent. -/
theorem Carries.sendReq {s₁ : CliState} (h : Carries sent s)
    (hencode : cliEncodeReq args s = .ok (frame, s₁)) (hok : cliSendReq args fuel s = .ok s')
    (hno : s'.reconnects = s.reconnects) :
    Carries (sent ++ frame) s' ∧ s'.fd = s.fd ∧ s'.writable s'.fd = sendHandler s' := by
  cases fuel with
  | zero => cases hok
  | succ fuel =>
    obtain ⟨frame', sndBuf, ok, s₂, hencode', happ, hwrite, hrest⟩ := cliSendReq_ok hok
    -- the frame is the one `cli_send_req` encodes
    obtain ⟨hsame, hlen⟩ := cliEncodeReq_frame hencode { s with requests := s.requests + 1 } rfl
    rw [hsame] at hencode'
    obtain rfl : frame = frame' := congrArg Prod.fst (Except.ok.inj hencode')
    have hmax : maxReqFrame = 8208 := rfl
    obtain ⟨hinv, hbytes⟩ := h.inv.append_inv (by omega) happ
    have hqueued : Carries (sent ++ frame) { s with
        requests := s.requests + 1, lastReqid := nextReqid s.lastReqid, sndBuf := sndBuf } := by
      refine ⟨hinv, ?_⟩
      show s.written ++ bufBytes sndBuf = sent ++ frame
      rw [hbytes, ← List.append_assoc, h.bytes]
    obtain ⟨hdel, hreg⟩ := cliWrite_delivers hqueued.inv hwrite
    rcases hrest with ⟨hdone, rfl⟩ | ⟨-, hre⟩
    · exact ⟨hqueued.deliver hdel, hdel.fd, hreg hdone⟩
    · -- a failed write reconnects, which is excluded
      have hlt := (reconnectsKept args fuel).reconnect hre
      have hs₂ : s₂.reconnects = s.reconnects := hdel.reconnects
      omega

/-- **`cli_on_write`** without a reconnect carries what was carried. -/
theorem Carries.onWrite (h : Carries sent s) (hok : cliOnWrite args fuel s = .ok s')
    (hno : s'.reconnects = s.reconnects) :
    Carries sent s' ∧ s'.fd = s.fd ∧ s'.writable s'.fd = sendHandler s' := by
  obtain ⟨-, -, hok⟩ := exec_bind_eq_ok.mp hok
  obtain ⟨⟨ok, s₁⟩, hwrite, hok⟩ := exec_bind_eq_ok.mp hok
  obtain ⟨hdel, hreg⟩ := cliWrite_delivers h.inv hwrite
  dsimp only at hok
  split_ifs at hok with hdone
  · cases hok
    exact ⟨h.deliver hdel, hdel.fd, hreg hdone⟩
  · have hlt := (reconnectsKept args fuel).reconnect hok
    have hs₁ := hdel.reconnects
    omega

/-- **One use of the send buffer** without a reconnect. -/
theorem Carries.step {o : SendOp} (h : Carries sent s)
    (hok : sendStep args fuel s o = .ok (frame, s')) (hno : s'.reconnects = s.reconnects) :
    Carries (sent ++ frame) s' ∧ s'.fd = s.fd ∧ s'.writable s'.fd = sendHandler s' := by
  cases o with
  | sendReq =>
    obtain ⟨⟨frame', s₁⟩, hencode, hok⟩ := exec_bind_eq_ok.mp hok
    obtain ⟨s₂, hsend, hret⟩ := exec_bind_eq_ok.mp hok
    cases hret
    exact h.sendReq hencode hsend hno
  | onWrite =>
    obtain ⟨s₁, hwrite, hret⟩ := exec_bind_eq_ok.mp hok
    cases hret
    rw [List.append_nil]
    exact h.onWrite hwrite hno

/-- No use of the send buffer forgets a reconnect. -/
theorem reconnects_sendStep {o : SendOp} (hok : sendStep args fuel s o = .ok (frame, s')) :
    s.reconnects ≤ s'.reconnects := by
  cases o with
  | sendReq =>
    obtain ⟨⟨frame', s₁⟩, -, hok⟩ := exec_bind_eq_ok.mp hok
    obtain ⟨s₂, hsend, hret⟩ := exec_bind_eq_ok.mp hok
    cases hret
    exact (reconnectsKept args fuel).sendReq hsend
  | onWrite =>
    obtain ⟨s₁, hwrite, hret⟩ := exec_bind_eq_ok.mp hok
    cases hret
    exact reconnects_onWrite hwrite

/-- **Every run on one connection** carries the requests in order. -/
theorem Carries.run {ops : List SendOp} {frames : List (List UInt8)} (h : Carries sent s)
    (hrun : runOps (sendStep args fuel) s ops = .ok (frames, s'))
    (hno : s'.reconnects = s.reconnects) :
    Carries (sent ++ frames.flatten) s' ∧ s'.fd = s.fd
      ∧ (frames ≠ [] → s'.writable s'.fd = sendHandler s') := by
  refine (runOps_invariant_of_step (I := fun frames t => s.reconnects ≤ t.reconnects
    ∧ (t.reconnects = s.reconnects → Carries (sent ++ frames.flatten) t ∧ t.fd = s.fd
      ∧ (frames ≠ [] → t.writable t.fd = sendHandler t))) ?_ ?_ hrun).2 hno
  · rintro frames t o frame t' ⟨hle, hI⟩ hok
    have hle' := reconnects_sendStep hok
    refine ⟨le_trans hle hle', fun hno => ?_⟩
    -- a run that has not reconnected in the end never has
    obtain ⟨hcar, hfd, -⟩ := hI (by omega)
    obtain ⟨hcar', hfd', hreg⟩ := hcar.step hok (by omega)
    refine ⟨?_, hfd'.trans hfd, fun _ => hreg⟩
    rwa [List.flatten_append, List.flatten_singleton, ← List.append_assoc]
  · refine ⟨le_refl _, fun _ => ⟨?_, rfl, fun hne => absurd rfl hne⟩⟩
    rwa [List.flatten_nil, List.append_nil]

/-- One use of the send buffer on a connection that is up. -/
theorem Up.sendStep_spec (hargs : RequestEncodes args) (h : Up s) (o : SendOp)
    (hroom : s.sndBuf.sz + maxReqFrame < 2 ^ 64) :
    Settles (fun fuel => sendStep args fuel s o) fun r => Sent maxReqFrame s r.2 := by
  cases o with
  | sendReq =>
    obtain ⟨frame, hencode, -⟩ := cliEncodeReq_spec hargs s
    simp only [sendStep, hencode, exec_ok_bind]
    refine (cliSendReq_spec hargs h hroom).bind fun s' hs' => ?_
    exact ⟨0, (frame, s'), fun _ _ => rfl, hs'.1⟩
  | onWrite =>
    simp only [sendStep, cliOnWrite, cassert_bind_of h.connected, bind_assoc]
    refine (cliWrite_spec h).bind fun r hr => ?_
    obtain ⟨ok, s'⟩ := r
    obtain ⟨rfl, hsent, -⟩ := hr
    have hmore : Sent maxReqFrame s s' :=
      { hsent with sz_le := le_trans hsent.sz_le (Nat.add_le_add_left (Nat.zero_le _) _) }
    exact ⟨0, ([], s'), fun _ _ => rfl, hmore⟩

/-- **On a connection on which nothing fails** every run returns without a reconnect. -/
theorem Up.sendRun_spec (hargs : RequestEncodes args) (h : Up s) (ops : List SendOp)
    (hroom : s.sndBuf.sz + ops.length * maxReqFrame < 2 ^ 64) :
    Settles (fun fuel => runOps (sendStep args fuel) s ops) fun r =>
      r.2.reconnects = s.reconnects := by
  induction ops generalizing s with
  | nil => exact settles_ok_iff.mpr rfl
  | cons o ops ih =>
    -- each use makes the send buffer bigger by one request at most
    rw [List.length_cons, Nat.succ_mul] at hroom
    obtain ⟨N, ⟨frame, s₁⟩, hstep, hsent⟩ := h.sendStep_spec hargs o (by omega)
    dsimp only at hsent
    have hsz := hsent.sz_le
    have hrest := ih hsent.up (by omega)
    refine (settles_runOps_cons hstep (Q := fun t => t.reconnects = s.reconnects)).mpr ?_
    exact hrest.imp fun r hr => hr.trans hsent.reconnects

end Steps

/-- **The send path loses and repeats nothing.** As long as there is no reconnect, the bytes that
`write` has accepted and the bytes in the send buffer together are the requests in order, behind
what was sent and queued before; and `cli_on_write` is registered exactly while the buffer is not
empty. When the system does not fail a call, `write` accepting as much as it likes, being
interrupted and blocking as it likes, there is no reconnect. -/
theorem cli_send_path_keeps (args : CliArgs) (s : CliState) (ops : List SendOp)
    (h : BufInv s.sndBuf) :
    (∀ fuel frames s', runOps (sendStep args fuel) s ops = .ok (frames, s') →
      s'.reconnects = s.reconnects →
        s'.written ++ bufBytes s'.sndBuf = s.written ++ bufBytes s.sndBuf ++ frames.flatten
          ∧ s'.fd = s.fd
          ∧ (ops ≠ [] → s'.writable s'.fd
              = if bufBytes s'.sndBuf = [] then none else some .onWrite)) ∧
      (RequestEncodes args → Up s → s.sndBuf.sz + ops.length * maxReqFrame < 2 ^ 64 →
        Settles (fun fuel => runOps (sendStep args fuel) s ops) fun r =>
          r.2.reconnects = s.reconnects) := by
  refine ⟨fun fuel frames s' hrun hno => ?_, fun hargs hup hroom => hup.sendRun_spec hargs ops hroom⟩
  have hcar : Carries (s.written ++ bufBytes s.sndBuf) s := ⟨h, rfl⟩
  obtain ⟨hcar', hfd, hreg⟩ := hcar.run hrun hno
  refine ⟨hcar'.bytes, hfd, fun hne => hreg ?_⟩
  -- each use returns a frame
  rintro rfl
  obtain ⟨o, ops, rfl⟩ := List.exists_cons_of_ne_nil hne
  obtain ⟨⟨frame, s₁⟩, -, hrest⟩ := exec_bind_eq_ok.mp hrun
  obtain ⟨⟨frames, s₂⟩, -, hret⟩ := exec_bind_eq_ok.mp hrest
  cases hret

/-- A client that has been started sends another request, and is told that the connection is
writable. -/
theorem cli_send_path_keeps_two :
    ∃ s fuel frames s', Up s
      ∧ runOps (sendStep shortArgs fuel) s [.sendReq, .onWrite] = .ok (frames, s')
      ∧ s'.written ++ bufBytes s'.sndBuf = s.written ++ bufBytes s.sndBuf ++ frames.flatten := by
  obtain ⟨N, ⟨ok, s⟩, -, -, hs⟩ := slowNet_bench
  obtain ⟨hkeeps, hends⟩ := cli_send_path_keeps shortArgs s [.sendReq, .onWrite] hs.inv
  have hmax : maxReqFrame = 8208 := rfl
  have hroom : s.sndBuf.sz + 2 * maxReqFrame < 2 ^ 64 := by
    have hsnd := hs.snd_sz
    dsimp only at hsnd
    omega
  obtain ⟨fuel, ⟨frames, s'⟩, hrun, hno⟩ := hends shortArgs_encodes hs.toUp hroom
  have hone := hrun fuel (le_refl fuel)
  exact ⟨s, fuel, frames, s', hs.toUp, hone, (hkeeps fuel frames s' hone hno).1⟩

end Wee
