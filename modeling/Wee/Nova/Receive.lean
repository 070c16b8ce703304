import Wee.Dubbo.Client
import Wee.Base.BufferFields

/-! # Receiving a Nova reply

`nova_invoke` reads once, takes the size of the message from the first four bytes, and reads on
while fewer bytes are there. A failed `readv` ends the loop; the end of the stream, a `readv` that
returns `0`, does not: when the peer closes before the size is reached, the loop never ends. -/

namespace Wee

/-! ### The code -/

/-- The outcomes of the calls of `readv` behind the first one. -/
def laterReads (reads : Nat → ReadvRes) (k : Nat) : ReadvRes := reads (k + 1)

/-- The first loop of the receive phase: the buffer, `errno_` and the outcomes to come, or `none`
for the `goto fail`. -/
def novaReadFirst : Nat → (Nat → ReadvRes) → Buffer → Int →
    Exec (Option (Buffer × Int × (Nat → ReadvRes)))
  | 0, _, _, _ => .error .outOfFuel
  | fuel + 1, reads, buf, errno => do
    let (recvN, errno, buf) ← bufReadFd buf errno (reads 0)
    if recvN < 0 then
      if errno = eintr then novaReadFirst fuel (laterReads reads) buf errno else return none
    else if recvN < 4 then return none
    else return some (buf, errno, laterReads reads)

/-- The second loop, while fewer than `msg_size` bytes are there; the comparison is one of
`size_t`. -/
def novaReadRest (msgSize : Int) : Nat → (Nat → ReadvRes) → Buffer → Int → Exec (Option Buffer)
  | 0, _, buf, _ =>
    if bufReadable buf < toUnsigned 64 msgSize then .error .outOfFuel else .ok (some buf)
  | fuel + 1, reads, buf, errno =>
    if bufReadable buf < toUnsigned 64 msgSize then do
      let (recvN, errno, buf) ← bufReadFd buf errno (reads 0)
      if recvN < 0 then
        if errno = eintr then novaReadRest msgSize fuel (laterReads reads) buf errno
        else return none
      -- nothing asks whether `recvN` is `0`
      else novaReadRest msgSize fuel (laterReads reads) buf errno
    else .ok (some buf)

/-- The receive phase of `nova_invoke`, on the emptied buffer: the buffer that is given to
`nova_detect`, or `none` for the `goto fail`. -/
def novaReceive (fuel : Nat) (reads : Nat → ReadvRes) (buf : Buffer) : Exec (Option Buffer) := do
  match ← novaReadFirst fuel reads buf 0 with
  | none => return none
  | some (buf, errno, reads) =>
    let msgSize ← bufPeekInt32 buf
    if msgSize ≤ 0 then return none
    else if msgSize > 1024 * 1024 * 2 then return none
    else novaReadRest msgSize fuel reads buf errno

/-! ### A stream that ends -/

/-- The outcomes of `readv` on chunks and then the end of the stream. -/
def untilClosed (chunks : List (List UInt8)) (k : Nat) : ReadvRes := .got (chunks[k]?.getD [])

/-- Each chunk is one that `readv` can return: not empty, and no larger than the room in the buffer
at that time. -/
def ReadvFits : Buffer → List (List UInt8) → Prop
  | _, [] => True
  | buf, c :: cs =>
    c ≠ [] ∧ c.length ≤ bufReadvRoom buf ∧
      ∀ r, bufReadFd buf 0 (.got c) = .ok r → ReadvFits r.2.2 cs

/-- The size a message announces in its first four bytes. -/
def announcedSize (bytes : List UInt8) : Int := intOf (bytes.take 4)

/-- The receive phase ends: with a failure, or with at least as many bytes in the buffer as the
message announces. -/
def ReceiveEnds (reads : Nat → ReadvRes) (buf : Buffer) : Prop :=
  Settles (fun fuel => novaReceive fuel reads buf) fun r =>
    ∀ b, r = some b → announcedSize (bufBytes b) ≤ bufReadable b

/-- The stream brings what the message announces, or a size that is refused, or fewer than four
bytes at first. -/
def Announced (chunks : List (List UInt8)) : Prop :=
  (chunks.headD []).length < 4 ∨ announcedSize chunks.flatten ≤ 0 ∨
    1024 * 1024 * 2 < announcedSize chunks.flatten ∨
    announcedSize chunks.flatten ≤ chunks.flatten.length

section

variable {buf b : Buffer} {c : List UInt8} {cs chunks : List (List UInt8)} {msgSize : Int}
  {room fuel : Nat}

/-- The first outcome. -/
theorem untilClosed_cons_zero (c : List UInt8) (cs : List (List UInt8)) :
    untilClosed (c :: cs) 0 = .got c := rfl

/-- The outcomes behind it. -/
theorem laterReads_untilClosed (c : List UInt8) (cs : List (List UInt8)) :
    laterReads (untilClosed (c :: cs)) = untilClosed cs := by
  funext k
  rfl

/-- The end of the stream stays the end. -/
theorem laterReads_untilClosed_nil : laterReads (untilClosed []) = untilClosed [] := by
  funext k
  rfl

/-- What the receive loops know of the buffer: it has grown by no more than it has received. -/
structure NovaReceiving (size : Nat) (b : Buffer) : Prop where
  /-- The buffer. -/
  inv : BufInv b
  /-- Its growth. -/
  sz_le : b.sz ≤ size + bufReadable b
  /-- A buffer that `malloc` can have returned. -/
  size_lt : size < 2 ^ 63

/-- **One read** appends what `readv` returned. -/
theorem NovaReceiving.read {size : Nat} (h : NovaReceiving size b) (hless : bufReadable b < 2 ^ 62)
    (hroom : c.length ≤ bufReadvRoom b) :
    ∃ b', bufReadFd b 0 (.got c) = .ok ((c.length : Int), 0, b') ∧ NovaReceiving size b' ∧
      bufBytes b' = bufBytes b ++ c ∧ bufReadable b' = bufReadable b + c.length := by
  have hw := h.inv.write_le_sz
  have hr := h.inv.read_le_write
  have hread := h.inv.shape.readable_eq
  have hwr := h.inv.toBufWf.writable_eq
  have hle := h.sz_le
  have hlt := h.size_lt
  have hfits : b.writeIdx + c.length < 2 ^ 64 := by
    rw [bufReadvRoom, extrabufSize] at hroom
    split_ifs at hroom
    · omega
    · omega
  obtain ⟨⟨n, errno, b'⟩, hok, hn, herrno, hinv, hbytes, hsz⟩ := h.inv.readFd_spec 0 hroom hfits
  obtain rfl : n = c.length := hn
  obtain rfl : errno = 0 := herrno
  have hlen := congrArg List.length hbytes
  rw [List.length_append, h.inv.shape.length_bufBytes, hinv.shape.length_bufBytes] at hlen
  dsimp only at hlen hsz
  exact ⟨b', hok, ⟨hinv, by omega, h.size_lt⟩, hbytes, hlen⟩

/-- The bytes a message announces are a `size_t`. -/
theorem toUnsigned_natCast_small {m : Nat} (hm : m ≤ 1024 * 1024 * 2) : toUnsigned 64 m = m :=
  toUnsigned_natCast (by omega)

/-- **One round of the second loop**: it reads what `readv` returns, also the end of the stream. -/
theorem novaReadRest_round {size m : Nat} {reads : Nat → ReadvRes} (h : NovaReceiving size b)
    (hm : m ≤ 1024 * 1024 * 2) (hless : bufReadable b < m) (hreads : reads 0 = .got c)
    (hroom : c.length ≤ bufReadvRoom b) :
    ∃ b', bufReadFd b 0 (.got c) = .ok ((c.length : Int), 0, b') ∧ NovaReceiving size b' ∧
      bufBytes b' = bufBytes b ++ c ∧ bufReadable b' = bufReadable b + c.length ∧
      ∀ fuel, novaReadRest m (fuel + 1) reads b 0
        = novaReadRest m fuel (laterReads reads) b' 0 := by
  obtain ⟨b', hread, hrec, hbytes, hlen⟩ := h.read (by omega) hroom
  refine ⟨b', hread, hrec, hbytes, hlen, fun fuel => ?_⟩
  have hnonneg : ¬ ((c.length : Nat) : Int) < 0 := by omega
  rw [novaReadRest, toUnsigned_natCast_small hm, if_pos hless, hreads, hread, exec_ok_bind]
  exact if_neg hnonneg

/-- The second loop ends when enough bytes are there. -/
theorem novaReadRest_done {m : Nat} (hm : m ≤ 1024 * 1024 * 2) (hle : m ≤ bufReadable b)
    (fuel : Nat) (reads : Nat → ReadvRes) (errno : Int) :
    novaReadRest m fuel reads b errno = .ok (some b) := by
  cases fuel with
  | zero => rw [novaReadRest, toUnsigned_natCast_small hm, if_neg (not_lt.mpr hle)]
  | succ fuel => rw [novaReadRest, toUnsigned_natCast_small hm, if_neg (not_lt.mpr hle)]

/-- **The second loop on enough chunks** ends with the bytes. -/
theorem novaReadRest_enough {size m : Nat} (h : NovaReceiving size b) (hm : m ≤ 1024 * 1024 * 2)
    (hfits : ReadvFits b cs) (henough : m ≤ bufReadable b + cs.flatten.length) :
    Settles (fun fuel => novaReadRest m fuel (untilClosed cs) b 0) fun r =>
      ∃ b', r = some b' ∧ m ≤ bufReadable b' ∧ bufBytes b <+: bufBytes b' := by
  induction cs generalizing b with
  | nil =>
    rw [List.flatten_nil, List.length_nil, Nat.add_zero] at henough
    exact ⟨0, some b, fun fuel _ => novaReadRest_done hm henough fuel _ 0, b, rfl, henough,
      List.prefix_rfl⟩
  | cons c cs ih =>
    rcases le_or_gt m (bufReadable b) with hle | hless
    · exact ⟨0, some b, fun fuel _ => novaReadRest_done hm hle fuel _ 0, b, rfl, hle,
        List.prefix_rfl⟩
    · obtain ⟨-, hroom, hrest⟩ := hfits
      obtain ⟨b', hread, hrec, hbytes, hlen, hround⟩ :=
        novaReadRest_round h hm hless (untilClosed_cons_zero c cs) hroom
      rw [List.flatten_cons, List.length_append] at henough
      refine Settles.of_succ ((ih hrec (hrest _ hread) (by omega)).imp ?_) fun fuel => ?_
      · rintro r ⟨b'', rfl, hm'', hpre⟩
        exact ⟨b'', rfl, hm'', (hbytes ▸ List.prefix_append _ _ : bufBytes b <+: _).trans hpre⟩
      · rw [hround, laterReads_untilClosed]

/-- **The second loop on too few chunks** never ends: the end of the stream is read over and
over. -/
theorem novaReadRest_short {size m : Nat} (h : NovaReceiving size b) (hm : m ≤ 1024 * 1024 * 2)
    (hfits : ReadvFits b cs) (hshort : bufReadable b + cs.flatten.length < m) (fuel : Nat) :
    novaReadRest m fuel (untilClosed cs) b 0 = .error .outOfFuel := by
  induction fuel generalizing cs b with
  | zero => rw [novaReadRest, toUnsigned_natCast_small hm, if_pos (by omega)]
  | succ fuel ih =>
    cases cs with
    | nil =>
      -- the end of the stream: nothing changes, and the loop reads again
      obtain ⟨b', -, hrec, -, hlen, hround⟩ := novaReadRest_round h hm (by omega)
        (show untilClosed [] 0 = .got [] from rfl) (Nat.zero_le _)
      rw [List.length_nil, Nat.add_zero] at hlen
      rw [hround, laterReads_untilClosed_nil]
      exact ih hrec trivial (hlen ▸ hshort)
    | cons c cs =>
      obtain ⟨-, hroom, hrest⟩ := hfits
      obtain ⟨b', hread, hrec, -, hlen, hround⟩ := novaReadRest_round h hm
        (by omega) (untilClosed_cons_zero c cs) hroom
      rw [List.flatten_cons, List.length_append] at hshort
      rw [hround, laterReads_untilClosed]
      exact ih hrec (hrest _ hread) (by omega)

/-- The first read gets fewer than four bytes. -/
theorem novaReceive_few {size : Nat} {reads : Nat → ReadvRes} (h : NovaReceiving size buf)
    (hempty : bufBytes buf = []) (hreads : reads 0 = .got c) (hroom : c.length ≤ bufReadvRoom buf)
    (hfew : c.length < 4) (fuel : Nat) : novaReceive (fuel + 1) reads buf = .ok none := by
  have hread0 : bufReadable buf = 0 := by rw [← h.inv.shape.length_bufBytes, hempty]; rfl
  obtain ⟨b, hread, -⟩ := h.read (by omega) hroom
  have hnonneg : ¬ ((c.length : Nat) : Int) < 0 := by omega
  have hfirst : novaReadFirst (fuel + 1) reads buf 0 = .ok none := by
    rw [novaReadFirst, hreads, hread, exec_ok_bind]
    exact (if_neg hnonneg).trans (if_pos (by omega))
  rw [novaReceive, hfirst]
  rfl

/-- **The first read gets four bytes**: the size decides what comes next. -/
theorem novaReceive_size {size : Nat} {reads : Nat → ReadvRes} (h : NovaReceiving size buf)
    (hempty : bufBytes buf = []) (hreads : reads 0 = .got c) (hroom : c.length ≤ bufReadvRoom buf)
    (hfour : 4 ≤ c.length) :
    ∃ b, bufReadFd buf 0 (.got c) = .ok ((c.length : Int), 0, b) ∧ NovaReceiving size b ∧
      bufBytes b = c ∧ ∀ fuel, novaReceive (fuel + 1) reads buf =
        if announcedSize c ≤ 0 then .ok none
        else if announcedSize c > 1024 * 1024 * 2 then .ok none
        else novaReadRest (announcedSize c) (fuel + 1) (laterReads reads) b 0 := by
  have hread0 : bufReadable buf = 0 := by rw [← h.inv.shape.length_bufBytes, hempty]; rfl
  obtain ⟨b, hread, hrec, hbytes, -⟩ := h.read (by omega) hroom
  rw [hempty, List.nil_append] at hbytes
  have hlen := hrec.inv.shape.length_bufBytes
  have hnonneg : ¬ ((c.length : Nat) : Int) < 0 := by omega
  have hsize : bufPeekInt32 b = .ok (announcedSize c) := by
    rw [bufPeekInt32, hrec.inv.shape.peekInt_spec (by rw [← hlen, hbytes]; exact hfour), hbytes,
      announcedSize, intOf, List.length_take, Nat.min_eq_left hfour]
  refine ⟨b, hread, hrec, hbytes, fun fuel => ?_⟩
  have hfirst : novaReadFirst (fuel + 1) reads buf 0 = .ok (some (b, 0, laterReads reads)) := by
    rw [novaReadFirst, hreads, hread, exec_ok_bind]
    exact (if_neg hnonneg).trans (if_neg (by omega))
  rw [novaReceive, hfirst, exec_ok_bind]
  dsimp only
  rw [hsize, exec_ok_bind]
  rfl

/-- The size announced is in the first chunk when that has four bytes. -/
theorem announcedSize_append (hfour : 4 ≤ c.length) (rest : List UInt8) :
    announcedSize (c ++ rest) = announcedSize c := by
  rw [announcedSize, announcedSize, List.take_append_of_le_length hfour]

/-- **A size that is accepted**: the second loop decides. -/
theorem novaReceive_rest {size : Nat} (h : NovaReceiving size buf) (hempty : bufBytes buf = [])
    (hfits : ReadvFits buf (c :: cs)) (hfour : 4 ≤ c.length) (hpos : 0 < announcedSize c)
    (hle : announcedSize c ≤ 1024 * 1024 * 2) :
    ∃ (b : Buffer) (m : Nat), NovaReceiving size b ∧ bufBytes b = c ∧ bufReadable b = c.length ∧
      ReadvFits b cs ∧ announcedSize c = m ∧ ∀ fuel,
        novaReceive (fuel + 1) (untilClosed (c :: cs)) buf
          = novaReadRest m (fuel + 1) (untilClosed cs) b 0 := by
  obtain ⟨-, hroom, hrest⟩ := hfits
  obtain ⟨b, hread, hrec, hbytes, hrun⟩ :=
    novaReceive_size h hempty (untilClosed_cons_zero c cs) hroom hfour
  obtain ⟨m, hm⟩ := Int.eq_ofNat_of_zero_le (le_of_lt hpos)
  refine ⟨b, m, hrec, hbytes, ?_, hrest _ hread, hm, fun fuel => ?_⟩
  · rw [← hbytes, hrec.inv.shape.length_bufBytes]
  · rw [hrun, if_neg (by omega), if_neg (by omega), laterReads_untilClosed, hm]

/-- **A message that is cut short** keeps the receive phase going for ever. -/
theorem novaReceive_cut {size : Nat} (h : NovaReceiving size buf) (hempty : bufBytes buf = [])
    (hfits : ReadvFits buf (c :: cs)) (hfour : 4 ≤ c.length) (hpos : 0 < announcedSize c)
    (hle : announcedSize c ≤ 1024 * 1024 * 2)
    (hcut : c.length + cs.flatten.length < announcedSize c) :
    ¬ ReceiveEnds (untilClosed (c :: cs)) buf := by
  obtain ⟨b, m, hrec, -, hlen, hrest, hm, hrun⟩ :=
    novaReceive_rest h hempty hfits hfour hpos hle
  refine not_settles_of_error fun fuel => ⟨.outOfFuel, ?_⟩
  cases fuel with
  | zero => rfl
  | succ fuel =>
    rw [hrun]
    exact novaReadRest_short hrec (by omega) hrest (by omega) (fuel + 1)

/-- **A message that is there** ends the receive phase. -/
theorem novaReceive_whole {size : Nat} (h : NovaReceiving size buf) (hempty : bufBytes buf = [])
    (hfits : ReadvFits buf (c :: cs)) (hfour : 4 ≤ c.length) (hpos : 0 < announcedSize c)
    (hle : announcedSize c ≤ 1024 * 1024 * 2)
    (hwhole : announcedSize c ≤ c.length + cs.flatten.length) :
    ReceiveEnds (untilClosed (c :: cs)) buf := by
  obtain ⟨b, m, hrec, hbytes, hlen, hrest, hm, hrun⟩ :=
    novaReceive_rest h hempty hfits hfour hpos hle
  have henough := novaReadRest_enough hrec (m := m) (by omega) hrest (by omega)
  refine Settles.of_succ (henough.succ.imp ?_) hrun
  rintro r ⟨b', rfl, hmb, rest, hb'⟩ b'' hb
  cases hb
  rw [← hb', hbytes, announcedSize_append hfour, hm]
  exact_mod_cast hmb

/-- The failure exit is an end. -/
theorem receiveEnds_of_fail {reads : Nat → ReadvRes}
    (h : ∀ fuel, novaReceive (fuel + 1) reads buf = .ok none) : ReceiveEnds reads buf :=
  Settles.of_succ (settles_ok_iff.mpr fun b hb => by cases hb) h

end

/-- **The receive phase ends** exactly when the stream brings what the message announces, or what is
refused. -/
theorem nova_receive_ends_iff (buf : Buffer) (chunks : List (List UInt8)) (hinv : BufInv buf)
    (hempty : bufBytes buf = []) (hsz : buf.sz < 2 ^ 63) (hfits : ReadvFits buf chunks) :
    ReceiveEnds (untilClosed chunks) buf ↔ Announced chunks := by
  have hrec : NovaReceiving buf.sz buf := ⟨hinv, Nat.le_add_right _ _, hsz⟩
  cases chunks with
  | nil =>
    exact iff_of_true (receiveEnds_of_fail
      (novaReceive_few hrec hempty rfl (Nat.zero_le _) (by decide))) (.inl (by decide))
  | cons c cs =>
    have hroom := hfits.2.1
    rw [Announced, List.headD_cons, List.flatten_cons]
    rcases lt_or_ge c.length 4 with hfew | hfour
    · exact iff_of_true (receiveEnds_of_fail
        (novaReceive_few hrec hempty (untilClosed_cons_zero c cs) hroom hfew)) (.inl hfew)
    obtain ⟨b, -, -, -, hrun⟩ :=
      novaReceive_size hrec hempty (untilClosed_cons_zero c cs) hroom hfour
    rw [announcedSize_append hfour, List.length_append]
    by_cases hneg : announcedSize c ≤ 0
    · refine iff_of_true (receiveEnds_of_fail fun fuel => ?_) (.inr (.inl hneg))
      rw [hrun, if_pos hneg]
    by_cases hlarge : announcedSize c > 1024 * 1024 * 2
    · refine iff_of_true (receiveEnds_of_fail fun fuel => ?_) (.inr (.inr (.inl hlarge)))
      rw [hrun, if_neg hneg, if_pos hlarge]
    by_cases hwhole : announcedSize c ≤ c.length + cs.flatten.length
    · exact iff_of_true (novaReceive_whole hrec hempty hfits hfour (by omega) (by omega) hwhole)
        (.inr (.inr (.inr (by omega))))
    · exact iff_of_false (novaReceive_cut hrec hempty hfits hfour (by omega) (by omega) (by omega))
        (by omega)

/-- A first chunk is one that `readv` can return to a buffer, when it fits `extrabuf`. -/
theorem readvFits_single {buf : Buffer} {c : List UInt8} (hne : c ≠ [])
    (hle : c.length ≤ extrabufSize) : ReadvFits buf [c] := by
  refine ⟨hne, ?_, fun _ _ => trivial⟩
  rw [bufReadvRoom]
  split_ifs
  · omega
  · omega

/-- A message of four bytes is received. -/
theorem nova_receive_ends_iff_four :
    ∃ buf, bufCreate 1024 = .ok buf ∧ ReceiveEnds (untilClosed [[0, 0, 0, 4]]) buf := by
  obtain ⟨buf, hok, hinv, hempty, -, hsz, -⟩ :=
    bufCreate_spec (n := 1024) (by decide) (by decide)
  refine ⟨buf, hok, (nova_receive_ends_iff buf [[0, 0, 0, 4]] hinv hempty ?_ ?_).mpr ?_⟩
  · rw [hsz]
    decide
  · exact readvFits_single (List.cons_ne_nil _ _) (by decide)
  · exact .inr (.inr (.inr (by decide)))

/-- A message of eight bytes of which four come keeps the client reading. -/
theorem nova_receive_runs_on :
    ¬ ∀ (buf : Buffer) (chunks : List (List UInt8)), BufInv buf → bufBytes buf = [] →
      buf.sz < 2 ^ 63 → ReadvFits buf chunks → ReceiveEnds (untilClosed chunks) buf := by
  intro hall
  obtain ⟨buf, -, hinv, hempty, -, hsz, -⟩ :=
    bufCreate_spec (n := 1024) (by decide) (by decide)
  have hfits : ReadvFits buf [[0, 0, 0, 8]] :=
    readvFits_single (List.cons_ne_nil _ _) (by decide)
  have hlt : buf.sz < 2 ^ 63 := by
    rw [hsz]
    decide
  exact novaReceive_cut ⟨hinv, Nat.le_add_right _ _, hlt⟩ hempty hfits (by decide) (by decide)
    (by decide) (by decide) (hall buf [[0, 0, 0, 8]] hinv hempty hlt hfits)

end Wee
