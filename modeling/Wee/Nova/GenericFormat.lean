import Wee.Lib.Thrift
import Wee.Nova.CodecRoundTrip
import Wee.Nova.Generic

/-! # The generic call and the Thrift protocol

What `thrift_generic_pack` lays out by hand is the encoding of a message of the strict binary
protocol, in a buffer of exactly the right size, as long as that size is an `int`. What
`thrift_generic_unpack` does on the messages of the protocol depends on the first field of the
result alone: the type of the message is lost in the mask of the version. -/

namespace Wee

/-! ### The call -/

/-- The call of the generic method: one struct with the three strings. -/
def genericCall (seq : Int32) (serv method args : List UInt8) : ThriftMessage where
  type := .call
  name := genericMethod
  seq := seq
  fields := [(1, .struct [(1, .string serv), (2, .string method), (3, .string args)])]

/-- The size `thrift_generic_pack` creates its buffer with. -/
def genericSize (servLen methodLen argsLen : Int) : Nat :=
  toUnsigned 64 (toSigned 32 (toUnsigned 32 (genericCommonLen + servLen + methodLen + argsLen)))

/-- `thrift_generic_pack` produces a buffer of exactly the size it was created with, whose bytes are
read as the call. -/
def PacksCall (seq : Int32) (serv method args : List UInt8) : Prop :=
  Returns (thriftGenericPack seq.toInt serv serv.length method method.length args args.length)
    fun b => bufReadable b = genericCommonLen + serv.length + method.length + args.length
      ∧ b.sz = szAdd (genericSize serv.length method.length args.length) bufCheapPrepend
      ∧ readMessage (bufBytes b) = some (genericCall seq serv method args, [])

/-- The pieces of a string field. -/
def stringFieldPieces (fieldId : Int) (str : List UInt8) : List (List UInt8) :=
  [beInt 1 typeString, beInt 2 fieldId, beInt 4 str.length, str]

/-- The pieces `thrift_generic_pack` writes. -/
def genericPieces (seq : Int) (serv method args : List UInt8) : List (List UInt8) :=
  [beInt 4 (ver1 ||| tCall).toNat, beInt 4 genericMethodLen, genericMethod, beInt 4 seq,
      beInt 1 typeStruct, beInt 2 1]
    ++ stringFieldPieces 1 serv ++ stringFieldPieces 2 method ++ stringFieldPieces 3 args
    ++ [beInt 1 fieldStop, beInt 1 fieldStop]

/-- A string field is four pieces. -/
theorem packStringField_eq (b : Buffer) (fieldId : Int) {str : List UInt8}
    (h : str.length < 2 ^ 31) :
    packStringField b fieldId str str.length = bufAppends b (stringFieldPieces fieldId str) := by
  have hstr (b : Buffer) : bufAppendStr b str str.length = bufAppends b [str] := by
    rw [bufAppendStr_eq b (Int.natCast_nonneg _) (le_refl _) (by omega), Int.toNat_natCast,
      List.take_length, bufAppends_cons]
    exact (bind_pure _).symm
  simp only [packStringField, hstr]
  rfl

/-- `thrift_generic_pack` is one `buf_append` for each piece, into a new buffer. -/
theorem thriftGenericPack_eq (seq : Int) {serv method args : List UInt8}
    (hs : serv.length < 2 ^ 31) (hm : method.length < 2 ^ 31) (ha : args.length < 2 ^ 31) :
    thriftGenericPack seq serv serv.length method method.length args args.length
      = bufCreate (genericSize serv.length method.length args.length) >>= fun b =>
        bufAppends b (genericPieces seq serv method args) := by
  have hname (b : Buffer) :
      bufAppendStr b genericMethod genericMethodLen = bufAppend b genericMethod := rfl
  have hlast (b : Buffer) : bufAppendInt8 b fieldStop = bufAppends b [beInt 1 fieldStop] := by
    rw [bufAppends_cons]
    exact (bind_pure _).symm
  simp only [thriftGenericPack, packStringField_eq _ _ hs, packStringField_eq _ _ hm,
    packStringField_eq _ _ ha, hname, hlast, genericPieces, bufAppends_append, bind_assoc,
    bufAppends_cons, bufAppends_nil]
  rfl

/-- **The hand-made layout is the encoding of the call.** -/
theorem genericPieces_flatten (seq : Int32) (serv method args : List UInt8) :
    (genericPieces seq.toInt serv method args).flatten
      = (genericCall seq serv method args).bytes := by
  have hversion : beInt 4 (ver1 ||| tCall).toNat = [0x80, 0x01, 0x00, 1] := by decide
  have hstop : beInt 1 fieldStop = [0] := by decide
  have hstring : beInt 1 typeString = [ThriftType.string.code] := by decide
  have hstruct : beInt 1 typeStruct = [ThriftType.struct.code] := by decide
  have hlen : genericMethodLen = genericMethod.length := by decide
  simp only [genericPieces, stringFieldPieces, genericCall, ThriftMessage.bytes, thriftFields,
    ThriftValue.bytes, ThriftValue.type, ThriftMessageType.code, lenStr, hversion, hstop, hstring,
    hstruct, hlen, List.flatten_cons, List.flatten_nil, List.append_assoc,
    List.append_nil, List.cons_append, List.nil_append]
  rfl

/-- **The hand-counted constant** is the size of everything but the strings. -/
theorem length_genericCall (seq : Int32) (serv method args : List UInt8) :
    (genericCall seq serv method args).bytes.length
      = genericCommonLen + serv.length + method.length + args.length := by
  rw [← genericPieces_flatten]
  simp only [genericPieces, stringFieldPieces, List.flatten_append, List.flatten_cons,
    List.flatten_nil, List.length_append, length_beInt, List.length_nil, genericCommonLen]
  have hlen : genericMethod.length = 6 := rfl
  omega

/-- The size is the sum when that is an `int`. -/
theorem genericSize_eq {s m a : Nat} (h : genericCommonLen + s + m + a < 2 ^ 31) :
    genericSize s m a = genericCommonLen + s + m + a := by
  rw [genericSize, ← Nat.cast_add, ← Nat.cast_add, ← Nat.cast_add, toUnsigned_natCast (by omega),
    toSigned_of_lt (by omega), toUnsigned_natCast (by omega)]

/-- **The call is packed** as long as its size is an `int`. -/
theorem packsCall_of_lt {seq : Int32} {serv method args : List UInt8}
    (h : genericCommonLen + serv.length + method.length + args.length < 2 ^ 31) :
    PacksCall seq serv method args := by
  have hsize := genericSize_eq h
  obtain ⟨b, hcreate, hinv, hempty, -, hsz, hwrite⟩ :=
    bufCreate_spec (n := genericSize serv.length method.length args.length)
      (by rw [hsize, genericCommonLen]; omega) (by rw [hsize, bufCheapPrepend]; omega)
  have hroom : (genericPieces seq.toInt serv method args).flatten.length ≤ bufWritable b := by
    rw [genericPieces_flatten, length_genericCall, hinv.writable_eq]
    omega
  obtain ⟨b', happend, hinv', hbytes, hsz', -⟩ := hinv.appends_fits _ hroom
  rw [hempty, List.nil_append, genericPieces_flatten] at hbytes
  have hwf : (genericCall seq serv method args).Wf := by
    refine ⟨?_, ⟨?_, ?_, ?_, trivial⟩, trivial⟩
    · show genericMethod.length < 2 ^ 31
      decide
    · show serv.length < 2 ^ 31
      omega
    · show method.length < 2 ^ 31
      omega
    · show args.length < 2 ^ 31
      omega
  refine ⟨b', ?_, ?_, ?_, ?_⟩
  · rw [thriftGenericPack_eq _ (by omega) (by omega) (by omega), hcreate, exec_ok_bind,
      happend]
  · rw [← hinv'.length_bufBytes, hbytes, length_genericCall]
  · rw [hsz', hsz, szAdd_eq (by rw [hsize, bufCheapPrepend]; omega)]
  · have hread := readMessage_bytes hwf []
    rwa [List.append_nil, ← hbytes] at hread

/-- A size that wraps around to one byte: the buffer grows. -/
theorem not_packsCall {seq : Int32} {serv method args : List UInt8} (hs : serv.length < 2 ^ 31)
    (hm : method.length < 2 ^ 31) (ha : args.length < 2 ^ 31)
    (hsum : genericCommonLen + serv.length + method.length + args.length = 2 ^ 32 + 1) :
    ¬ PacksCall seq serv method args := by
  have hsize : genericSize serv.length method.length args.length = 1 := by
    rw [genericSize, ← Nat.cast_add, ← Nat.cast_add, ← Nat.cast_add, hsum]
    rfl
  obtain ⟨b, hcreate, hinv, hempty, -, hsz, -⟩ :=
    bufCreate_spec (n := 1) (by decide) (by decide)
  have hlen := length_genericCall seq serv method args
  obtain ⟨b', happend, hinv', hbytes, -⟩ :=
    hinv.appends_spec (genericPieces seq.toInt serv method args)
      (by rw [genericPieces_flatten, hsz, bufCheapPrepend]; omega)
  rintro ⟨b'', hpack, hread, hcap, -⟩
  rw [thriftGenericPack_eq _ hs hm ha, hsize, hcreate, exec_ok_bind, happend] at hpack
  obtain rfl := Except.ok.inj hpack
  -- more bytes are readable than the block would have
  have hle : bufReadable b' ≤ b'.sz := by
    have hw := hinv'.write_le_sz
    rw [hinv'.readable_eq]
    omega
  rw [hcap, hsize, hread, hsum] at hle
  exact absurd hle (by decide)

/-! ### The reply -/

variable {b : Buffer} {rest : List UInt8}

/-- Reading a string whose length is a `uint32_t`. -/
theorem bufReadStrU32_field {s : List UInt8} (h : BufInv b) (hs : s.length < 2 ^ 31)
    (hbytes : bufBytes b = lenStr s ++ rest) :
    ∃ b', bufReadStrU32 b = .ok (s ++ [0], b') ∧ BufRepr b' rest := by
  rw [lenStr, List.append_assoc] at hbytes
  obtain ⟨b₁, hlen, hinv₁, hbytes₁⟩ := h.readInt_field (by decide) ⟨by omega, by omega⟩ hbytes
  obtain ⟨b₂, hstr, hrepr⟩ := hinv₁.retrieveInto_field hbytes₁
  refine ⟨b₂, ?_, hrepr⟩
  have hsize : toUnsigned 32 (s.length : Int) = s.length := toUnsigned_natCast (by omega)
  have hmalloc : cMalloc ((s.length + 1) % 2 ^ 32) = some (s.length + 1) := by
    rw [Nat.mod_eq_of_lt (by omega), cMalloc, if_pos (by omega)]
  simp only [bufReadStrU32, bufReadInt32, hlen, exec_ok_bind, hsize, hmalloc, hstr]

/-- The version of a message passes the check, and its type does not get behind the mask. -/
theorem masked_version (t : ThriftMessageType) :
    versionWord (UInt32.ofNat (toUnsigned 32 (intOf [0x80, 0x01, 0x00, t.code]))) &&& verMask
      = ver1 := by
  rw [versionWord_eq]
  cases t <;> decide

/-- **The header of a message** of the generic method: `thrift_generic_unpack` goes on to the first
field of the result, whatever the type of the message is. -/
theorem thriftGenericUnpack_hdr {m : ThriftMessage} (hname : m.name = genericMethod)
    (h : BufRepr b (m.bytes ++ rest)) :
    ∃ b', thriftGenericUnpack b = unpackResult b' ∧ BufRepr b' (thriftFields m.fields ++ rest) := by
  obtain ⟨hinv, hbytes⟩ := h
  simp only [ThriftMessage.bytes, List.append_assoc] at hbytes
  obtain ⟨b₁, h₁, hinv₁, hbytes₁⟩ := hinv.readInt_front hbytes
  have hlen : m.name.length < 2 ^ 31 := by
    rw [hname]
    decide
  obtain ⟨b₂, h₂, hinv₂, hbytes₂⟩ := bufReadStrU32_field hinv₁ hlen hbytes₁
  obtain ⟨b₃, h₃, hrepr⟩ :=
    hinv₂.readInt_field (by decide) ⟨m.seq.le_toInt, m.seq.toInt_lt⟩ hbytes₂
  refine ⟨b₃, ?_, hrepr⟩
  have hword : bufReadInt 4 b = .ok (intOf [0x80, 0x01, 0x00, m.type.code], b₁) := h₁
  have hcmp : ¬ strncmpEq (genericMethod ++ [0]) genericMethod genericCommonLen = false := by decide
  have htype : ¬ ver1 &&& 0x000000ff = tEx := by decide
  rw [hname] at h₂
  simp only [thriftGenericUnpack, hword, exec_ok_bind, masked_version, ne_eq, not_true_eq_false,
    if_false, if_neg htype, h₂, if_neg hcmp, bufReadInt32, h₃]

/-- A byte read as an integer and taken as unsigned. -/
theorem toUnsigned_intOf_byte (c : UInt8) : toUnsigned 8 (intOf [c]) = c.toNat := by
  have hval : beNat [c] = c.toNat := by
    rw [beNat, beNat, List.length_nil, pow_zero, Nat.mul_one, Nat.add_zero]
  rw [intOf, hval]
  exact (toUnsigned_toSigned 8 c.toNat).trans (Nat.mod_eq_of_lt c.toNat_lt)

/-- The type and the id of the first field: an id other than 0 fails the assertion, a type other
than a string is reported, and a string is read. -/
theorem unpackResult_field {c : UInt8} {id : Int16}
    (h : BufRepr b (c :: (beInt 2 id.toInt ++ rest))) :
    (id ≠ 0 → unpackResult b = .error .assertFailed)
      ∧ (id = 0 → c ≠ ThriftType.string.code → Returns (unpackResult b) fun r => r.1 = false)
      ∧ (id = 0 → c = ThriftType.string.code → ∃ b', BufRepr b' rest ∧ unpackResult b = do
          let (resp, b) ← bufReadStrU32 b'
          let (stop, b) ← bufReadInt8 b
          cassert (toUnsigned 8 stop = toUnsigned 8 fieldStop)
          return (true, some resp, b)) := by
  obtain ⟨hinv, hbytes⟩ := h
  obtain ⟨b₁, h₁, hinv₁, hbytes₁⟩ := hinv.readInt_front (d := [c]) hbytes
  obtain ⟨b₂, h₂, hrepr₂⟩ :=
    hinv₁.readInt_field (k := 2) (by decide) ⟨id.le_toInt, id.toInt_lt⟩ hbytes₁
  have htype : bufReadInt8 b = .ok (intOf [c], b₁) := h₁
  have hid : toUnsigned 16 id.toInt = 0 ↔ id = 0 := by
    have hlo := id.le_toInt
    have hhi := id.toInt_lt
    rw [← Int16.toInt_inj, Int16.toInt_zero]
    unfold toUnsigned
    constructor <;> intro h <;> omega
  have hstring : toUnsigned 8 typeString = ThriftType.string.code.toNat := by decide
  simp only [unpackResult, htype, exec_ok_bind, bufReadInt16, h₂, toUnsigned_intOf_byte, hstring]
  refine ⟨fun hne => ?_, fun h0 hc => ?_, fun h0 hc => ⟨b₂, hrepr₂, ?_⟩⟩
  · rw [cassert_bind_of_not (mt hid.mp hne)]
  · rw [cassert_bind_of (hid.mpr h0), if_pos (mt UInt8.toNat_inj.mp hc)]
    exact returns_ok rfl
  · rw [cassert_bind_of (hid.mpr h0), if_neg (not_not.mpr (congrArg UInt8.toNat hc))]

/-- A first field that is a string with id 0: it is the result when it is the only one. -/
theorem unpackResult_string {s t : List UInt8} {fields : List (Int16 × ThriftValue)}
    (hs : s.length < 2 ^ 31) (h : BufRepr b (thriftFields ((0, .string s) :: fields) ++ t)) :
    (fields = [] → ∃ b', unpackResult b = .ok (true, some (s ++ [0]), b') ∧ BufRepr b' t)
      ∧ (fields ≠ [] → unpackResult b = .error .assertFailed) := by
  simp only [thriftFields, List.cons_append, List.append_assoc] at h
  obtain ⟨b₁, ⟨hinv₁, hbytes₁⟩, hresult⟩ := (unpackResult_field h).2.2 rfl rfl
  obtain ⟨b₂, h₂, hinv₂, hbytes₂⟩ := bufReadStrU32_field hinv₁ hs hbytes₁
  rw [hresult, h₂, exec_ok_bind]
  dsimp only
  have hstop : toUnsigned 8 fieldStop = 0 := by decide
  refine ⟨fun hnil => ?_, fun hne => ?_⟩
  · subst hnil
    obtain ⟨b₃, h₃, hrepr₃⟩ := hinv₂.readInt_front (d := [0]) hbytes₂
    have hread : bufReadInt8 b₂ = .ok (intOf [0], b₃) := h₃
    refine ⟨b₃, ?_, hrepr₃⟩
    rw [hread, exec_ok_bind]
    dsimp only
    rw [cassert_bind_of (by decide)]
    rfl
  · -- the type of the next field stands where the stop byte is expected
    obtain ⟨⟨id, v⟩, rest, rfl⟩ := List.exists_cons_of_ne_nil hne
    obtain ⟨b₃, h₃, hrepr₃⟩ := hinv₂.readInt_front (d := [v.type.code]) hbytes₂
    have hread : bufReadInt8 b₂ = .ok (intOf [v.type.code], b₃) := h₃
    rw [hread, exec_ok_bind]
    dsimp only
    rw [toUnsigned_intOf_byte, hstop, cassert_bind_of_not]
    intro hzero
    exact v.type.code_ne_zero (UInt8.toNat_inj.mp hzero)

/-- The reply of the generic method with the string `r` as result. -/
def genericReply (seq : Int32) (r : List UInt8) : ThriftMessage where
  type := .reply
  name := genericMethod
  seq := seq
  fields := [(0, .string r)]

/-- **Thrift generic call and reply.** For strings whose call has a size that is an `int`,
`thrift_generic_pack` fills a buffer of exactly that size with the encoding of the call, which a
reader of the protocol reads with nothing left. On the encoding of a reply with a string that has no
NUL `thrift_generic_unpack` returns `true` with that string, and leaves what is behind it. -/
theorem thrift_generic_call_reply (seq : Int32) :
    (∀ serv method args : List UInt8,
        genericCommonLen + serv.length + method.length + args.length < 2 ^ 31 →
        PacksCall seq serv method args)
      ∧ ∀ (r t : List UInt8) (b : Buffer), 0 ∉ r → r.length < 2 ^ 31 →
        BufRepr b ((genericReply seq r).bytes ++ t) →
        Returns (thriftGenericUnpack b) fun p => p.1 = true
          ∧ (∃ out, p.2.1 = some out ∧ out = r ++ [0] ∧ out.takeWhile (· ≠ 0) = r)
          ∧ bufBytes p.2.2 = t := by
  refine ⟨fun serv method args h => packsCall_of_lt h, fun r t b hnul hr hb => ?_⟩
  obtain ⟨b₁, heq, hrepr⟩ := thriftGenericUnpack_hdr rfl hb
  obtain ⟨b', hresult, -, hrest⟩ := (unpackResult_string hr hrepr).1 rfl
  rw [heq, hresult]
  refine returns_ok ⟨rfl, ⟨_, rfl, rfl, ?_⟩, hrest⟩
  rw [List.takeWhile_append_of_pos fun c hc => decide_eq_true (ne_of_mem_of_not_mem hc hnul)]
  exact List.append_nil r

/-- A call of `m` of the service `s` without arguments, and a reply `{}` with one more byte. -/
theorem thrift_generic_call_reply_short :
    PacksCall 7 [0x73] [0x6D] [0x7B, 0x7D]
      ∧ Returns (thriftGenericUnpack (exactBuf ((genericReply 7 [0x7B, 0x7D]).bytes ++ [0x2A])))
        fun p => p.1 = true
          ∧ (∃ out, p.2.1 = some out ∧ out = [0x7B, 0x7D] ++ [0]
            ∧ out.takeWhile (· ≠ 0) = [0x7B, 0x7D])
          ∧ bufBytes p.2.2 = [0x2A] :=
  ⟨(thrift_generic_call_reply 7).1 _ _ _ (by decide),
    (thrift_generic_call_reply 7).2 [0x7B, 0x7D] [0x2A] _ (by decide) (by decide)
      (exactBuf_repr (by decide))⟩

/-- Strings of 2³¹ - 22, 2³¹ - 22 and 1 bytes: the size of the call wraps around to 1. -/
theorem thrift_generic_pack_wraps :
    ¬ PacksCall 0 (List.replicate (2 ^ 31 - 22) 0x61) (List.replicate (2 ^ 31 - 22) 0x61)
      [0x61] := by
  have hlen : (List.replicate (2 ^ 31 - 22) (0x61 : UInt8)).length = 2 ^ 31 - 22 :=
    List.length_replicate
  refine not_packsCall (by rw [hlen]; omega) (by rw [hlen]; omega) (by decide) ?_
  rw [hlen, genericCommonLen, List.length_singleton]
  omega

/-! ### Other replies -/

/-- The first field of a reply is a string with id 0. -/
def IsStringReply (m : ThriftMessage) : Prop :=
  m.type = .reply ∧ ∃ s fields, m.fields = (0, .string s) :: fields

/-- `thrift_generic_unpack` returns `true` only on a reply whose first field is a string with id 0,
and on every other message it returns `false`. -/
def ReportsOthers (b : Buffer) (m : ThriftMessage) : Prop :=
  (∀ r, thriftGenericUnpack b = .ok r → r.1 = true → IsStringReply m)
    ∧ (¬ IsStringReply m → Returns (thriftGenericUnpack b) fun r => r.1 = false)

/-- The two bytes of an id. -/
theorem exists_id {t : List UInt8} (h : 2 ≤ t.length) :
    ∃ (id : Int16) (rest : List UInt8), t = beInt 2 id.toInt ++ rest
      ∧ (id = 0 ↔ t.take 2 = [0, 0]) := by
  have hlen : (t.take 2).length = 2 := by
    rw [List.length_take]
    omega
  have hbytes : beInt 2 (intOf (t.take 2)) = t.take 2 := by
    have := beInt_intOf (t.take 2)
    rwa [hlen] at this
  have hfits : FitsInt 2 (intOf (t.take 2)) := by
    rw [intOf, hlen]
    exact toSigned_fits (by decide) _
  have hid : (Int16.ofInt (intOf (t.take 2))).toInt = intOf (t.take 2) :=
    Int16.toInt_ofInt_of_le hfits.1 hfits.2
  refine ⟨Int16.ofInt (intOf (t.take 2)), t.drop 2, ?_, ?_⟩
  · rw [hid, hbytes, List.take_append_drop]
  · rw [← Int16.toInt_inj, hid, Int16.toInt_zero]
    constructor
    · intro h0
      rw [← hbytes, h0]
      decide
    · intro h0
      rw [h0]
      decide

/-- The first field is one that `thrift_generic_unpack` can report: it has id 0 and is no string. A
result without fields has the stop byte for a type, and what is behind the message for an id. -/
def ReportableField (m : ThriftMessage) (t : List UInt8) : Prop :=
  (∃ v fields, m.fields = (0, v) :: fields ∧ v.type ≠ .string) ∨ m.fields = [] ∧ t.take 2 = [0, 0]

/-- What `thrift_generic_unpack` does with the first field of the result when it is not a string
with id 0: it returns `false` exactly on those it can report. -/
theorem unpackResult_other {m : ThriftMessage} {t : List UInt8}
    (hfirst : ¬ ∃ s fields, m.fields = (0, .string s) :: fields)
    (h : BufRepr b (thriftFields m.fields ++ t)) :
    (Returns (unpackResult b) fun r => r.1 = false) ↔ ReportableField m t := by
  have hfail (hok : Returns (unpackResult b) fun r => r.1 = false)
      (herr : unpackResult b = .error .assertFailed) : False := by
    obtain ⟨r, hr, -⟩ := hok
    rw [herr] at hr
    cases hr
  generalize hfields : m.fields = fields at hfirst h
  rw [ReportableField, hfields]
  cases fields with
  | nil =>
    rw [or_iff_right (by rintro ⟨v, fields, hnil, -⟩; cases hnil), and_iff_right rfl]
    by_cases hlen : 2 ≤ t.length
    · obtain ⟨id, rest, rfl, hid⟩ := exists_id hlen
      obtain ⟨hne, hreport, -⟩ := unpackResult_field h
      rw [← hid]
      constructor
      · intro hok
        by_contra h0
        exact hfail hok (hne h0)
      · intro h0
        exact hreport h0 (by decide)
    · -- the id is cut off
      have hcut : unpackResult b = .error .assertFailed := by
        obtain ⟨b₁, h₁, hinv₁, hbytes₁⟩ := h.1.readInt_front (d := [0]) h.2
        have hread : bufReadInt8 b = .ok (intOf [0], b₁) := h₁
        have hshort : bufReadInt16 b₁ = .error .assertFailed :=
          bufReadInt_short (by rw [← hinv₁.length_bufBytes, hbytes₁]; omega)
        simp only [unpackResult, hread, exec_ok_bind, hshort, exec_error_bind]
      refine iff_of_false (fun hok => hfail hok hcut) fun htake => ?_
      have := congrArg List.length htake
      rw [List.length_take] at this
      simp only [List.length_cons, List.length_nil] at this
      omega
  | cons p fields =>
    obtain ⟨id, v⟩ := p
    rw [or_iff_left fun hnil => List.cons_ne_nil _ _ hnil.1]
    simp only [thriftFields, List.cons_append, List.append_assoc] at h
    obtain ⟨hne, hreport, -⟩ := unpackResult_field h
    constructor
    · intro hok
      have h0 : id = 0 := by
        by_contra h0
        exact hfail hok (hne h0)
      subst h0
      refine ⟨v, fields, rfl, fun htype => hfirst ?_⟩
      obtain ⟨s, rfl⟩ := ThriftValue.exists_string htype
      exact ⟨s, fields, rfl⟩
    · rintro ⟨v', fields', heq, htype⟩
      obtain ⟨hhead, rfl⟩ := List.cons.inj heq
      obtain ⟨rfl, rfl⟩ := Prod.mk.inj hhead
      exact hreport rfl fun hcode => htype (ThriftType.code_inj hcode)

/-- **Exceptions and unexpected replies** are reported exactly when the first field has id 0 and is
not a string: the type of the message plays no role. -/
theorem thrift_generic_reports_iff {m : ThriftMessage} (hname : m.name = genericMethod)
    (hwf : m.Wf) (t : List UInt8) (b : Buffer) (hb : BufRepr b (m.bytes ++ t)) :
    ReportsOthers b m ↔ IsStringReply m ∨ ReportableField m t := by
  obtain ⟨b₁, heq, hrepr⟩ := thriftGenericUnpack_hdr hname hb
  rw [ReportsOthers, heq]
  by_cases hfirst : ∃ s fields, m.fields = (0, .string s) :: fields
  · -- a string with id 0 is taken for the result
    obtain ⟨s, fields, hfields⟩ := hfirst
    have hnot : ¬ ReportableField m t := by
      rintro (⟨v, fields', h', htype⟩ | ⟨h', -⟩)
      · rw [hfields] at h'
        obtain ⟨hhead, -⟩ := List.cons.inj h'
        obtain ⟨-, rfl⟩ := Prod.mk.inj hhead
        exact htype rfl
      · rw [hfields] at h'
        cases h'
    rw [or_iff_left hnot]
    have hs : s.length < 2 ^ 31 := by
      have := hwf.2.mem (0, .string s) (by rw [hfields]; exact List.mem_cons_self)
      rwa [ThriftValue.Wf] at this
    rw [hfields] at hrepr
    obtain ⟨hlast, hmore⟩ := unpackResult_string hs hrepr
    constructor
    · rintro ⟨-, hfalse⟩
      by_contra hother
      obtain ⟨r, hr, hr1⟩ := hfalse hother
      by_cases hnil : fields = []
      · obtain ⟨b', hok, -⟩ := hlast hnil
        obtain rfl := Except.ok.inj (hok.symm.trans hr)
        cases hr1
      · rw [hmore hnil] at hr
        cases hr
    · intro hgood
      exact ⟨fun _ _ _ => hgood, fun hother => absurd hgood hother⟩
  · have hother : ¬ IsStringReply m := fun hgood => hfirst hgood.2
    rw [or_iff_right hother, ← unpackResult_other hfirst hrepr]
    constructor
    · exact fun h => h.2 hother
    · intro hok
      refine ⟨fun r hr htrue => ?_, fun _ => hok⟩
      obtain ⟨r', hr', hfalse⟩ := hok
      obtain rfl := Except.ok.inj (hr.symm.trans hr')
      rw [hfalse] at htrue
      cases htrue

/-- An exception of the application: a message and the type 6. -/
def genericException : ThriftMessage where
  type := .exception
  name := genericMethod
  seq := 7
  fields := [(1, .string [0x6E, 0x6F]), (2, .i32 6)]

/-- It is well-formed. -/
theorem genericException_wf : genericException.Wf := by
  refine ⟨by decide, ?_, trivial, trivial⟩
  show 2 < 2 ^ 31
  decide

/-- The exception, with nothing behind it. -/
theorem thrift_generic_reports_iff_exception :
    ReportsOthers (exactBuf (genericException.bytes ++ [])) genericException
      ↔ IsStringReply genericException ∨ ReportableField genericException [] :=
  thrift_generic_reports_iff rfl genericException_wf [] _ (exactBuf_repr (by decide))

/-- It is not reported: the assertion on the id of its first field fails. -/
theorem thrift_generic_exception_fatal :
    thriftGenericUnpack (exactBuf genericException.bytes) = .error .assertFailed
      ∧ ¬ ReportsOthers (exactBuf genericException.bytes) genericException := by
  have hfail : thriftGenericUnpack (exactBuf genericException.bytes) = .error .assertFailed := rfl
  refine ⟨hfail, ?_⟩
  rintro ⟨-, hfalse⟩
  obtain ⟨r, hr, -⟩ := hfalse fun hreply => nomatch hreply.1
  rw [hfail] at hr
  cases hr

end Wee
