import Wee.Base.Utf8Decode
import Wee.Lib.Json

/-! # Escaping JSON to ASCII (`utf82ascii` in `dubbo_client/dubbo_hessian.c`)

`utf82ascii` writes every character that is not ASCII as one or two `\u` escapes, without looking at
where it stands. On a JSON text this does not change the value: outside string literals and behind a
backslash only ASCII characters can stand, and inside literals an escape stands for its units. -/

namespace Wee

/-! ### The function -/

/-- `digits`. -/
def digits : List UInt8 := asciiBytes "0123456789abcdef"

/-- A `\u` escape of the unit `c`. -/
def appendEscape (buf : Buffer) (c : Nat) : Exec Buffer := do
  let buf ← bufAppend buf [0x5C, 0x75]
  let buf ← bufAppendInt8 buf (digits.getD ((c &&& 0xf000) >>> 12) 0).toNat
  let buf ← bufAppendInt8 buf (digits.getD ((c &&& 0xf00) >>> 8) 0).toNat
  let buf ← bufAppendInt8 buf (digits.getD ((c &&& 0xf0) >>> 4) 0).toNat
  bufAppendInt8 buf (digits.getD (c &&& 0xf) 0).toNat

/-- The body of the loop of `utf82ascii` on the character `c`. -/
def appendAscii (buf : Buffer) (c : Nat) : Exec Buffer :=
  if c ≤ 127 then bufAppendInt8 buf c
  else if 0x10000 ≤ c then do
    let c := c - 0x10000
    let nextC := ((c &&& 0x3ff) ||| 0xdc00) % 2 ^ 16
    let buf ← appendEscape buf (((c >>> 10) ||| 0xd800) % 2 ^ 16)
    appendEscape buf nextC
  else appendEscape buf c

/-- The loop of `utf82ascii`: `none` after an invalid character. -/
def utf82asciiLoop : Nat → Buffer → Utf8Decoder → Exec (Option Buffer)
  | 0, _, _ => .error .outOfFuel
  | fuel + 1, buf, d =>
    match utf8DecodeNext d with
    | (.finish, _) => .ok (some buf)
    | (.error, _) => .ok none
    | (.char c, d) => do
      let buf ← appendAscii buf c
      utf82asciiLoop fuel buf d

/-- `utf82ascii`: the new string with its NUL, or `none` for `NULL`. -/
def utf82ascii (fuel : Nat) (s : CStr) : Exec (Option (List UInt8)) := do
  let buf ← bufCreate (strlen s * 2 % 2 ^ 64)
  let r ← utf82asciiLoop fuel buf (utf8DecodeInit s.bytes (toSigned 32 (strlen s)))
  match r with
  | none => return none
  | some buf =>
    let (ret, _) ← bufRetrieveInto buf (bufReadable buf) (cMalloc (szAdd (bufReadable buf) 1))
    return some ret

/-! ### Escapes -/

/-- ASCII characters as bytes. -/
def charBytes (cs : List Nat) : List UInt8 := cs.map UInt8.ofNat

/-- One byte. -/
theorem bufAppendInt8_natCast (b : Buffer) {n : Nat} (h : n < 2 ^ 8) :
    bufAppendInt8 b n = bufAppends b [[UInt8.ofNat n]] := by
  have hbyte : beInt 1 (n : Int) = [UInt8.ofNat n] := by
    rw [beInt, toUnsigned_natCast h, beBytes, beBytes, pow_zero, Nat.div_one]
  rw [bufAppends_cons, ← hbyte]
  exact (bind_pure _).symm

/-- A byte of `digits` is the hexadecimal digit. -/
theorem digits_getD {n : Nat} (h : n < 16) :
    digits.getD n 0 = UInt8.ofNat (hexChar n) ∧ (digits.getD n 0).toNat < 2 ^ 8 := by
  have hall : ∀ n < 16, digits.getD n 0 = UInt8.ofNat (hexChar n) := by decide
  exact ⟨hall n h, (digits.getD n 0).toNat_lt⟩

/-- A digit of a unit. -/
theorem and_shiftRight (c k : Nat) : (c &&& (15 <<< k)) >>> k = c / 2 ^ k % 16 := by
  rw [Nat.shiftRight_and_distrib, Nat.shiftLeft_shiftRight, Nat.shiftRight_eq_div_pow,
    show (15 : Nat) = 2 ^ 4 - 1 from rfl, Nat.and_two_pow_sub_one_eq_mod]

/-- `cs` is written by appending pieces. -/
def Writes (append : Buffer → Exec Buffer) (cs : List Nat) : Prop :=
  ∃ ds, ds.flatten = charBytes cs ∧ ∀ b, append b = bufAppends b ds

/-- Writing one after the other. -/
theorem Writes.append {f g : Buffer → Exec Buffer} {cs es : List Nat} (hf : Writes f cs)
    (hg : Writes g es) : Writes (fun b => f b >>= g) (cs ++ es) := by
  obtain ⟨ds, hds, hf⟩ := hf
  obtain ⟨ds', hds', hg⟩ := hg
  refine ⟨ds ++ ds', ?_, fun b => ?_⟩
  · rw [List.flatten_append, hds, hds', charBytes, charBytes, charBytes, List.map_append]
  · rw [bufAppends_append]
    show (f b >>= g) = _
    rw [hf b]
    exact congrArg _ (funext hg)

/-- An escape of a unit. -/
theorem appendEscape_writes (c : Nat) : Writes (appendEscape · c) (escapeUnit c) := by
  have hbyte (b : Buffer) {n : Nat} (h : n < 16) : bufAppendInt8 b (digits.getD n 0).toNat
      = bufAppends b [[UInt8.ofNat (hexChar n)]] := by
    obtain ⟨hdigit, hlt⟩ := digits_getD h
    rw [bufAppendInt8_natCast b hlt, hdigit, UInt8.ofNat_toNat]
  have h12 : (c &&& 0xf000) >>> 12 = c / 0x1000 % 16 := and_shiftRight c 12
  have h8 : (c &&& 0xf00) >>> 8 = c / 0x100 % 16 := and_shiftRight c 8
  have h4 : (c &&& 0xf0) >>> 4 = c / 0x10 % 16 := and_shiftRight c 4
  have h0 : c &&& 0xf = c % 16 := Nat.and_two_pow_sub_one_eq_mod c 4
  refine ⟨[[0x5C, 0x75], [UInt8.ofNat (hexChar (c / 0x1000 % 16))],
    [UInt8.ofNat (hexChar (c / 0x100 % 16))], [UInt8.ofNat (hexChar (c / 0x10 % 16))],
    [UInt8.ofNat (hexChar (c % 16))]], rfl, fun b => ?_⟩
  simp only [appendEscape, h12, h8, h4, h0, hbyte _ (Nat.mod_lt _ (by decide : 0 < 16)),
    bufAppends_cons, bufAppends_nil, bind_assoc]
  rfl

/-- The surrogates of a supplementary character. -/
theorem surrogates_eq {c : Nat} (hc : c < 0x100000) :
    ((c >>> 10) ||| 0xd800) % 2 ^ 16 = 0xD800 + c / 0x400
      ∧ ((c &&& 0x3ff) ||| 0xdc00) % 2 ^ 16 = 0xDC00 + c % 0x400 := by
  have hhigh : 0xd800 ||| (c / 0x400) = 0xD800 + c / 0x400 :=
    shiftLeft_or (a := 54) (k := 10) (by omega)
  have hlow : 0xdc00 ||| (c % 0x400) = 0xDC00 + c % 0x400 :=
    shiftLeft_or (a := 55) (k := 10) (Nat.mod_lt _ (by decide))
  constructor
  · rw [Nat.shiftRight_eq_div_pow, Nat.or_comm, hhigh]
    omega
  · rw [show c &&& 0x3ff = c % 0x400 from and_low c 10, Nat.or_comm, hlow]
    omega

/-- **The body of the loop** writes the character, escaped if it is not ASCII. -/
theorem appendAscii_writes {c : Nat} (hc : c < 0x110000) :
    Writes (appendAscii · c) (escapeChar c) := by
  by_cases hascii : c ≤ 127
  · refine ⟨[[UInt8.ofNat c]], ?_, fun b => ?_⟩
    · rw [escapeChar, if_pos hascii]
      rfl
    · show appendAscii b c = _
      rw [appendAscii, if_pos hascii, bufAppendInt8_natCast b (by omega)]
  · by_cases hbig : 0x10000 ≤ c
    · obtain ⟨hhigh, hlow⟩ := surrogates_eq (c := c - 0x10000) (by omega)
      have heq (b : Buffer) : appendAscii b c
          = appendEscape b (0xD800 + (c - 0x10000) / 0x400) >>= fun b =>
            appendEscape b (0xDC00 + (c - 0x10000) % 0x400) := by
        rw [appendAscii, if_neg hascii, if_pos hbig]
        dsimp only
        rw [hhigh, hlow]
      have hescape : escapeChar c = escapeUnit (0xD800 + (c - 0x10000) / 0x400)
          ++ escapeUnit (0xDC00 + (c - 0x10000) % 0x400) := by
        rw [escapeChar, if_neg hascii, utf16, if_neg (by omega), List.flatMap_cons,
          List.flatMap_cons, List.flatMap_nil, List.append_nil]
      rw [hescape, show (appendAscii · c) = _ from funext heq]
      exact (appendEscape_writes _).append (appendEscape_writes _)
    · have hescape : escapeChar c = escapeUnit c := by
        rw [escapeChar, if_neg hascii, utf16, if_pos (by omega), List.flatMap_cons,
          List.flatMap_nil, List.append_nil]
      have heq (b : Buffer) : appendAscii b c = appendEscape b c := by
        rw [appendAscii, if_neg hascii, if_neg hbig]
      rw [hescape, show (appendAscii · c) = _ from funext heq]
      exact appendEscape_writes c

/-! ### The loop -/

/-- The code points of a string. -/
def utf8Codes (s : List Utf8Char) : List Nat := s.map Utf8Char.code

/-- **The loop** adds the escaped text of what the decoder has left. The induction is on the
characters left. -/
theorem utf82asciiLoop_spec {s : List Utf8Char} {fuel : Nat} (hfuel : s.length < fuel)
    {buf : Buffer} {d : Utf8Decoder} (h : BufInv buf) (hat : d.At (utf8Bytes s))
    (hov : buf.sz + (escapeText (utf8Codes s)).length < 2 ^ 64) :
    Returns (utf82asciiLoop fuel buf d) fun r => ∃ buf', r = some buf' ∧ BufInv buf'
      ∧ bufBytes buf' = bufBytes buf ++ charBytes (escapeText (utf8Codes s))
      ∧ buf'.sz ≤ buf.sz + (escapeText (utf8Codes s)).length := by
  induction s generalizing fuel buf d with
  | nil =>
    obtain ⟨fuel, rfl⟩ := Nat.exists_eq_succ_of_ne_zero (Nat.ne_of_gt hfuel)
    rw [utf82asciiLoop, utf8DecodeNext_finish hat]
    exact returns_ok ⟨buf, rfl, h, (List.append_nil _).symm, Nat.le_add_right _ _⟩
  | cons c s ih =>
    obtain ⟨fuel, rfl⟩ := Nat.exists_eq_succ_of_ne_zero (Nat.ne_of_gt (Nat.zero_lt_of_lt hfuel))
    rw [utf8Bytes_cons] at hat
    obtain ⟨d', hnext, hat'⟩ := utf8DecodeNext_char c hat
    obtain ⟨ds, hds, happend⟩ := appendAscii_writes c.code_lt
    have happend : appendAscii buf c.code = bufAppends buf ds := happend buf
    have hlen : ds.flatten.length = (escapeChar c.code).length := by
      rw [hds, charBytes, List.length_map]
    rw [utf8Codes, List.map_cons, escapeText_cons, List.length_append] at hov ⊢
    rw [utf82asciiLoop, hnext]
    dsimp only
    rw [happend]
    refine (h.appends_spec ds (by omega)).bind fun b₁ hb₁ => ?_
    obtain ⟨hinv₁, hbytes₁, hsz₁⟩ := hb₁
    refine (ih (by rw [List.length_cons] at hfuel; omega) hinv₁ hat'
      (by rw [utf8Codes]; omega)).imp fun r hr => ?_
    obtain ⟨buf', rfl, hinv', hbytes', hsz'⟩ := hr
    refine ⟨buf', rfl, hinv', ?_, ?_⟩
    · rw [hbytes', hbytes₁, hds, List.append_assoc, charBytes, charBytes, charBytes, utf8Codes,
        List.map_append]
    · rw [utf8Codes] at hsz'
      omega

/-! ### What an escaped text is -/

/-- An escape is six ASCII characters. -/
theorem escapeUnit_ascii (u : Nat) : (escapeUnit u).length = 6 ∧ ∀ c ∈ escapeUnit u, c ≤ 0x7F := by
  have hhex (n : Nat) (h : n < 16) : hexChar n ≤ 0x7F := by
    rw [hexChar]
    split <;> omega
  refine ⟨rfl, fun c hc => ?_⟩
  simp only [escapeUnit, List.mem_cons, List.not_mem_nil, or_false] at hc
  rcases hc with rfl | rfl | rfl | rfl | rfl | rfl
  · decide
  · decide
  · exact hhex _ (Nat.mod_lt _ (by decide))
  · exact hhex _ (Nat.mod_lt _ (by decide))
  · exact hhex _ (Nat.mod_lt _ (by decide))
  · exact hhex _ (Nat.mod_lt _ (by decide))

/-- An escaped character is at most two escapes. -/
theorem escapeChar_ascii (c : Nat) :
    (escapeChar c).length ≤ 12 ∧ ∀ e ∈ escapeChar c, e ≤ 0x7F := by
  rw [escapeChar]
  by_cases hascii : c ≤ 0x7F
  · rw [if_pos hascii]
    exact ⟨by rw [List.length_singleton]; omega, by simpa using hascii⟩
  rw [if_neg hascii]
  constructor
  · have hunits : (utf16 c).length ≤ 2 := by
      rw [utf16]
      split
      · exact Nat.le_succ 1
      · exact Nat.le_refl 2
    rw [List.length_flatMap, List.map_congr_left fun u _ => (escapeUnit_ascii u).1,
      List.map_const', List.sum_replicate_nat]
    omega
  · intro e he
    obtain ⟨u, -, heu⟩ := List.mem_flatMap.mp he
    exact (escapeUnit_ascii u).2 e heu

/-- An escaped text is ASCII, and at most twelve times as long. -/
theorem escapeText_bounds (cs : List Nat) :
    (escapeText cs).length ≤ 12 * cs.length ∧ ∀ e ∈ escapeText cs, e ≤ 0x7F := by
  induction cs with
  | nil => exact ⟨Nat.le_refl 0, fun e he => absurd he List.not_mem_nil⟩
  | cons c cs ih =>
    obtain ⟨hlen, hascii⟩ := escapeChar_ascii c
    rw [escapeText_cons]
    constructor
    · rw [List.length_append, List.length_cons]
      omega
    · intro e he
      rcases List.mem_append.mp he with he | he
      · exact hascii e he
      · exact ih.2 e he

/-- The characters of ASCII bytes. -/
theorem charBytes_toNat {cs : List Nat} (h : ∀ c ∈ cs, c ≤ 0x7F) :
    (charBytes cs).map UInt8.toNat = cs := by
  rw [charBytes, List.map_map]
  refine (List.map_congr_left fun c hc => ?_).trans cs.map_id
  have hlt := h c hc
  exact UInt8.toNat_ofNat_of_lt' (show c < 2 ^ 8 by omega)

/-- The bytes of ASCII characters. -/
theorem charBytes_lt {cs : List Nat} (h : ∀ c ∈ cs, c ≤ 0x7F) : ∀ b ∈ charBytes cs, b < 0x80 := by
  intro b hb
  obtain ⟨c, hc, rfl⟩ := List.mem_map.mp hb
  have hlt := h c hc
  rw [UInt8.lt_iff_toNat_lt, UInt8.toNat_ofNat_of_lt' (show c < 2 ^ 8 by omega)]
  exact Nat.lt_succ_of_le hlt

/-! ### JSON texts in UTF-8 -/

/-- The bytes are the UTF-8 form of a JSON text that denotes `v`. -/
def JsonText (bs : List UInt8) (v : JsonValue) : Prop :=
  ∃ s, utf8Bytes s = bs ∧ readJson (utf8Codes s) = some v

/-- **The bytes tell the characters**: a decoder returns the code points of any string it stands
before. -/
theorem utf8Codes_unique {d : Utf8Decoder} {s t : List Utf8Char} (hs : d.At (utf8Bytes s))
    (ht : d.At (utf8Bytes t)) : utf8Codes s = utf8Codes t := by
  induction s generalizing d t with
  | nil =>
    cases t with
    | nil => rfl
    | cons c t =>
      obtain ⟨d', hnext, -⟩ := utf8DecodeNext_char c ht
      rw [utf8DecodeNext_finish hs] at hnext
      cases hnext
  | cons c s ih =>
    obtain ⟨d₁, hnext₁, hs'⟩ := utf8DecodeNext_char c hs
    cases t with
    | nil =>
      rw [utf8DecodeNext_finish ht] at hnext₁
      cases hnext₁
    | cons e t =>
      obtain ⟨d₂, hnext₂, ht'⟩ := utf8DecodeNext_char e ht
      obtain ⟨hchar, rfl⟩ := Prod.mk.inj (hnext₁.symm.trans hnext₂)
      rw [utf8Codes, utf8Codes, List.map_cons, List.map_cons, Utf8Next.char.inj hchar]
      exact congrArg _ (ih hs' ht')

/-- A text denotes one value. -/
theorem JsonText.unique {bs : List UInt8} {v w : JsonValue} (hv : JsonText bs v)
    (hw : JsonText bs w) : w = v := by
  obtain ⟨s, rfl, hv⟩ := hv
  obtain ⟨t, hbytes, hw⟩ := hw
  have hcodes : utf8Codes t = utf8Codes s :=
    utf8Codes_unique (d := utf8DecodeInit (utf8Bytes t) (utf8Bytes t).length) utf8DecodeInit_at
      (hbytes ▸ utf8DecodeInit_at)
  rw [hcodes, hv] at hw
  exact (Option.some.inj hw).symm

/-- The escaped text, as bytes, denotes the value of the text. -/
theorem jsonText_escapeText {cs : List Nat} {v : JsonValue} (h : readJson cs = some v) :
    JsonText (charBytes (escapeText cs)) v := by
  have hascii := (escapeText_bounds cs).2
  obtain ⟨s, hbytes, hcodes⟩ := exists_utf8_codes_of_ascii _ (charBytes_lt hascii)
  refine ⟨s, hbytes, ?_⟩
  rw [utf8Codes, hcodes, charBytes_toNat hascii]
  exact readJson_escapeText h

/-- `utf82ascii` on a well-formed string whose length is an `int`: the escaped text. -/
theorem utf82ascii_eq {s : List Utf8Char} {text : CStr} (hbytes : utf8Bytes s = text.bytes)
    (hpos : 0 < text.bytes.length) (hint : text.bytes.length < 2 ^ 31) {fuel : Nat}
    (hfuel : s.length < fuel) :
    utf82ascii fuel text = .ok (some (charBytes (escapeText (utf8Codes s)) ++ [0])) := by
  have hchars : s.length ≤ text.bytes.length := hbytes ▸ length_le_utf8Bytes s
  have hlen : (escapeText (utf8Codes s)).length ≤ 12 * s.length := by
    have := (escapeText_bounds (utf8Codes s)).1
    rwa [utf8Codes, List.length_map] at this
  have hsize : strlen text * 2 % 2 ^ 64 = text.bytes.length * 2 := by
    rw [strlen]
    omega
  have hdecoder : utf8DecodeInit text.bytes (toSigned 32 (strlen text))
      = utf8DecodeInit text.bytes text.bytes.length := by
    rw [strlen, toSigned_of_lt (by omega)]
  have hreturns : Returns (utf82ascii fuel text) fun r =>
      r = some (charBytes (escapeText (utf8Codes s)) ++ [0]) := by
    rw [utf82ascii, hsize, hdecoder]
    refine (bufCreate_spec (by omega) (by rw [bufCheapPrepend]; omega)).bind fun buf hbuf => ?_
    obtain ⟨hinv, hempty, -, hsz, -⟩ := hbuf
    rw [bufCheapPrepend] at hsz
    refine (utf82asciiLoop_spec hfuel hinv (hbytes ▸ utf8DecodeInit_at) (by omega)).bind
      fun r hr => ?_
    obtain ⟨buf', rfl, hinv', hbytes', -⟩ := hr
    rw [hempty, List.nil_append] at hbytes'
    have hreadable : bufReadable buf' = (charBytes (escapeText (utf8Codes s))).length := by
      rw [← hinv'.length_bufBytes, hbytes']
    have hlength : (charBytes (escapeText (utf8Codes s))).length
        = (escapeText (utf8Codes s)).length := by
      rw [charBytes, List.length_map]
    obtain ⟨b₁, hok, -⟩ := hinv'.retrieveInto_field (hbytes'.trans (List.append_nil _).symm)
    dsimp only
    rw [hreadable, szAdd_eq (by omega), cMalloc, if_pos (by omega), hok]
    exact returns_ok rfl
  obtain ⟨r, hok, rfl⟩ := hreturns
  exact hok

/-- **Escaping to ASCII preserves the JSON value**: on every JSON text in UTF-8, no longer than the
printer of the caller makes it, `utf82ascii` returns an ASCII text that denotes the value of the
text, and no other value. -/
theorem utf82ascii_preserves_json {text : CStr} {v : JsonValue} (hjson : JsonText text.bytes v)
    (hint : text.bytes.length < 2 ^ 31) :
    Settles (fun fuel => utf82ascii fuel text) fun r =>
      ∃ out, r = some (out ++ [0]) ∧ (∀ b ∈ out, b < 0x80) ∧ JsonText out v
        ∧ ∀ w, JsonText out w → w = v := by
  obtain ⟨s, hbytes, hread⟩ := hjson
  have hpos : 0 < text.bytes.length := by
    rw [← hbytes]
    apply Nat.pos_of_ne_zero
    intro hzero
    have hnil : s = [] := List.length_eq_zero_iff.mp (Nat.le_zero.mp (hzero ▸ length_le_utf8Bytes s))
    rw [hnil] at hread
    cases hread
  have htext := jsonText_escapeText hread
  exact ⟨s.length + 1, _, fun fuel hfuel => utf82ascii_eq hbytes hpos hint hfuel, _, rfl,
    charBytes_lt (escapeText_bounds _).2, htext, fun w hw => htext.unique hw⟩

/-- `utf82ascii_preserves_json` on a text with a character of two units. -/
theorem utf82ascii_preserves_json_pair :
    Settles (fun fuel => utf82ascii fuel ⟨[0x22, 0xF0, 0x9F, 0x98, 0x80, 0x22], by decide⟩)
      fun r => ∃ out, r = some (out ++ [0]) ∧ (∀ b ∈ out, b < 0x80)
        ∧ JsonText out (.string [0x1F600]) ∧ ∀ w, JsonText out w → w = .string [0x1F600] := by
  have htokens : lexJson 3 [0x22, 0x1F600, 0x22] = some [.string [0x1F600]] := by decide +kernel
  have hread : readJson [0x22, 0x1F600, 0x22] = some (.string [0x1F600]) := by
    rw [readJson, show [0x22, 0x1F600, 0x22].length = 3 from rfl, htokens]
    rfl
  have htext : JsonText [0x22, 0xF0, 0x9F, 0x98, 0x80, 0x22] (.string [0x1F600]) :=
    ⟨[⟨[0x22], by decide⟩, ⟨[0xF0, 0x9F, 0x98, 0x80], by decide⟩, ⟨[0x22], by decide⟩], rfl, hread⟩
  have hlength : [0x22, 0xF0, 0x9F, 0x98, 0x80, 0x22].length < 2 ^ 31 := by
    rw [show [0x22, 0xF0, 0x9F, 0x98, 0x80, 0x22].length = 6 from rfl]
    omega
  exact utf82ascii_preserves_json htext hlength

end Wee
