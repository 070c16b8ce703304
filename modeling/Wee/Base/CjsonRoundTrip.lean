import Mathlib.Data.List.TakeWhile
import Wee.Base.CjsonPrintText
import Wee.Base.CjsonSyntax

/-! # Printing and parsing (`base/cJSON.c`)

What is printed for a value is one of the ways in which it may be written, with white space or
without, if each of its numbers is read back as it was. So `cJSON_Parse` returns the value that was
printed, if it is nested up to the limit. -/

namespace Wee

variable {ν : Type} {lib : NumberLib ν} {printNumber : ν → CStr} {format : Bool}

/-! ### Strings -/

/-- A string by its bytes. -/
theorem CStr.ofBlock_bytes (value : CStr) : CStr.ofBlock value.bytes = value := by
  obtain ⟨bytes, hnul⟩ := value
  simp only [CStr.ofBlock, CStr.mk.injEq]
  exact List.takeWhile_eq_self_iff.mpr fun c hc => decide_eq_true fun h => hnul (h ▸ hc)

/-- The string in a block that begins with its bytes and a NUL. -/
theorem CStr.ofBlock_of_prefix {value : CStr} {block : List UInt8}
    (h : value.bytes ++ [0] <+: block) : CStr.ofBlock block = value := by
  obtain ⟨t, rfl⟩ := h
  have hblock : CStr.ofBlock (value.bytes ++ [0] ++ t) = CStr.ofBlock value.bytes := by
    simp only [CStr.ofBlock, CStr.mk.injEq, List.append_assoc, List.singleton_append]
    exact takeWhile_append_nul value.bytes t
  rw [hblock, CStr.ofBlock_bytes]

/-- The letter of an escape stands for the character. -/
theorem simpleEscape_escapeLetter {c e : UInt8} (h : escapeLetter c = some e) :
    simpleEscape e.toNat = some c.toNat := by
  unfold escapeLetter at h
  repeat' split at h
  all_goals first
    | (obtain rfl := Option.some.inj h
       subst c
       decide)
    | exact absurd h.symm (Option.some_ne_none e)

/-- A digit that is written. -/
theorem toNat_hexChar (n : Nat) : (UInt8.ofNat (hexChar (n % 16))).toNat = hexChar (n % 16) := by
  refine UInt8.toNat_ofNat_of_lt' ?_
  show hexChar (n % 16) < 256
  unfold hexChar
  split <;> omega

/-- A unit as it is written. -/
def writtenUnit (u : Nat) (h : u < 0x10000) : HexUnit where
  a := UInt8.ofNat (hexChar (u / 0x1000 % 16))
  b := UInt8.ofNat (hexChar (u / 0x100 % 16))
  c := UInt8.ofNat (hexChar (u / 0x10 % 16))
  d := UInt8.ofNat (hexChar (u % 16))
  value := u
  wf := by
    unfold hexUnit
    simp only [toNat_hexChar]
    rw [hexDigit_hexChar (by omega), hexDigit_hexChar (by omega), hexDigit_hexChar (by omega),
      hexDigit_hexChar (by omega)]
    show some _ = some u
    congr 1
    omega

/-- **Every byte of a C string is printed as one piece of a literal**. -/
theorem printChar_piece {c : UInt8} (hc : c ≠ 0) :
    ∃ piece : StringPiece, piece.text = printChar c ∧ piece.bytes = [c] := by
  by_cases hplain : 31 < c ∧ c ≠ 0x22 ∧ c ≠ 0x5C
  · exact ⟨.plain c ⟨hc, hplain.2⟩, (printChar_plain hplain).symm, rfl⟩
  have hchar := printChar_escaped hplain
  cases hletter : escapeLetter c with
  | some e =>
    rw [hletter] at hchar
    exact ⟨.simple e c (simpleEscape_escapeLetter hletter), hchar.symm, rfl⟩
  | none =>
    rw [hletter] at hchar
    have hlt : c.toNat < 0x80 := by
      by_contra hge
      refine hplain ⟨UInt8.lt_iff_toNat_lt.mpr ?_, fun h => ?_, fun h => ?_⟩
      · show 31 < c.toNat
        omega
      · rw [h] at hge
        exact hge (by decide)
      · rw [h] at hge
        exact hge (by decide)
    let d : Utf8Char := asciiChar c (UInt8.lt_iff_toNat_lt.mpr hlt)
    have hcode : d.code = c.toNat := rfl
    refine ⟨.unit (writtenUnit c.toNat (by omega)) d ?_, hchar.symm, rfl⟩
    rw [hcode, utf16, if_pos (by omega)]
    rfl

/-- **A printed string is a literal of the string**. -/
theorem printStringPtr_literal (input : CStr) :
    ∃ s, literalText s = printStringPtr input ∧ literalValue s = input := by
  have hpieces : ∀ bytes : List UInt8, 0 ∉ bytes →
      ∃ s, piecesText s = bytes.flatMap printChar ∧ piecesBytes s = bytes := by
    intro bytes hbytes
    induction bytes with
    | nil => exact ⟨[], rfl, rfl⟩
    | cons c cs ih =>
      obtain ⟨s, htext, hvalue⟩ := ih fun h => hbytes (List.mem_cons_of_mem c h)
      obtain ⟨piece, hpiece, hbyte⟩ := printChar_piece fun h : c = 0 => hbytes (h ▸ List.mem_cons_self)
      refine ⟨piece :: s, ?_, ?_⟩
      · rw [piecesText_cons, hpiece, htext, List.flatMap_cons]
      · rw [piecesBytes_cons, hbyte, hvalue, List.singleton_append]
  obtain ⟨s, htext, hvalue⟩ := hpieces input.bytes input.nulFree
  refine ⟨s, ?_, ?_⟩
  · rw [literalText, htext]
    rfl
  · rw [literalValue, hvalue]
    exact CStr.ofBlock_bytes input

/-! ### Numbers -/

/-- A number is read back as it was printed. -/
def NumberReadsBack (lib : NumberLib ν) (printNumber : ν → CStr) (d : ν) : Prop :=
  ∃ n : NumberText lib, n.text = (printNumber d).bytes ∧ n.value = d

mutual

/-- The numbers in a value. -/
def CjsonValue.numbers : CjsonValue ν → List ν
  | .number valuedouble => [valuedouble]
  | .array child => numbersArray child
  | .object child => numbersObject child
  | _ => []

/-- The same of the items of an array. -/
def numbersArray : List (CjsonValue ν) → List ν
  | [] => []
  | item :: next => item.numbers ++ numbersArray next

/-- The same of the members of an object. -/
def numbersObject : List (CStr × CjsonValue ν) → List ν
  | [] => []
  | (_, item) :: next => item.numbers ++ numbersObject next

end

/-! ### Values -/

/-- There are as many items as values. -/
theorem isEmpty_itemsValue (ts : List (Spaces × JsonSyntax lib × Spaces)) :
    (itemsValue ts).isEmpty = ts.isEmpty := by
  cases ts with
  | nil =>
    rw [itemsValue]
    rfl
  | cons t ts =>
    rw [itemsValue]
    rfl

/-- There are as many members as values. -/
theorem isEmpty_membersValue (ts : List (MemberName × JsonSyntax lib × Spaces)) :
    (membersValue ts).isEmpty = ts.isEmpty := by
  cases ts with
  | nil =>
    rw [membersValue]
    rfl
  | cons t ts =>
    rw [membersValue]
    rfl

/-- White space that is only there with formatting. -/
def Spaces.when (format : Bool) (s : Spaces) : Spaces where
  bytes := if format then s.bytes else []
  wf := by
    cases format
    · exact fun c hc => absurd hc List.not_mem_nil
    · exact s.wf

/-- A space. -/
def spaceWhen (format : Bool) : Spaces := .when format (.ofBytes [0x20] rfl)

/-- A new line. -/
def newlineWhen (format : Bool) : Spaces := .when format (.ofBytes [0x0A] rfl)

/-- Tabs. -/
def tabsWhen (format : Bool) (n : Nat) : Spaces :=
  .when format ⟨List.replicate n 0x09, fun c hc => by
    rw [List.eq_of_mem_replicate hc]
    decide⟩

mutual

/-- **What is printed for a value is a way to write it**. The recursion is that of the printer. -/
theorem renderValue_written (format : Bool) (depth : Nat) :
    ∀ v : CjsonValue ν, (∀ d ∈ v.numbers, NumberReadsBack lib printNumber d) →
      ∃ t : JsonSyntax lib, t.text = renderValue format printNumber depth v ∧ t.value = v
  | .null, _ => ⟨.null, by rw [JsonSyntax.text, renderValue], by rw [JsonSyntax.value]⟩
  | .bool false, _ => ⟨.bool false, by rw [JsonSyntax.text, renderValue], by rw [JsonSyntax.value]⟩
  | .bool true, _ => ⟨.bool true, by rw [JsonSyntax.text, renderValue], by rw [JsonSyntax.value]⟩
  | .number valuedouble, h => by
    rw [CjsonValue.numbers] at h
    obtain ⟨n, htext, hvalue⟩ := h valuedouble List.mem_cons_self
    exact ⟨.number n, by rw [JsonSyntax.text, renderValue, htext],
      by rw [JsonSyntax.value, hvalue]⟩
  | .string valuestring, _ => by
    obtain ⟨s, htext, hvalue⟩ := printStringPtr_literal valuestring
    exact ⟨.string s, by rw [JsonSyntax.text, renderValue, htext],
      by rw [JsonSyntax.value, hvalue]⟩
  | .array child, h => by
    rw [CjsonValue.numbers] at h
    by_cases hchild : child = []
    · subst hchild
      refine ⟨.array .none [], ?_, ?_⟩
      · rw [JsonSyntax.text, itemsText, renderValue, renderArray]
        rfl
      · rw [JsonSyntax.value, itemsValue]
    · obtain ⟨items, htext, hvalue⟩ := renderArray_written format (depth + 1) child h hchild .none
      refine ⟨.array .none items, ?_, ?_⟩
      · rw [JsonSyntax.text, htext, renderValue]
        rfl
      · rw [JsonSyntax.value, hvalue]
  | .object child, h => by
    rw [CjsonValue.numbers] at h
    by_cases hchild : child = []
    · subst hchild
      refine ⟨.object ((newlineWhen format).append (tabsWhen format depth)) [], ?_, ?_⟩
      · rw [JsonSyntax.text, membersText, renderValue, renderObject, Spaces.append, List.append_nil,
          List.append_assoc]
        rfl
      · rw [JsonSyntax.value, membersValue]
    · obtain ⟨members, htext, hvalue⟩ := renderObject_written format (depth + 1) child h hchild .none
        (tabsWhen format depth)
      refine ⟨.object (newlineWhen format) members, ?_, ?_⟩
      · rw [JsonSyntax.text, htext, renderValue]
        simp only [Spaces.none, List.nil_append, List.append_assoc]
        rfl
      · rw [JsonSyntax.value, hvalue]

/-- The items of an array, with white space in front of the first one. -/
theorem renderArray_written (format : Bool) (depth : Nat) :
    ∀ items : List (CjsonValue ν), (∀ d ∈ numbersArray items, NumberReadsBack lib printNumber d) →
      items ≠ [] → ∀ before : Spaces, ∃ ts : List (Spaces × JsonSyntax lib × Spaces),
        itemsText ts = before.bytes ++ renderArray format printNumber depth items
          ∧ itemsValue ts = items
  | [], _, hne, _ => absurd rfl hne
  | item :: next, h, _, before => by
    rw [numbersArray] at h
    obtain ⟨t, htext, hvalue⟩ := renderValue_written format depth item fun d hd =>
      h d (List.mem_append_left _ hd)
    by_cases hnext : next = []
    · subst hnext
      refine ⟨[(before, t, .none)], ?_, ?_⟩
      · rw [itemsText, itemsText, renderArray, renderArray, htext]
        simp only [Spaces.none, commaText, List.append_nil, List.isEmpty_nil, Bool.not_true,
          if_true, Bool.false_eq_true, if_false]
      · rw [itemsValue, itemsValue, hvalue]
    · obtain ⟨ts, htexts, hvalues⟩ := renderArray_written format depth next
        (fun d hd => h d (List.mem_append_right _ hd)) hnext (spaceWhen format)
      have hempty : next.isEmpty = false := List.isEmpty_eq_false_iff.mpr hnext
      have hts : ts.isEmpty = false := by rw [← isEmpty_itemsValue, hvalues, hempty]
      refine ⟨(before, t, .none) :: ts, ?_, ?_⟩
      · rw [itemsText, htexts, renderArray, htext, hts, hempty]
        simp only [Spaces.none, commaText, List.append_nil, List.append_assoc]
        rfl
      · rw [itemsValue, hvalue, hvalues]

/-- The members of an object, with white space in front of the first one and behind the last one. -/
theorem renderObject_written (format : Bool) (depth : Nat) :
    ∀ members : List (CStr × CjsonValue ν),
      (∀ d ∈ numbersObject members, NumberReadsBack lib printNumber d) → members ≠ [] →
      ∀ before after : Spaces, ∃ ts : List (MemberName × JsonSyntax lib × Spaces),
        membersText ts = before.bytes ++ renderObject format printNumber depth members ++ after.bytes
          ∧ membersValue ts = members
  | [], _, hne, _, _ => absurd rfl hne
  | (string, item) :: next, h, _, before, after => by
    rw [numbersObject] at h
    obtain ⟨s, hs, hstring⟩ := printStringPtr_literal string
    obtain ⟨t, htext, hvalue⟩ := renderValue_written format depth item fun d hd =>
      h d (List.mem_append_left _ hd)
    let name : MemberName :=
      { before := before.append (tabsWhen format depth), name := s, between := .none,
        behind := tabsWhen format 1 }
    by_cases hnext : next = []
    · subst hnext
      refine ⟨[(name, t, (newlineWhen format).append after)], ?_, ?_⟩
      · rw [membersText, membersText, renderObject, renderObject, htext]
        simp only [name, hs, Spaces.append, Spaces.none, memberEndText, List.append_nil,
          List.isEmpty_nil, Bool.not_true, if_true, Bool.false_eq_true, if_false,
          List.append_assoc, List.nil_append]
        rfl
      · rw [membersValue, membersValue, hvalue, hstring]
    · obtain ⟨ts, htexts, hvalues⟩ := renderObject_written format depth next
        (fun d hd => h d (List.mem_append_right _ hd)) hnext (newlineWhen format) after
      have hempty : next.isEmpty = false := List.isEmpty_eq_false_iff.mpr hnext
      have hts : ts.isEmpty = false := by rw [← isEmpty_membersValue, hvalues, hempty]
      refine ⟨(name, t, .none) :: ts, ?_, ?_⟩
      · rw [membersText, htexts, renderObject, htext, hts, hempty]
        simp only [name, hs, Spaces.append, Spaces.none, memberEndText, List.append_nil,
          List.append_assoc]
        rfl
      · rw [membersValue, hvalue, hstring, hvalues]

end

/-! ### Texts -/

/-- What `cJSON_Print` returns, as a C string. -/
def renderText (format : Bool) (printNumber : ν → CStr) (item : CjsonValue ν) : CStr where
  bytes := renderValue format printNumber 0 item
  nulFree := renderValue_nulFree format printNumber 0 item

/-- `cJSON_Parse` of what a printer has left in a block. -/
def cjsonReparse (lib : NumberLib ν) (fuel : Nat) (printed : Option (List UInt8)) :
    Exec (Option (CjsonValue ν)) :=
  match printed with
  | none => .ok none
  | some block => cjsonParse lib fuel (some (CStr.ofBlock block))

/-- **A printed value is read back**, whatever the printer's blocks have held: if its text leaves a
byte to spare in `INT_MAX` bytes, if each of its numbers is read back, and if it is nested up to
the limit. A value that is nested deeper is printed, but what is printed is refused. -/
theorem cjsonParse_cjsonPrint (junk : Nat → UInt8) (hnumber : ∀ d, strlen (printNumber d) ≤ 25)
    (item : CjsonValue ν) (hitem : ∀ d ∈ item.numbers, NumberReadsBack lib printNumber d)
    (hfits : (renderValue format printNumber 0 item).length + 2 ≤ cIntMax) :
    Settles (fun fuel => cjsonPrint junk printNumber item format >>= cjsonReparse lib fuel)
      fun r => r = if item.nesting ≤ cjsonNestingLimit then some item else none := by
  obtain ⟨r, hr, hprinted⟩ := cjsonPrint_text junk hnumber item format
  cases r with
  | none => exact absurd rfl (hprinted.fits hfits)
  | some block =>
    have hblock : CStr.ofBlock block = renderText format printNumber item :=
      CStr.ofBlock_of_prefix (hprinted.text block rfl)
    obtain ⟨t, htext, hvalue⟩ := renderValue_written format 0 item hitem
    have hbytes : (renderText format printNumber item).bytes = Spaces.none.bytes ++ (t.text ++ []) := by
      rw [List.append_nil, htext]
      rfl
    have hparse := cjsonParse_text t .none hbytes ⟨0, [], rfl, rfl⟩
    rw [hvalue] at hparse
    refine (congrArg (Settles · _) (funext fun fuel => ?_)).mpr hparse
    rw [hr, exec_ok_bind, cjsonReparse, hblock]

/-- A digit is read back. -/
theorem digit_readsBack (d : Fin 10) : NumberReadsBack digitLib printDigit d :=
  ⟨digitText d, rfl, rfl⟩

/-- The round trip of the object `{"a": [1, "\n"]}`. -/
theorem cjsonParse_cjsonPrint_one :
    let item : CjsonValue (Fin 10) :=
      .object [(⟨[0x61], by decide⟩, .array [.number 1, .string ⟨[0x0A], by decide⟩])]
    Settles (fun fuel => cjsonPrint (fun _ => 0xFF) printDigit item true >>= cjsonReparse digitLib fuel)
      fun r => r = if item.nesting ≤ cjsonNestingLimit then some item else none :=
  cjsonParse_cjsonPrint _ (by decide) _ (fun d _ => digit_readsBack d) (by decide +kernel)

end Wee
