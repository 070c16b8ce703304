import Wee.Base.CjsonRoundTrip
import Wee.Dubbo.AsciiText

/-! # Rebuilding the arguments of a call (`rebuild_json_args` in `dubbo_client/dubbo_codec.c`)

The arguments of a call are given as the text of an array or of an object. They are sent as the text
of an array in ASCII: its items are the items of the array, or the values of the members. What is
printed for a value stays a way to write it when its characters are escaped. -/

namespace Wee

variable {ν : Type} {lib : NumberLib ν} {printNumber : ν → CStr}

/-! ### The function -/

mutual

/-- `cJSON_Duplicate`, with the children. -/
def cjsonDuplicate : CjsonValue ν → CjsonValue ν
  | .null => .null
  | .bool b => .bool b
  | .number valuedouble => .number valuedouble
  | .string valuestring => .string valuestring
  | .array child => .array (duplicateItems child)
  | .object child => .object (duplicateMembers child)

/-- The loop of `cJSON_Duplicate` over items. -/
def duplicateItems : List (CjsonValue ν) → List (CjsonValue ν)
  | [] => []
  | child :: next => cjsonDuplicate child :: duplicateItems next

/-- The same over members. -/
def duplicateMembers : List (CStr × CjsonValue ν) → List (CStr × CjsonValue ν)
  | [] => []
  | (string, child) :: next => (string, cjsonDuplicate child) :: duplicateMembers next

end

/-- The chain `child`, without the names of its items. -/
def CjsonValue.children : CjsonValue ν → List (CjsonValue ν)
  | .array child => child
  | .object child => child.map Prod.snd
  | _ => []

/-- The loop of `rebuild_json_args`; `cJSON_AddItemToArray` puts an item behind the others. -/
def rebuildLoop : List (CjsonValue ν) → List (CjsonValue ν) → List (CjsonValue ν)
  | [], arr => arr
  | el :: next, arr => rebuildLoop next (arr ++ [cjsonDuplicate el])

/-- `rebuild_json_args`. -/
def rebuildJsonArgs (lib : NumberLib ν) (printNumber : ν → CStr) (junk : Nat → UInt8) (fuel : Nat)
    (jsonStr : CStr) : Exec (Option (List UInt8)) := do
  let root ← cjsonParse lib fuel (some jsonStr)
  match root with
  | none => return none
  | some root =>
    if !root.isNested then return none
    else do
      let utf8Json ← cjsonPrint junk printNumber (.array (rebuildLoop root.children [])) false
      match utf8Json with
      -- `strlen` of `NULL`
      | none => .error .outOfBounds
      | some block => utf82ascii fuel (CStr.ofBlock block)

/-! ### Copies -/

mutual

/-- A copy is the same value. -/
theorem cjsonDuplicate_eq : ∀ v : CjsonValue ν, cjsonDuplicate v = v
  | .null => by rw [cjsonDuplicate]
  | .bool b => by rw [cjsonDuplicate]
  | .number valuedouble => by rw [cjsonDuplicate]
  | .string valuestring => by rw [cjsonDuplicate]
  | .array child => by rw [cjsonDuplicate, duplicateItems_eq child]
  | .object child => by rw [cjsonDuplicate, duplicateMembers_eq child]

/-- The items of an array. -/
theorem duplicateItems_eq : ∀ items : List (CjsonValue ν), duplicateItems items = items
  | [] => by rw [duplicateItems]
  | child :: next => by rw [duplicateItems, cjsonDuplicate_eq child, duplicateItems_eq next]

/-- The members of an object. -/
theorem duplicateMembers_eq : ∀ members : List (CStr × CjsonValue ν), duplicateMembers members = members
  | [] => by rw [duplicateMembers]
  | (string, child) :: next => by
    rw [duplicateMembers, cjsonDuplicate_eq child, duplicateMembers_eq next]

end

/-- `out` is the UTF-8 text `bytes` with its characters escaped. -/
def Escapes (bytes out : List UInt8) : Prop :=
  ∃ s, utf8Bytes s = bytes ∧ charBytes (escapeText (utf8Codes s)) = out

/-- Texts one behind the other. -/
theorem Escapes.append {bytes out bytes' out' : List UInt8} (h : Escapes bytes out)
    (h' : Escapes bytes' out') : Escapes (bytes ++ bytes') (out ++ out') := by
  obtain ⟨s, rfl, rfl⟩ := h
  obtain ⟨t, rfl, rfl⟩ := h'
  refine ⟨s ++ t, ?_, ?_⟩
  · rw [utf8Bytes, List.flatMap_append]
    rfl
  · rw [utf8Codes, List.map_append, escapeText, List.flatMap_append, charBytes, List.map_append]
    rfl

/-- ASCII is left as it is. -/
theorem escapes_ascii {bytes : List UInt8} (h : ∀ c ∈ bytes, c < 0x80) : Escapes bytes bytes := by
  obtain ⟨s, hs, hcodes⟩ := exists_utf8_codes_of_ascii bytes h
  refine ⟨s, hs, ?_⟩
  rw [utf8Codes, hcodes, escapeText, charBytes]
  clear hs hcodes
  induction bytes with
  | nil => rfl
  | cons c cs ih =>
    have hc := UInt8.lt_iff_toNat_lt.mp (h c List.mem_cons_self)
    change c.toNat < 0x80 at hc
    rw [List.map_cons, List.flatMap_cons, List.map_append,
      ih fun d hd => h d (List.mem_cons_of_mem c hd), escapeChar, if_pos (by omega), List.map_cons,
      UInt8.ofNat_toNat]
    rfl

/-- The same of given characters. -/
theorem escapes_word {bytes : List UInt8} (h : (bytes.all fun c => decide (c < 0x80)) = true) :
    Escapes bytes bytes :=
  escapes_ascii fun c hc => of_decide_eq_true (List.all_eq_true.mp h c hc)

/-- A character is one byte of ASCII, or its bytes are all above ASCII. -/
theorem Utf8Char.ascii_or (c : Utf8Char) :
    (∃ a, c.bytes = [a] ∧ a < 0x80) ∨ (∀ b ∈ c.bytes, ¬ b < 0x80) ∧ ¬ c.code ≤ 0x7F := by
  have hform := c.form
  obtain ⟨bytes, hwf⟩ := c
  dsimp only at hform ⊢
  simp only [UInt8.lt_iff_toNat_lt]
  cases hform with
  | one ha => exact .inl ⟨_, rfl, ha⟩
  | two hlo hhi hb =>
    obtain ⟨hblo, hbhi⟩ := hb
    refine .inr ⟨?_, by dsimp only [Utf8Char.code]; omega⟩
    simp only [List.forall_mem_cons, UInt8.reduceToNat]
    exact ⟨by omega, by omega, fun _ h => absurd h List.not_mem_nil⟩
  | three hlo hhi hb hc hE0 hED =>
    obtain ⟨hblo, hbhi⟩ := hb
    obtain ⟨hclo, hchi⟩ := hc
    refine .inr ⟨?_, by dsimp only [Utf8Char.code]; omega⟩
    simp only [List.forall_mem_cons, UInt8.reduceToNat]
    exact ⟨by omega, by omega, by omega, fun _ h => absurd h List.not_mem_nil⟩
  | four hlo hhi hb hc hd hF0 hF4 =>
    obtain ⟨hblo, hbhi⟩ := hb
    obtain ⟨hclo, hchi⟩ := hc
    obtain ⟨hdlo, hdhi⟩ := hd
    refine .inr ⟨?_, by dsimp only [Utf8Char.code]; omega⟩
    simp only [List.forall_mem_cons, UInt8.reduceToNat]
    exact ⟨by omega, by omega, by omega, by omega, fun _ h => absurd h List.not_mem_nil⟩

/-- A character above ASCII is escaped as a piece of a literal that stands for it. -/
theorem escapes_char (c : Utf8Char) (hc : ¬ c.code ≤ 0x7F) :
    ∃ piece : StringPiece, Escapes c.bytes piece.text ∧ piece.bytes = c.bytes := by
  have hlt := c.code_lt
  have hbytes : utf8Bytes [c] = c.bytes := by rw [utf8Bytes_cons, utf8Bytes_nil, List.append_nil]
  have hcodes : escapeText (utf8Codes [c]) = (utf16 c.code).flatMap escapeUnit := by
    rw [utf8Codes, List.map_cons, List.map_nil, escapeText_cons, escapeText_nil, List.append_nil,
      escapeChar, if_neg hc]
  by_cases hunit : c.code < 0x10000
  · have hutf16 : utf16 c.code = [c.code] := by rw [utf16, if_pos hunit]
    refine ⟨.unit (writtenUnit c.code hunit) c hutf16, ⟨[c], hbytes, ?_⟩, rfl⟩
    rw [hcodes, hutf16]
    rfl
  · have hutf16 : utf16 c.code
        = [0xD800 + (c.code - 0x10000) / 0x400, 0xDC00 + (c.code - 0x10000) % 0x400] := by
      rw [utf16, if_neg hunit]
    refine ⟨.pair (writtenUnit _ (by omega)) (writtenUnit _ (by omega)) c hutf16,
      ⟨[c], hbytes, ?_⟩, rfl⟩
    rw [hcodes, hutf16]
    rfl

/-- What is printed for an ASCII character is ASCII. -/
theorem printChar_ascii {c : UInt8} (h : c < 0x80) : ∀ d ∈ printChar c, d < 0x80 := by
  have hall : ∀ n < 0x80, ∀ d ∈ printChar (UInt8.ofNat n), d < 0x80 := by decide +kernel
  have hc := hall c.toNat (UInt8.lt_iff_toNat_lt.mp h)
  rwa [UInt8.ofNat_toNat] at hc

/-- Bytes above ASCII are printed as they are. -/
theorem flatMap_printChar_high {bytes : List UInt8} (h : ∀ b ∈ bytes, ¬ b < 0x80) :
    bytes.flatMap printChar = bytes := by
  induction bytes with
  | nil => rfl
  | cons b bs ih =>
    have hb := h b List.mem_cons_self
    rw [UInt8.lt_iff_toNat_lt] at hb
    change ¬ b.toNat < 128 at hb
    have hplain : 31 < b ∧ b ≠ 0x22 ∧ b ≠ 0x5C := by
      refine ⟨UInt8.lt_iff_toNat_lt.mpr (show 31 < b.toNat by omega), ?_, ?_⟩
      · rintro rfl
        exact hb (by decide)
      · rintro rfl
        exact hb (by decide)
    rw [List.flatMap_cons, printChar_plain hplain, ih fun c hc => h c (List.mem_cons_of_mem b hc),
      List.singleton_append]

/-- Numbers are written in ASCII. -/
theorem isNumberText_ascii {c : UInt8} (h : isNumberText c = true) : c < 0x80 := by
  have hall : ∀ n < 256, isNumberText (UInt8.ofNat n) = true → UInt8.ofNat n < 0x80 := by
    decide +kernel
  have hc := hall c.toNat c.toNat_lt
  rw [UInt8.ofNat_toNat] at hc
  exact hc h

/-- **A printed string is a literal of the string when it is escaped**, if it is UTF-8. The induction
is on its characters. -/
theorem printStringPtr_escapes {input : CStr} (h : WellFormedUtf8 input.bytes) :
    ∃ s, Escapes (printStringPtr input) (literalText s) ∧ literalValue s = input := by
  have hpieces : ∀ cs : List Utf8Char, 0 ∉ utf8Bytes cs → ∃ s,
      Escapes ((utf8Bytes cs).flatMap printChar) (piecesText s) ∧ piecesBytes s = utf8Bytes cs := by
    intro cs hnul
    induction cs with
    | nil => exact ⟨[], escapes_word rfl, rfl⟩
    | cons c cs ih =>
      rw [utf8Bytes_cons, List.mem_append, not_or] at hnul
      obtain ⟨s, hs, hvalue⟩ := ih hnul.2
      have hpiece : ∃ piece : StringPiece,
          Escapes (c.bytes.flatMap printChar) piece.text ∧ piece.bytes = c.bytes := by
        rcases c.ascii_or with ⟨a, ha, hlt⟩ | ⟨hhigh, hcode⟩
        · have hne : a ≠ 0 := by
            rintro rfl
            exact hnul.1 (ha ▸ List.mem_cons_self)
          obtain ⟨piece, htext, hbytes⟩ := printChar_piece hne
          refine ⟨piece, ?_, hbytes.trans ha.symm⟩
          rw [ha, htext, List.flatMap_cons, List.flatMap_nil, List.append_nil]
          exact escapes_ascii (printChar_ascii hlt)
        · rw [flatMap_printChar_high hhigh]
          exact escapes_char c hcode
      obtain ⟨piece, hescapes, hbytes⟩ := hpiece
      refine ⟨piece :: s, ?_, ?_⟩
      · rw [utf8Bytes_cons, List.flatMap_append, piecesText_cons]
        exact hescapes.append hs
      · rw [piecesBytes_cons, hbytes, hvalue, utf8Bytes_cons]
  obtain ⟨cs, hcs⟩ := h
  obtain ⟨s, hs, hvalue⟩ := hpieces cs (hcs ▸ input.nulFree)
  rw [hcs] at hs hvalue
  have hquote : Escapes [0x22] [0x22] := escapes_word rfl
  refine ⟨s, (hquote.append hs).append hquote, ?_⟩
  rw [literalValue, hvalue]
  exact CStr.ofBlock_bytes input

/-! ### Values -/

mutual

/-- The strings and the names in a value are UTF-8. -/
def CjsonValue.Utf8 : CjsonValue ν → Prop
  | .string valuestring => WellFormedUtf8 valuestring.bytes
  | .array child => utf8Array child
  | .object child => utf8Object child
  | _ => True

/-- The same of the items of an array. -/
def utf8Array : List (CjsonValue ν) → Prop
  | [] => True
  | item :: next => item.Utf8 ∧ utf8Array next

/-- The same of the members of an object. -/
def utf8Object : List (CStr × CjsonValue ν) → Prop
  | [] => True
  | (string, item) :: next => WellFormedUtf8 string.bytes ∧ item.Utf8 ∧ utf8Object next

end

/-- The comma between two items. -/
theorem escapes_comma (p : Bool) :
    Escapes (if p then [] else [0x2C]) (if p then [] else [0x2C]) := by
  cases p
  · exact escapes_word rfl
  · exact escapes_word rfl

mutual

/-- **What is printed for a value is a way to write it when it is escaped**. The recursion is that of
the printer. -/
theorem printValue_escapes :
    ∀ v : CjsonValue ν, v.Utf8 → (∀ d ∈ v.numbers, NumberReadsBack lib printNumber d) →
      ∃ t : JsonSyntax lib, Escapes (printValue printNumber v) t.text ∧ t.value = v
  | .null, _, _ => ⟨.null, by rw [JsonSyntax.text, printValue]; exact escapes_word rfl,
    by rw [JsonSyntax.value]⟩
  | .bool false, _, _ => ⟨.bool false,
    by rw [JsonSyntax.text, printValue]; exact escapes_word rfl, by rw [JsonSyntax.value]⟩
  | .bool true, _, _ => ⟨.bool true,
    by rw [JsonSyntax.text, printValue]; exact escapes_word rfl, by rw [JsonSyntax.value]⟩
  | .number valuedouble, _, hnumbers => by
    rw [CjsonValue.numbers] at hnumbers
    obtain ⟨n, htext, hvalue⟩ := hnumbers valuedouble List.mem_cons_self
    refine ⟨.number n, ?_, by rw [JsonSyntax.value, hvalue]⟩
    rw [JsonSyntax.text, printValue, ← htext]
    exact escapes_ascii fun c hc => isNumberText_ascii (n.chars c hc)
  | .string valuestring, hutf8, _ => by
    rw [CjsonValue.Utf8] at hutf8
    obtain ⟨s, htext, hvalue⟩ := printStringPtr_escapes hutf8
    exact ⟨.string s, by rw [JsonSyntax.text, printValue]; exact htext,
      by rw [JsonSyntax.value, hvalue]⟩
  | .array child, hutf8, hnumbers => by
    rw [CjsonValue.Utf8] at hutf8
    rw [CjsonValue.numbers] at hnumbers
    obtain ⟨items, htext, hvalue⟩ := printArray_escapes child hutf8 hnumbers
    refine ⟨.array .none items, ?_, by rw [JsonSyntax.value, hvalue]⟩
    rw [JsonSyntax.text, printValue]
    exact ((escapes_word rfl).append htext).append (escapes_word rfl)
  | .object child, hutf8, hnumbers => by
    rw [CjsonValue.Utf8] at hutf8
    rw [CjsonValue.numbers] at hnumbers
    obtain ⟨members, htext, hvalue⟩ := printObject_escapes child hutf8 hnumbers
    refine ⟨.object .none members, ?_, by rw [JsonSyntax.value, hvalue]⟩
    rw [JsonSyntax.text, printValue]
    exact ((escapes_word rfl).append htext).append (escapes_word rfl)

/-- The items of an array. -/
theorem printArray_escapes :
    ∀ items : List (CjsonValue ν), utf8Array items →
      (∀ d ∈ numbersArray items, NumberReadsBack lib printNumber d) →
      ∃ ts : List (Spaces × JsonSyntax lib × Spaces),
        Escapes (printArray printNumber items) (itemsText ts) ∧ itemsValue ts = items
  | [], _, _ => ⟨[], by rw [printArray, itemsText]; exact escapes_word rfl,
    by rw [itemsValue]⟩
  | item :: next, hutf8, hnumbers => by
    rw [utf8Array] at hutf8
    rw [numbersArray] at hnumbers
    obtain ⟨t, htext, hvalue⟩ := printValue_escapes item hutf8.1 fun d hd =>
      hnumbers d (List.mem_append_left _ hd)
    obtain ⟨ts, htexts, hvalues⟩ := printArray_escapes next hutf8.2 fun d hd =>
      hnumbers d (List.mem_append_right _ hd)
    have hempty : ts.isEmpty = next.isEmpty := by rw [← isEmpty_itemsValue, hvalues]
    refine ⟨(.none, t, .none) :: ts, ?_, by rw [itemsValue, hvalue, hvalues]⟩
    rw [printArray, itemsText, hempty, Spaces.none, List.nil_append, List.append_nil]
    exact (htext.append (escapes_comma _)).append htexts

/-- The members of an object. -/
theorem printObject_escapes :
    ∀ members : List (CStr × CjsonValue ν), utf8Object members →
      (∀ d ∈ numbersObject members, NumberReadsBack lib printNumber d) →
      ∃ ts : List (MemberName × JsonSyntax lib × Spaces),
        Escapes (printObject printNumber members) (membersText ts) ∧ membersValue ts = members
  | [], _, _ => ⟨[], by rw [printObject, membersText]; exact escapes_word rfl,
    by rw [membersValue]⟩
  | (string, item) :: next, hutf8, hnumbers => by
    rw [utf8Object] at hutf8
    rw [numbersObject] at hnumbers
    obtain ⟨s, hs, hstring⟩ := printStringPtr_escapes hutf8.1
    obtain ⟨t, htext, hvalue⟩ := printValue_escapes item hutf8.2.1 fun d hd =>
      hnumbers d (List.mem_append_left _ hd)
    obtain ⟨ts, htexts, hvalues⟩ := printObject_escapes next hutf8.2.2 fun d hd =>
      hnumbers d (List.mem_append_right _ hd)
    have hempty : ts.isEmpty = next.isEmpty := by rw [← isEmpty_membersValue, hvalues]
    let name : MemberName := { before := .none, name := s, between := .none, behind := .none }
    refine ⟨(name, t, .none) :: ts, ?_, by rw [membersValue, hvalue, hstring, hvalues]⟩
    rw [printObject, membersText, hempty]
    simp only [name, Spaces.none, List.nil_append, List.append_nil]
    have hcolon : Escapes [0x3A] [0x3A] := escapes_word rfl
    exact (((hs.append hcolon).append htext).append (escapes_comma _)).append htexts

end

/-! ### Children -/

/-- The digits of an escape are not NUL. -/
theorem escapeUnit_nulFree (u : Nat) : 0 ∉ (escapeUnit u).map UInt8.ofNat := by
  have hdigit (n : Nat) : (0 : UInt8) ≠ UInt8.ofNat (hexChar (n % 16)) := by
    intro h
    have hzero := toNat_hexChar n
    rw [← h] at hzero
    unfold hexChar at hzero
    split at hzero
    · exact absurd hzero (show ¬ 0 = _ by omega)
    · exact absurd hzero (show ¬ 0 = _ by omega)
  simp only [escapeUnit, List.map_cons, List.map_nil, List.mem_cons, List.not_mem_nil, or_false,
    not_or]
  exact ⟨by decide, by decide, hdigit _, hdigit _, hdigit _, hdigit _⟩

/-- An escaped text has no NUL either. -/
theorem Escapes.nulFree {bytes out : List UInt8} (h : Escapes bytes out) (hbytes : 0 ∉ bytes) :
    0 ∉ out := by
  obtain ⟨s, rfl, rfl⟩ := h
  induction s with
  | nil => exact List.not_mem_nil
  | cons c s ih =>
    rw [utf8Bytes_cons, List.mem_append, not_or] at hbytes
    rw [utf8Codes, List.map_cons, escapeText_cons, charBytes, List.map_append, List.mem_append,
      not_or]
    refine ⟨?_, ih hbytes.2⟩
    rcases c.ascii_or with ⟨a, ha, hlt⟩ | ⟨-, hcode⟩
    · have hcode : c.code = a.toNat := by rw [Utf8Char.code, ha]
      rw [UInt8.lt_iff_toNat_lt] at hlt
      change a.toNat < 128 at hlt
      rw [hcode, escapeChar, if_pos (by omega), List.map_cons, List.map_nil, UInt8.ofNat_toNat, ← ha]
      exact hbytes.1
    · rw [escapeChar, if_neg hcode, List.map_flatMap]
      intro h
      obtain ⟨u, -, hu⟩ := List.mem_flatMap.mp h
      exact escapeUnit_nulFree u hu

end Wee
