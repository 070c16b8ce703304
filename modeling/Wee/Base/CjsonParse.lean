import Wee.Base.CjsonItems
import Wee.Lib.Memory
import Wee.Lib.Ring

/-! # Parsing JSON (`base/cJSON.c`)

The parser reads a string with its NUL through a `parse_buffer`. Every load outside the string and
its NUL, and every store outside the block that `parse_string` allocates, faults. The items that a
parse builds are the tree that is returned, and those of a failed parse are freed as a whole.
`strtod` and the decimal point of the locale are parameters. No allocation fails. -/

namespace Wee

/-! ### The buffer -/

/-- `CJSON_NESTING_LIMIT`. -/
def cjsonNestingLimit : Nat := 1000

/-- `parse_buffer`. -/
structure ParseBuffer where
  /-- The bytes, with the NUL. -/
  content : List UInt8
  /-- How many bytes there are to read. -/
  length : Nat
  /-- The index of the next byte. -/
  offset : Nat
  /-- How many arrays and objects the next byte is in. -/
  depth : Nat
  deriving DecidableEq

namespace ParseBuffer

/-- `can_read`. -/
abbrev CanRead (b : ParseBuffer) (size : Nat) : Prop := b.offset + size ≤ b.length

/-- `can_access_at_index`. -/
abbrev CanAccessAtIndex (b : ParseBuffer) (index : Nat) : Prop := b.offset + index < b.length

/-- `buffer_at_offset(b)[index]`. -/
def atOffset (b : ParseBuffer) (index : Nat) : Exec UInt8 :=
  cellLoad b.content (b.offset + index)

/-- `b->offset += n`. -/
def advance (b : ParseBuffer) (n : Nat) : ParseBuffer := { b with offset := b.offset + n }

/-- `b->offset--`. -/
def back (b : ParseBuffer) : ParseBuffer := { b with offset := b.offset - 1 }

/-- `can_access_at_index(b, 0) && p(buffer_at_offset(b)[0])`. -/
def isAt (b : ParseBuffer) (p : UInt8 → Bool) : Exec Bool :=
  if b.CanAccessAtIndex 0 then do
    let c ← b.atOffset 0
    return p c
  else .ok false

end ParseBuffer

/-- `strncmp(content + i, word, n) == 0` for a word of `n` characters. -/
def wordAt (content : List UInt8) : Nat → List UInt8 → Exec Bool
  | _, [] => .ok true
  | i, w :: word => do
    let c ← cellLoad content i
    -- the comparison ends at the first difference
    if c = w then wordAt content (i + 1) word else return false

/-- `can_read(b, n) && strncmp(buffer_at_offset(b), word, n) == 0`. -/
def ParseBuffer.isWord (b : ParseBuffer) (word : List UInt8) : Exec Bool :=
  if b.CanRead word.length then wordAt b.content b.offset word else .ok false

/-- The loop of `buffer_skip_whitespace`. -/
def skipWhitespaceLoop : Nat → ParseBuffer → Exec ParseBuffer
  | 0, _ => .error .outOfFuel
  | fuel + 1, b =>
    if b.CanAccessAtIndex 0 then do
      let c ← b.atOffset 0
      if c ≤ 32 then skipWhitespaceLoop fuel (b.advance 1) else return b
    else .ok b

/-- `buffer_skip_whitespace`. -/
def bufferSkipWhitespace (fuel : Nat) (b : ParseBuffer) : Exec ParseBuffer := do
  let b ← skipWhitespaceLoop fuel b
  -- the NUL has been skipped as well
  return if b.offset = b.length then b.back else b

/-! ### Numbers -/

/-- What depends on `double` and on the locale. -/
structure NumberLib (ν : Type) where
  /-- `strtod`: the number, and how many characters it is read from. -/
  strtod : List UInt8 → ν × Nat
  /-- `get_decimal_point`. -/
  decimalPoint : UInt8

/-- The characters that `parse_number` copies as they are. -/
def isNumberChar (c : UInt8) : Bool :=
  0x30 ≤ c && c ≤ 0x39 || c == 0x2B || c == 0x2D || c == 0x65 || c == 0x45

/-- The loop of `parse_number` with room for `n` more characters: what it adds to
`number_c_string`. -/
def numberLoop (decimalPoint : UInt8) (b : ParseBuffer) : Nat → Nat → Exec (List UInt8)
  | 0, _ => .ok []
  | n + 1, i =>
    if b.CanAccessAtIndex i then do
      let c ← b.atOffset i
      if isNumberChar c then do
        let cs ← numberLoop decimalPoint b n (i + 1)
        return c :: cs
      else if c = 0x2E then do
        let cs ← numberLoop decimalPoint b n (i + 1)
        return decimalPoint :: cs
      else return []
    else .ok []

variable {ν : Type}

/-- `parse_number`: `number_c_string` has 64 bytes, the last one for the NUL. -/
def parseNumber (lib : NumberLib ν) (b : ParseBuffer) :
    Exec (Option (CjsonValue ν) × ParseBuffer) := do
  let numberCString ← numberLoop lib.decimalPoint b 63 0
  let (number, afterEnd) := lib.strtod numberCString
  if afterEnd = 0 then return (none, b) else return (some (.number number), b.advance afterEnd)

/-! ### Strings -/

/-- `parse_hex4` from the index `input` on, with `n` digits to go. -/
def parseHex4 (content : List UInt8) : Nat → Nat → Nat → Exec Nat
  | 0, _, h => .ok h
  | n + 1, input, h => do
    let c ← cellLoad content input
    match hexDigit c.toNat with
    | some d => parseHex4 content n (input + 1) (if n = 0 then h + d else (h + d) <<< 4)
    | none => return 0

/-- The loop of `utf16_literal_to_utf8` that stores continuation bytes: `n` of them are left. -/
def utf8Tails : Nat → Nat → List UInt8 → Nat × List UInt8
  | 0, codepoint, tails => (codepoint, tails)
  | n + 1, codepoint, tails =>
    utf8Tails n (codepoint >>> 6) (UInt8.ofNat ((codepoint ||| 0x80) &&& 0xBF) :: tails)

/-- The UTF-8 bytes of `codepoint`, as `utf16_literal_to_utf8` makes them. -/
def encodeUtf8 (codepoint : Nat) : Option (List UInt8) :=
  let bytes (utf8Length firstByteMark : Nat) : List UInt8 :=
    let (codepoint, tails) := utf8Tails (utf8Length - 1) codepoint []
    UInt8.ofNat ((codepoint ||| firstByteMark) &&& 0xFF) :: tails
  if codepoint < 0x80 then some [UInt8.ofNat (codepoint &&& 0x7F)]
  else if codepoint < 0x800 then some (bytes 2 0xC0)
  else if codepoint < 0x10000 then some (bytes 3 0xE0)
  else if codepoint ≤ 0x10FFFF then some (bytes 4 0xF0)
  else none

/-- The code point of the literal at `first` and how many characters it has, in
`utf16_literal_to_utf8`. -/
def utf16Codepoint (content : List UInt8) (first inputEnd : Nat) : Exec (Option (Nat × Nat)) :=
  if inputEnd < first + 6 then .ok none
  else do
    let firstCode ← parseHex4 content 4 (first + 2) 0
    if 0xDC00 ≤ firstCode ∧ firstCode ≤ 0xDFFF then return none
    else if 0xD800 ≤ firstCode ∧ firstCode ≤ 0xDBFF then
      -- the second half of the pair has to follow
      if inputEnd < first + 12 then return none
      else do
        let c ← cellLoad content (first + 6)
        if c ≠ 0x5C then return none
        else do
          let u ← cellLoad content (first + 7)
          if u ≠ 0x75 then return none
          else do
            let secondCode ← parseHex4 content 4 (first + 8) 0
            if secondCode < 0xDC00 ∨ 0xDFFF < secondCode then return none
            else
              let codepoint := 0x10000 + (((firstCode &&& 0x3FF) <<< 10) ||| (secondCode &&& 0x3FF))
              return some (codepoint, 12)
    else return some (firstCode, 6)

/-- The block that `parse_string` allocates, and `output_pointer`. -/
structure ParseOutput where
  /-- The bytes of the block. -/
  output : List UInt8
  /-- The index of the next byte to store. -/
  pointer : Nat

/-- Store bytes and move `output_pointer` behind them. -/
def ParseOutput.put (o : ParseOutput) (bytes : List UInt8) : Exec ParseOutput := do
  let output ← memStore o.output o.pointer bytes
  return { output := output, pointer := o.pointer + bytes.length }

/-- `utf16_literal_to_utf8`: the length of the literal, 0 for a failure, and the output. -/
def utf16LiteralToUtf8 (content : List UInt8) (inputPointer inputEnd : Nat) (o : ParseOutput) :
    Exec (Nat × ParseOutput) := do
  let literal ← utf16Codepoint content inputPointer inputEnd
  match literal with
  | none => return (0, o)
  | some (codepoint, sequenceLength) =>
    match encodeUtf8 codepoint with
    | none => return (0, o)
    | some bytes => do
      let o ← o.put bytes
      return (sequenceLength, o)

/-- The loop of `parse_string` that looks for the end: `none` for its `goto fail`, or `input_end`
and `skipped_bytes`. -/
def stringEndLoop (b : ParseBuffer) : Nat → Nat → Nat → Exec (Option (Nat × Nat))
  | 0, _, _ => .error .outOfFuel
  | fuel + 1, inputEnd, skippedBytes =>
    if inputEnd < b.length then do
      let c ← cellLoad b.content inputEnd
      if c = 0x22 then return some (inputEnd, skippedBytes)
      else if c = 0x5C then
        if b.length ≤ inputEnd + 1 then return none
        else stringEndLoop b fuel (inputEnd + 2) (skippedBytes + 1)
      else stringEndLoop b fuel (inputEnd + 1) skippedBytes
    else .ok (some (inputEnd, skippedBytes))

/-- The loop of `parse_string` over the literal: `input_pointer`, and the output or `none` for its
`goto fail`. -/
def stringLoop (content : List UInt8) (inputEnd : Nat) :
    Nat → Nat → ParseOutput → Exec (Nat × Option ParseOutput)
  | 0, _, _ => .error .outOfFuel
  | fuel + 1, inputPointer, o =>
    if inputPointer < inputEnd then do
      let c ← cellLoad content inputPointer
      if c ≠ 0x5C then do
        let o ← o.put [c]
        stringLoop content inputEnd fuel (inputPointer + 1) o
      else if inputEnd < inputPointer + 1 then return (inputPointer, none)
      else do
        let e ← cellLoad content (inputPointer + 1)
        if e = 0x75 then do
          let (sequenceLength, o) ← utf16LiteralToUtf8 content inputPointer inputEnd o
          if sequenceLength = 0 then return (inputPointer, none)
          else stringLoop content inputEnd fuel (inputPointer + sequenceLength) o
        else
          match simpleEscape e.toNat with
          | some u => do
            let o ← o.put [UInt8.ofNat u]
            stringLoop content inputEnd fuel (inputPointer + 2) o
          | none => return (inputPointer, none)
    else .ok (inputPointer, some o)

/-- The C string in a block. -/
def CStr.ofBlock (block : List UInt8) : CStr where
  bytes := block.takeWhile (· ≠ 0)
  nulFree := fun h => absurd (List.all_eq_true.mp List.all_takeWhile 0 h) (by decide)

/-- `parse_string` behind its first loop: `input_end` stands on the closing quotation mark. -/
def parseStringBody (fuel : Nat) (b : ParseBuffer) (inputEnd skippedBytes : Nat) :
    Exec (Option CStr × ParseBuffer) := do
  let allocationLength := inputEnd - b.offset - skippedBytes
  -- one byte more for the NUL
  let o := { output := List.replicate (allocationLength + 1) 0, pointer := 0 }
  let (inputPointer, o) ← stringLoop b.content inputEnd fuel (b.offset + 1) o
  match o with
  | none => return (none, { b with offset := inputPointer })
  | some o => do
    let o ← o.put [0]
    return (some (CStr.ofBlock o.output), { b with offset := inputEnd + 1 })

/-- `parse_string`. -/
def parseString (fuel : Nat) (b : ParseBuffer) : Exec (Option CStr × ParseBuffer) := do
  let c ← b.atOffset 0
  if c ≠ 0x22 then return (none, b.advance 1)
  else do
    let r ← stringEndLoop b fuel (b.offset + 1) 0
    match r with
    | none => return (none, b.advance 1)
    | some (inputEnd, skippedBytes) =>
      if b.length ≤ inputEnd then return (none, b.advance 1)
      else do
        let q ← cellLoad b.content inputEnd
        if q ≠ 0x22 then return (none, b.advance 1)
        else parseStringBody fuel b inputEnd skippedBytes

/-! ### Arrays and objects -/

/-- A function that parses one item of a list: `parse_value`, or a name with its value. -/
abbrev ItemParser (α : Type) := ParseBuffer → Exec (Option α × ParseBuffer)

variable {α : Type}

/-- The loop of `parse_array` and of `parse_object`, from the character in front of an item on, and
the test for `close` behind it. -/
def itemsLoop (parseItem : ItemParser α) (close : UInt8) :
    Nat → ParseBuffer → List α → Exec (Option (List α) × ParseBuffer)
  | 0, _, _ => .error .outOfFuel
  | fuel + 1, b, items => do
    let b ← bufferSkipWhitespace fuel (b.advance 1)
    let (item, b) ← parseItem b
    match item with
    | none => return (none, b)
    | some item => do
      let b ← bufferSkipWhitespace fuel b
      let comma ← b.isAt (· == 0x2C)
      if comma then itemsLoop parseItem close fuel b (items ++ [item])
      else do
        let closed ← b.isAt (· == close)
        return (if closed then some (items ++ [item]) else none, b)

/-- `parse_array` and `parse_object` behind their nesting check: they differ in how they look for the
opening bracket, in the closing one and in what an item is. -/
def parseItems (parseItem : ItemParser α) (opens : ParseBuffer → Exec Bool) (close : UInt8)
    (fuel : Nat) (b : ParseBuffer) : Exec (Option (List α) × ParseBuffer) := do
  let opened ← opens b
  if opened then do
    let b ← bufferSkipWhitespace fuel (b.advance 1)
    let closed ← b.isAt (· == close)
    if closed then return (some [], b)
    else if ¬ b.CanAccessAtIndex 0 then return (none, b.back)
    -- back to the character in front of the first item
    else itemsLoop parseItem close fuel b.back []
  else return (none, b)

/-- The nesting check of `parse_array` and `parse_object`, and what they do to `depth` and
`offset`. -/
def parseNested (parseItem : ItemParser α) (opens : ParseBuffer → Exec Bool) (close : UInt8)
    (fuel : Nat) (b : ParseBuffer) : Exec (Option (List α) × ParseBuffer) :=
  if cjsonNestingLimit ≤ b.depth then .ok (none, b)
  else do
    let (child, b) ← parseItems parseItem opens close fuel { b with depth := b.depth + 1 }
    match child with
    | none => return (none, b)
    | some child => return (some child, { b with depth := b.depth - 1, offset := b.offset + 1 })

/-- The opening bracket of an array. It is loaded without asking whether there is a byte. -/
def opensArray (b : ParseBuffer) : Exec Bool := do
  let c ← b.atOffset 0
  return c == 0x5B

/-- `parse_array`, given `parse_value`. -/
def parseArray (parseValue : ItemParser (CjsonValue ν)) (fuel : Nat) (b : ParseBuffer) :
    Exec (Option (CjsonValue ν) × ParseBuffer) := do
  let (child, b) ← parseNested parseValue opensArray 0x5D fuel b
  return (child.map .array, b)

/-- A member of an object: the body of the loop of `parse_object`, given `parse_value`. -/
def parseMember (parseValue : ItemParser (CjsonValue ν)) (fuel : Nat) :
    ItemParser (CStr × CjsonValue ν) := fun b => do
  let (string, b) ← parseString fuel b
  match string with
  | none => return (none, b)
  | some string => do
    let b ← bufferSkipWhitespace fuel b
    let colon ← b.isAt (· == 0x3A)
    if colon then do
      let b ← bufferSkipWhitespace fuel (b.advance 1)
      let (item, b) ← parseValue b
      return (item.map fun item => (string, item), b)
    else return (none, b)

/-- The opening bracket of an object. -/
def opensObject (b : ParseBuffer) : Exec Bool := b.isAt (· == 0x7B)

/-- `parse_object`, given `parse_value`. -/
def parseObject (parseValue : ItemParser (CjsonValue ν)) (fuel : Nat) (b : ParseBuffer) :
    Exec (Option (CjsonValue ν) × ParseBuffer) := do
  let (child, b) ← parseNested (parseMember parseValue fuel) opensObject 0x7D fuel b
  return (child.map .object, b)

/-! ### Values -/

/-- `parse_value`. -/
def parseValue (lib : NumberLib ν) : Nat → ItemParser (CjsonValue ν)
  | 0, _ => .error .outOfFuel
  | fuel + 1, b => do
    let isNull ← b.isWord (asciiBytes "null")
    if isNull then return (some .null, b.advance 4)
    else do
    let isFalse ← b.isWord (asciiBytes "false")
    if isFalse then return (some (.bool false), b.advance 5)
    else do
    let isTrue ← b.isWord (asciiBytes "true")
    if isTrue then return (some (.bool true), b.advance 4)
    else do
    let isString ← b.isAt (· == 0x22)
    if isString then do
      let (valuestring, b) ← parseString fuel b
      return (valuestring.map .string, b)
    else do
    let isNumber ← b.isAt fun c => c == 0x2D || 0x30 ≤ c && c ≤ 0x39
    if isNumber then parseNumber lib b
    else do
    let isArray ← b.isAt (· == 0x5B)
    if isArray then parseArray (parseValue lib fuel) fuel b
    else do
    let isObject ← b.isAt (· == 0x7B)
    if isObject then parseObject (parseValue lib fuel) fuel b
    else return (none, b)

mutual

/-- How deep arrays and objects are nested in a value. -/
def CjsonValue.nesting : CjsonValue ν → Nat
  | .array child => nestingArray child + 1
  | .object child => nestingObject child + 1
  | _ => 0

/-- The same of the items of an array. -/
def nestingArray : List (CjsonValue ν) → Nat
  | [] => 0
  | item :: next => max item.nesting (nestingArray next)

/-- The same of the members of an object. -/
def nestingObject : List (CStr × CjsonValue ν) → Nat
  | [] => 0
  | (_, item) :: next => max item.nesting (nestingObject next)

end

/-! ### Texts -/

/-- What a call of `cJSON_ParseWithOpts` leaves: positions are offsets in the text. -/
structure ParseResult (ν : Type) where
  /-- The item returned, or `NULL`. -/
  item : Option (CjsonValue ν)
  /-- `*return_parse_end`, if it was stored. -/
  returnParseEnd : Option Nat
  /-- `global_error`, if it was set. -/
  globalError : Option Nat

/-- The end of `cJSON_ParseWithOpts` after a failure. -/
def parseFail (b : ParseBuffer) (returnParseEnd : Bool) : ParseResult ν :=
  let position :=
    if b.offset < b.length then b.offset
    else if 0 < b.length then b.length - 1
    else 0
  if returnParseEnd then
    { item := none, returnParseEnd := some position, globalError := none }
  else { item := none, returnParseEnd := none, globalError := some position }

/-- `cJSON_ParseWithOpts`; `returnParseEnd` tells whether `return_parse_end` is given. -/
def cjsonParseWithOpts (lib : NumberLib ν) (fuel : Nat) (value : Option CStr)
    (returnParseEnd requireNullTerminated : Bool) : Exec (ParseResult ν) :=
  match value with
  | none => .ok { item := none, returnParseEnd := none, globalError := none }
  | some value => do
    let content := value.bytes ++ [0]
    let b ← bufferSkipWhitespace fuel
      { content := content, length := strlen value + 1, offset := 0, depth := 0 }
    let (item, b) ← parseValue lib fuel b
    match item with
    | none => return parseFail b returnParseEnd
    | some item => do
      let parsed (b : ParseBuffer) : ParseResult ν :=
        { item := some item
          returnParseEnd := if returnParseEnd then some b.offset else none
          globalError := none }
      if requireNullTerminated then do
        let b ← bufferSkipWhitespace fuel b
        let ended ← b.isAt (· == 0)
        return if ended then parsed b else parseFail b returnParseEnd
      else return parsed b

/-- `cJSON_Parse`: the item. -/
def cjsonParse (lib : NumberLib ν) (fuel : Nat) (value : Option CStr) :
    Exec (Option (CjsonValue ν)) := do
  let r ← cjsonParseWithOpts lib fuel value false false
  return r.item

end Wee
