import Wee.Base.CjsonItems
import Wee.Lib.Memory

/-! # Printing JSON (`base/cJSON.c`)

The printer writes into a `printbuffer`, a block that it makes larger as it goes on. Stores outside
the block fault. A block that has grown holds anything behind its old content, and what a function
has printed is found again by its NUL. No allocation fails, and no size is near `SIZE_MAX`. -/

namespace Wee

variable {ν : Type}

/-! ### The buffer -/

/-- `INT_MAX`. -/
def cIntMax : Nat := 2147483647

/-- `printbuffer`. -/
structure PrintBuffer where
  /-- The block. -/
  buffer : List UInt8
  /-- How much of it there is, as far as the printer knows. -/
  length : Nat
  /-- Where the next text goes. -/
  offset : Nat
  /-- How many arrays and objects it is in. -/
  depth : Nat
  /-- The block may not grow. -/
  noalloc : Bool
  /-- With white space. -/
  format : Bool

/-- `realloc`: `junk` is what a grown block holds behind the old content. -/
def memRealloc (junk : Nat → UInt8) (block : List UInt8) (n : Nat) : List UInt8 :=
  (List.range n).map fun i => block[i]?.getD (junk i)

/-- The end of `ensure`: a block of `newsize` bytes. -/
def PrintBuffer.grow (junk : Nat → UInt8) (p : PrintBuffer) (newsize : Nat) : PrintBuffer :=
  { p with buffer := memRealloc junk p.buffer newsize, length := newsize }

/-- `ensure`: `none` for `NULL`; the pointer returned is always that to `offset`. -/
def ensure (junk : Nat → UInt8) (p : PrintBuffer) (needed : Nat) : Option PrintBuffer :=
  if 0 < p.length ∧ p.length ≤ p.offset then none
  else if cIntMax < needed then none
  else if needed + (p.offset + 1) ≤ p.length then some p
  else if p.noalloc then none
  else if cIntMax / 2 < needed + (p.offset + 1) then
    if needed + (p.offset + 1) ≤ cIntMax then some (p.grow junk cIntMax) else none
  else some (p.grow junk ((needed + (p.offset + 1)) * 2))

/-- Store bytes at `output + i`. -/
def PrintBuffer.store (p : PrintBuffer) (i : Nat) (bytes : List UInt8) : Exec PrintBuffer := do
  let buffer ← memStore p.buffer (p.offset + i) bytes
  return { p with buffer := buffer }

/-- `strlen` of what is in a block. -/
def strlenBlock : List UInt8 → Exec Nat
  | [] => .error .outOfBounds
  | c :: cs =>
    if c = 0 then .ok 0
    else do
      let n ← strlenBlock cs
      return n + 1

/-- `update_offset`. -/
def updateOffset (p : PrintBuffer) : Exec PrintBuffer := do
  let n ← strlenBlock (p.buffer.drop p.offset)
  return { p with offset := p.offset + n }

/-! ### Values that are not nested -/

/-- A word: `ensure`, then `strcpy`. -/
def printWordTo (junk : Nat → UInt8) (word : List UInt8) (p : PrintBuffer) :
    Exec (Option PrintBuffer) := do
  let some p := ensure junk p (word.length + 1) | return none
  let p ← p.store 0 (word ++ [0])
  return some p

/-- `print_number`; `printNumber` gives what is in `number_buffer`, with the point for the decimal
point of the locale. -/
def printNumberTo (junk : Nat → UInt8) (printNumber : ν → CStr) (d : ν) (p : PrintBuffer) :
    Exec (Option PrintBuffer) :=
  let length := strlen (printNumber d)
  -- `number_buffer` has 26 bytes
  if 25 < length then .ok none
  else do
    let some p := ensure junk p length | return none
    let p ← p.store 0 (printNumber d).bytes
    let p ← p.store length [0]
    return some { p with offset := p.offset + length }

/-- The letter of an escape of two characters. -/
def escapeLetter (c : UInt8) : Option UInt8 :=
  if c = 0x5C then some 0x5C
  else if c = 0x22 then some 0x22
  else if c = 0x08 then some 0x62
  else if c = 0x0C then some 0x66
  else if c = 0x0A then some 0x6E
  else if c = 0x0D then some 0x72
  else if c = 0x09 then some 0x74
  else none

/-- How many characters more than one `print_string_ptr` counts for `c`. -/
def escapeCharacters (c : UInt8) : Nat :=
  if (escapeLetter c).isSome then 1 else if c < 32 then 5 else 0

/-- The loop of `print_string_ptr` that counts them. -/
def countEscapes : List UInt8 → Nat
  | [] => 0
  | c :: cs => escapeCharacters c + countEscapes cs

/-- The loop of `print_string_ptr` that copies and escapes; the last index. -/
def escapeLoop : List UInt8 → Nat → PrintBuffer → Exec PrintBuffer
  | [], _, p => .ok p
  | c :: cs, i, p =>
    if 31 < c ∧ c ≠ 0x22 ∧ c ≠ 0x5C then do
      let p ← p.store i [c]
      escapeLoop cs (i + 1) p
    else do
      let p ← p.store i [0x5C]
      match escapeLetter c with
      | some e => do
        let p ← p.store (i + 1) [e]
        escapeLoop cs (i + 2) p
      | none => do
        -- `sprintf` of `u%04x`, which stores a NUL as well
        let p ← p.store (i + 1) (((escapeUnit c.toNat).map UInt8.ofNat).tail ++ [0])
        escapeLoop cs (i + 6) p

/-- The characters between the quotes: `memcpy`, if nothing is escaped. -/
def printCharactersTo (escapes : Nat) (input : CStr) (p : PrintBuffer) : Exec PrintBuffer :=
  if escapes = 0 then p.store 1 input.bytes else escapeLoop input.bytes 1 p

/-- `print_string_ptr` of a string. -/
def printStringPtrTo (junk : Nat → UInt8) (input : CStr) (p : PrintBuffer) :
    Exec (Option PrintBuffer) := do
  let escapes := countEscapes input.bytes
  let outputLength := strlen input + escapes
  let some p := ensure junk p (outputLength + 3) | return none
  let p ← p.store 0 [0x22]
  let p ← printCharactersTo escapes input p
  let p ← p.store (outputLength + 1) [0x22, 0]
  return some p

/-! ### Arrays and objects -/

/-- The comma behind an item of an array, if there is a next one. -/
def printCommaTo (junk : Nat → UInt8) (more : Bool) (p : PrintBuffer) :
    Exec (Option PrintBuffer) :=
  if more then do
    let length := if p.format then 2 else 1
    let some p := ensure junk p (length + 1) | return none
    let p ← p.store 0 ([0x2C] ++ (if p.format then [0x20] else []) ++ [0])
    return some { p with offset := p.offset + length }
  else .ok (some p)

/-- The tabs in front of a name. -/
def printTabsTo (junk : Nat → UInt8) (p : PrintBuffer) : Exec (Option PrintBuffer) :=
  if p.format then do
    let some p := ensure junk p p.depth | return none
    let p ← p.store 0 (List.replicate p.depth 0x09)
    return some { p with offset := p.offset + p.depth }
  else .ok (some p)

/-- The colon behind a name. -/
def printColonTo (junk : Nat → UInt8) (p : PrintBuffer) : Exec (Option PrintBuffer) := do
  let length := if p.format then 2 else 1
  let some p := ensure junk p length | return none
  let p ← p.store 0 ([0x3A] ++ if p.format then [0x09] else [])
  return some { p with offset := p.offset + length }

/-- What stands behind a member. -/
def printMemberEndTo (junk : Nat → UInt8) (more : Bool) (p : PrintBuffer) :
    Exec (Option PrintBuffer) := do
  let length := (if p.format then 1 else 0) + if more then 1 else 0
  let some p := ensure junk p (length + 1) | return none
  let p ← p.store 0 ((if more then [0x2C] else []) ++ (if p.format then [0x0A] else []) ++ [0])
  return some { p with offset := p.offset + length }

/-- The beginning of `print_array`. -/
def printArrayOpenTo (junk : Nat → UInt8) (p : PrintBuffer) : Exec (Option PrintBuffer) := do
  let some p := ensure junk p 1 | return none
  let p ← p.store 0 [0x5B]
  return some { p with offset := p.offset + 1, depth := p.depth + 1 }

/-- The end of `print_array`. -/
def printArrayCloseTo (junk : Nat → UInt8) (p : PrintBuffer) : Exec (Option PrintBuffer) := do
  let some p := ensure junk p 2 | return none
  let p ← p.store 0 [0x5D, 0]
  return some { p with depth := p.depth - 1 }

/-- The beginning of `print_object`. -/
def printObjectOpenTo (junk : Nat → UInt8) (p : PrintBuffer) : Exec (Option PrintBuffer) := do
  let length := if p.format then 2 else 1
  let some p := ensure junk p (length + 1) | return none
  let p ← p.store 0 ([0x7B] ++ if p.format then [0x0A] else [])
  return some { p with offset := p.offset + length, depth := p.depth + 1 }

/-- The end of `print_object`. -/
def printObjectCloseTo (junk : Nat → UInt8) (p : PrintBuffer) : Exec (Option PrintBuffer) := do
  let some p := ensure junk p (if p.format then p.depth + 1 else 2) | return none
  let p ← p.store 0 ((if p.format then List.replicate (p.depth - 1) 0x09 else []) ++ [0x7D, 0])
  return some { p with depth := p.depth - 1 }

mutual

/-- `print_value`: `none` if it returns `false`. -/
def printValueTo (junk : Nat → UInt8) (printNumber : ν → CStr) :
    CjsonValue ν → PrintBuffer → Exec (Option PrintBuffer)
  | .null, p => printWordTo junk (asciiBytes "null") p
  | .bool false, p => printWordTo junk (asciiBytes "false") p
  | .bool true, p => printWordTo junk (asciiBytes "true") p
  | .number valuedouble, p => printNumberTo junk printNumber valuedouble p
  | .string valuestring, p => printStringPtrTo junk valuestring p
  | .array child, p => do
    let some p ← printArrayOpenTo junk p | return none
    let some p ← printArrayTo junk printNumber child p | return none
    printArrayCloseTo junk p
  | .object child, p => do
    let some p ← printObjectOpenTo junk p | return none
    let some p ← printObjectTo junk printNumber child p | return none
    printObjectCloseTo junk p

/-- The loop of `print_array`. -/
def printArrayTo (junk : Nat → UInt8) (printNumber : ν → CStr) :
    List (CjsonValue ν) → PrintBuffer → Exec (Option PrintBuffer)
  | [], p => .ok (some p)
  | item :: next, p => do
    let some p ← printValueTo junk printNumber item p | return none
    let p ← updateOffset p
    let some p ← printCommaTo junk (!next.isEmpty) p | return none
    printArrayTo junk printNumber next p

/-- The loop of `print_object`. -/
def printObjectTo (junk : Nat → UInt8) (printNumber : ν → CStr) :
    List (CStr × CjsonValue ν) → PrintBuffer → Exec (Option PrintBuffer)
  | [], p => .ok (some p)
  | (string, item) :: next, p => do
    let some p ← printTabsTo junk p | return none
    let some p ← printStringPtrTo junk string p | return none
    let p ← updateOffset p
    let some p ← printColonTo junk p | return none
    let some p ← printValueTo junk printNumber item p | return none
    let p ← updateOffset p
    let some p ← printMemberEndTo junk (!next.isEmpty) p | return none
    printObjectTo junk printNumber next p

end

/-! ### Texts -/

/-- `print`: the block that is returned, or `none` for `NULL`. The printer begins with a block of
256 bytes that it takes for an empty one. -/
def cjsonPrint (junk : Nat → UInt8) (printNumber : ν → CStr) (item : CjsonValue ν)
    (format : Bool) : Exec (Option (List UInt8)) := do
  let p : PrintBuffer := { buffer := (List.range 256).map junk, length := 0, offset := 0, depth := 0,
                           noalloc := false, format := format }
  let some p ← printValueTo junk printNumber item p | return none
  let p ← updateOffset p
  return some (memRealloc junk p.buffer p.length)

/-- `cJSON_PrintBuffered`. -/
def cjsonPrintBuffered (junk : Nat → UInt8) (printNumber : ν → CStr) (item : CjsonValue ν)
    (prebuffer : Int) (fmt : Bool) : Exec (Option (List UInt8)) :=
  if prebuffer < 0 then .ok none
  else do
    let length := prebuffer.toNat
    let p : PrintBuffer := { buffer := (List.range length).map junk, length := length, offset := 0,
                             depth := 0, noalloc := false, format := fmt }
    let some p ← printValueTo junk printNumber item p | return none
    return some p.buffer

/-- `cJSON_PrintPreallocated` into the block `buf` of `len` bytes: what it returns, and the block if
that is `true`. -/
def cjsonPrintPreallocated (junk : Nat → UInt8) (printNumber : ν → CStr) (item : CjsonValue ν)
    (buf : List UInt8) (len : Int) (fmt : Bool) : Exec (Option (List UInt8)) :=
  if len < 0 then .ok none
  else do
    let p : PrintBuffer := { buffer := buf, length := len.toNat, offset := 0, depth := 0,
                             noalloc := true, format := fmt }
    let some p ← printValueTo junk printNumber item p | return none
    return some p.buffer

end Wee
