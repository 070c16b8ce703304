import Wee.Base.CjsonItems

/-! # Texts of values (`base/cJSON.c`)

What is printed for a value, with or without white space, as a function of the value. -/

namespace Wee

variable {ν : Type}

/-! ### Texts -/

/-- The comma between two items. -/
def commaText (format more : Bool) : List UInt8 :=
  if more then [0x2C] ++ (if format then [0x20] else []) else []

/-- The beginning of an object. -/
def objectOpenText (format : Bool) : List UInt8 := [0x7B] ++ if format then [0x0A] else []

/-- The tabs in front of a name or of the end of an object. -/
def tabsText (format : Bool) (n : Nat) : List UInt8 := if format then List.replicate n 0x09 else []

/-- The colon behind a name. -/
def colonText (format : Bool) : List UInt8 := [0x3A] ++ if format then [0x09] else []

/-- What stands behind a member. -/
def memberEndText (format more : Bool) : List UInt8 :=
  (if more then [0x2C] else []) ++ if format then [0x0A] else []

mutual

/-- The text of a value inside `depth` arrays and objects. -/
def renderValue (format : Bool) (printNumber : ν → CStr) : Nat → CjsonValue ν → List UInt8
  | _, .null => asciiBytes "null"
  | _, .bool false => asciiBytes "false"
  | _, .bool true => asciiBytes "true"
  | _, .number valuedouble => (printNumber valuedouble).bytes
  | _, .string valuestring => printStringPtr valuestring
  | depth, .array child =>
    [0x5B] ++ (renderArray format printNumber (depth + 1) child ++ [0x5D])
  | depth, .object child =>
    objectOpenText format ++ (renderObject format printNumber (depth + 1) child
      ++ (tabsText format depth ++ [0x7D]))

/-- The items of an array. -/
def renderArray (format : Bool) (printNumber : ν → CStr) : Nat → List (CjsonValue ν) → List UInt8
  | _, [] => []
  | depth, item :: next =>
    renderValue format printNumber depth item
      ++ (commaText format (!next.isEmpty) ++ renderArray format printNumber depth next)

/-- The members of an object. -/
def renderObject (format : Bool) (printNumber : ν → CStr) :
    Nat → List (CStr × CjsonValue ν) → List UInt8
  | _, [] => []
  | depth, (string, item) :: next =>
    tabsText format depth ++ (printStringPtr string ++ (colonText format
      ++ (renderValue format printNumber depth item ++ (memberEndText format (!next.isEmpty)
        ++ renderObject format printNumber depth next))))

end

/-! ### No NUL -/

/-- Tabs have no NUL. -/
theorem tabsText_nulFree (format : Bool) (n : Nat) : 0 ∉ tabsText format n := by
  cases format
  · exact List.not_mem_nil
  · intro h
    exact absurd (List.eq_of_mem_replicate h) (by decide)

mutual

/-- **A rendered value has no NUL**. The recursion is that of the printer. -/
theorem renderValue_nulFree (format : Bool) (printNumber : ν → CStr) :
    ∀ (depth : Nat) (v : CjsonValue ν), 0 ∉ renderValue format printNumber depth v
  | _, .null => by rw [renderValue]; decide
  | _, .bool false => by rw [renderValue]; decide
  | _, .bool true => by rw [renderValue]; decide
  | _, .number valuedouble => by
    rw [renderValue]
    exact (printNumber valuedouble).nulFree
  | _, .string valuestring => by
    rw [renderValue]
    exact printStringPtr_nulFree valuestring
  | depth, .array child => by
    rw [renderValue]
    simp only [List.mem_append, not_or]
    exact ⟨by decide, renderArray_nulFree format printNumber (depth + 1) child, by decide⟩
  | depth, .object child => by
    rw [renderValue]
    simp only [List.mem_append, not_or]
    refine ⟨?_, renderObject_nulFree format printNumber (depth + 1) child,
      tabsText_nulFree format depth, by decide⟩
    cases format <;> decide

/-- The items of an array. -/
theorem renderArray_nulFree (format : Bool) (printNumber : ν → CStr) :
    ∀ (depth : Nat) (items : List (CjsonValue ν)), 0 ∉ renderArray format printNumber depth items
  | _, [] => List.not_mem_nil
  | depth, item :: next => by
    rw [renderArray]
    simp only [List.mem_append, not_or]
    refine ⟨renderValue_nulFree format printNumber depth item, ?_,
      renderArray_nulFree format printNumber depth next⟩
    cases next.isEmpty <;> cases format <;> decide

/-- The members of an object. -/
theorem renderObject_nulFree (format : Bool) (printNumber : ν → CStr) :
    ∀ (depth : Nat) (members : List (CStr × CjsonValue ν)),
      0 ∉ renderObject format printNumber depth members
  | _, [] => List.not_mem_nil
  | depth, (string, item) :: next => by
    rw [renderObject]
    simp only [List.mem_append, not_or]
    refine ⟨tabsText_nulFree format depth, printStringPtr_nulFree string, ?_,
      renderValue_nulFree format printNumber depth item, ?_,
      renderObject_nulFree format printNumber depth next⟩
    · cases format <;> decide
    · cases next.isEmpty <;> cases format <;> decide

end

/-! ### Without white space -/

mutual

/-- **Without white space** the text does not depend on the nesting: it is the one that
`cJSON_PrintUnformatted` is known for. -/
theorem renderValue_unformatted (printNumber : ν → CStr) :
    ∀ (depth : Nat) (v : CjsonValue ν), renderValue false printNumber depth v = printValue printNumber v
  | _, .null => by rw [renderValue, printValue]
  | _, .bool false => by rw [renderValue, printValue]
  | _, .bool true => by rw [renderValue, printValue]
  | _, .number valuedouble => by rw [renderValue, printValue]
  | _, .string valuestring => by rw [renderValue, printValue]
  | depth, .array child => by
    rw [renderValue, printValue, renderArray_unformatted printNumber (depth + 1) child,
      List.append_assoc]
  | depth, .object child => by
    rw [renderValue, printValue, renderObject_unformatted printNumber (depth + 1) child,
      List.append_assoc]
    rfl

/-- The items of an array. -/
theorem renderArray_unformatted (printNumber : ν → CStr) :
    ∀ (depth : Nat) (items : List (CjsonValue ν)),
      renderArray false printNumber depth items = printArray printNumber items
  | _, [] => by rw [renderArray, printArray]
  | depth, item :: next => by
    rw [renderArray, printArray, renderValue_unformatted printNumber depth item,
      renderArray_unformatted printNumber depth next, List.append_assoc]
    cases next.isEmpty <;> rfl

/-- The members of an object. -/
theorem renderObject_unformatted (printNumber : ν → CStr) :
    ∀ (depth : Nat) (members : List (CStr × CjsonValue ν)),
      renderObject false printNumber depth members = printObject printNumber members
  | _, [] => by rw [renderObject, printObject]
  | depth, (string, item) :: next => by
    rw [renderObject, printObject, renderValue_unformatted printNumber depth item,
      renderObject_unformatted printNumber depth next]
    simp only [List.append_assoc]
    cases next.isEmpty <;> rfl

end

end Wee
