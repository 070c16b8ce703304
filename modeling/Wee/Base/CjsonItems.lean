import Wee.Lib.Exec
import Wee.Lib.Json
import Wee.Lib.Lines

/-! # The items of an object (`base/cJSON.c`)

The members of an object are items in memory that are linked both ways. What is below an item is a
tree: it is only printed and freed as a whole. A freed item is no longer in memory, and every access
to it but the one that a caller is given a value for faults. No allocation fails. -/

namespace Wee

/-! ### Values and their texts -/

/-- The type of an item and what it holds; `ν` is `double`. -/
inductive CjsonValue (ν : Type)
  /-- `cJSON_NULL`. -/
  | null
  /-- `cJSON_False` and `cJSON_True`. -/
  | bool (b : Bool)
  /-- `cJSON_Number`. -/
  | number (valuedouble : ν)
  /-- `cJSON_String`. -/
  | string (valuestring : CStr)
  /-- `cJSON_Array`, with its children. -/
  | array (child : List (CjsonValue ν))
  /-- `cJSON_Object`, with its children and their names. -/
  | object (child : List (CStr × CjsonValue ν))

variable {ν : Type}

/-- `cJSON_IsArray(item) || cJSON_IsObject(item)`. -/
def CjsonValue.isNested : CjsonValue ν → Bool
  | .array _ => true
  | .object _ => true
  | _ => false

/-- One character of `print_string_ptr`. -/
def printChar (b : UInt8) : List UInt8 :=
  if 31 < b ∧ b ≠ 0x22 ∧ b ≠ 0x5C then [b]
  else if b = 0x5C then [0x5C, 0x5C]
  else if b = 0x22 then [0x5C, 0x22]
  else if b = 0x08 then [0x5C, 0x62]
  else if b = 0x0C then [0x5C, 0x66]
  else if b = 0x0A then [0x5C, 0x6E]
  else if b = 0x0D then [0x5C, 0x72]
  else if b = 0x09 then [0x5C, 0x74]
  else (escapeUnit b.toNat).map UInt8.ofNat

/-- `print_string_ptr`. -/
def printStringPtr (input : CStr) : List UInt8 :=
  [0x22] ++ input.bytes.flatMap printChar ++ [0x22]

mutual

/-- `print_value` without formatting, given `print_number`. -/
def printValue (printNumber : ν → CStr) : CjsonValue ν → List UInt8
  | .null => asciiBytes "null"
  | .bool false => asciiBytes "false"
  | .bool true => asciiBytes "true"
  | .number valuedouble => (printNumber valuedouble).bytes
  | .string valuestring => printStringPtr valuestring
  | .array child => [0x5B] ++ printArray printNumber child ++ [0x5D]
  | .object child => [0x7B] ++ printObject printNumber child ++ [0x7D]

/-- The loop of `print_array`: a comma if there is a next item. -/
def printArray (printNumber : ν → CStr) : List (CjsonValue ν) → List UInt8
  | [] => []
  | item :: next =>
    printValue printNumber item ++ (if next.isEmpty then [] else [0x2C])
      ++ printArray printNumber next

/-- The loop of `print_object`. -/
def printObject (printNumber : ν → CStr) : List (CStr × CjsonValue ν) → List UInt8
  | [] => []
  | (string, item) :: next =>
    printStringPtr string ++ [0x3A] ++ printValue printNumber item
      ++ (if next.isEmpty then [] else [0x2C]) ++ printObject printNumber next

end

/-- A printed character has no NUL. -/
theorem printChar_nulFree (b : UInt8) : 0 ∉ printChar b := by
  have hall : ∀ n < 256, 0 ∉ printChar (UInt8.ofNat n) := by decide +kernel
  have h := hall b.toNat b.toNat_lt
  rwa [UInt8.ofNat_toNat] at h

/-- Nor has a printed string. -/
theorem printStringPtr_nulFree (input : CStr) : 0 ∉ printStringPtr input := by
  intro h
  simp only [printStringPtr, List.mem_append, List.mem_singleton, List.mem_flatMap] at h
  rcases h with (h | ⟨b, -, h⟩) | h
  · exact absurd h (by decide)
  · exact printChar_nulFree b h
  · exact absurd h (by decide)

/-- The comma between two items. -/
theorem zero_notMem_comma (p : Bool) : (0 : UInt8) ∉ (if p then [] else [0x2C]) := by
  cases p <;> decide

mutual

/-- **A printed value is a C string**. The recursion is that of the printer. -/
theorem printValue_nulFree (printNumber : ν → CStr) :
    ∀ v : CjsonValue ν, 0 ∉ printValue printNumber v
  | .null => by rw [printValue]; decide
  | .bool false => by rw [printValue]; decide
  | .bool true => by rw [printValue]; decide
  | .number valuedouble => by
    rw [printValue]
    exact (printNumber valuedouble).nulFree
  | .string valuestring => by
    rw [printValue]
    exact printStringPtr_nulFree valuestring
  | .array child => by
    have h := printArray_nulFree printNumber child
    rw [printValue]
    -- the brackets are no NUL either
    simpa using h
  | .object child => by
    have h := printObject_nulFree printNumber child
    rw [printValue]
    simpa using h

/-- The items of an array. -/
theorem printArray_nulFree (printNumber : ν → CStr) :
    ∀ child : List (CjsonValue ν), 0 ∉ printArray printNumber child
  | [] => by
    rw [printArray]
    exact List.not_mem_nil
  | item :: next => by
    have hitem := printValue_nulFree printNumber item
    have hnext := printArray_nulFree printNumber next
    rw [printArray, List.mem_append, List.mem_append]
    rintro ((h | h) | h)
    · exact hitem h
    · exact zero_notMem_comma _ h
    · exact hnext h

/-- The members of an object. -/
theorem printObject_nulFree (printNumber : ν → CStr) :
    ∀ child : List (CStr × CjsonValue ν), 0 ∉ printObject printNumber child
  | [] => by
    rw [printObject]
    exact List.not_mem_nil
  | (string, item) :: next => by
    have hstring := printStringPtr_nulFree string
    have hitem := printValue_nulFree printNumber item
    have hnext := printObject_nulFree printNumber next
    rw [printObject, List.mem_append, List.mem_append, List.mem_append, List.mem_append]
    rintro ((((h | h) | h) | h) | h)
    · exact hstring h
    · exact absurd h (by decide)
    · exact hitem h
    · exact zero_notMem_comma _ h
    · exact hnext h

end

/-- `cJSON_PrintUnformatted`. -/
def cjsonPrintUnformatted (printNumber : ν → CStr) (item : CjsonValue ν) : CStr where
  bytes := printValue printNumber item
  nulFree := printValue_nulFree printNumber item

/-! ### Names -/

/-- `tolower` in the C locale. -/
def tolower (b : UInt8) : UInt8 := if 0x41 ≤ b ∧ b ≤ 0x5A then b + 0x20 else b

/-- The loop of `case_insensitive_strcmp`, with the NUL behind each string. -/
def caseInsensitiveLoop : List UInt8 → List UInt8 → Int
  | [], [] => 0
  | [], b :: _ => (tolower 0).toNat - (tolower b).toNat
  | a :: _, [] => (tolower a).toNat - (tolower 0).toNat
  | a :: as, b :: bs =>
    if tolower a = tolower b then caseInsensitiveLoop as bs
    else (tolower a).toNat - (tolower b).toNat

/-- `case_insensitive_strcmp`. -/
def caseInsensitiveStrcmp : Option CStr → Option CStr → Int
  | some string1, some string2 => caseInsensitiveLoop string1.bytes string2.bytes
  | _, _ => 1

/-- Two names that differ at most in case. -/
def SameName (a b : CStr) : Prop := a.bytes.map tolower = b.bytes.map tolower

instance (a b : CStr) : Decidable (SameName a b) :=
  inferInstanceAs (Decidable (a.bytes.map tolower = b.bytes.map tolower))

/-- No character but NUL is a NUL in lower case. -/
theorem tolower_eq_zero {b : UInt8} (hb : b ≠ 0) : (tolower b).toNat ≠ 0 := by
  have hall : ∀ n < 256, n ≠ 0 → (tolower (UInt8.ofNat n)).toNat ≠ 0 := by decide +kernel
  have h := hall b.toNat b.toNat_lt fun hzero => hb (UInt8.toNat_inj.mp hzero)
  rwa [UInt8.ofNat_toNat] at h

/-- The loop finds the strings equal when they are in lower case. -/
theorem caseInsensitiveLoop_eq_zero_iff {as bs : List UInt8} (ha : 0 ∉ as) (hb : 0 ∉ bs) :
    caseInsensitiveLoop as bs = 0 ↔ as.map tolower = bs.map tolower := by
  induction as generalizing bs with
  | nil =>
    cases bs with
    | nil => exact iff_of_true rfl rfl
    | cons b bs =>
      -- the NUL of the first string differs from what the second one has there
      have hne := tolower_eq_zero fun h => hb (h ▸ List.mem_cons_self)
      have hzero : (tolower 0).toNat = 0 := by decide
      refine iff_of_false ?_ (by simp)
      rw [caseInsensitiveLoop, hzero]
      omega
  | cons a as ih =>
    cases bs with
    | nil =>
      have hne := tolower_eq_zero fun h => ha (h ▸ List.mem_cons_self)
      have hzero : (tolower 0).toNat = 0 := by decide
      refine iff_of_false ?_ (by simp)
      rw [caseInsensitiveLoop, hzero]
      omega
    | cons b bs =>
      rw [caseInsensitiveLoop, List.map_cons, List.map_cons, List.cons.injEq]
      by_cases hab : tolower a = tolower b
      · rw [if_pos hab, ih (fun h => ha (List.mem_cons_of_mem _ h))
          (fun h => hb (List.mem_cons_of_mem _ h))]
        exact ⟨fun h => ⟨hab, h⟩, And.right⟩
      · rw [if_neg hab]
        refine iff_of_false (fun h => hab (UInt8.toNat_inj.mp ?_)) (fun h => hab h.1)
        omega

/-- **Names are compared up to case**. -/
theorem caseInsensitiveStrcmp_eq_zero_iff (a b : CStr) :
    caseInsensitiveStrcmp (some a) (some b) = 0 ↔ SameName a b :=
  caseInsensitiveLoop_eq_zero_iff a.nulFree b.nulFree

/-! ### Items in memory -/

/-- An item: its name, if it has one, and its value. -/
structure CjsonItem (ν : Type) where
  /-- `string`. -/
  string : Option CStr
  /-- `type`, `valuestring`, `valuedouble` and `child`. -/
  value : CjsonValue ν

/-- An object and the items in memory. -/
structure CjsonHeap (ν : Type) where
  /-- `child` of the object. -/
  child : Option Nat
  /-- `next` and `prev` of the items. -/
  links : Links Nat
  /-- What the items hold; `none` where no item is allocated. -/
  items : Nat → Option (CjsonItem ν)
  /-- Behind all that was ever allocated. -/
  brk : Nat

namespace CjsonHeap

/-- An access to the item at `p`. -/
def load (h : CjsonHeap ν) (p : Nat) : Exec (CjsonItem ν) :=
  match h.items p with
  | some item => .ok item
  | none => .error .outOfBounds

/-- `p->next`. -/
def next (h : CjsonHeap ν) (p : Nat) : Exec (Option Nat) := do
  let _ ← h.load p
  return h.links.next p

/-- `p->prev`. -/
def prev (h : CjsonHeap ν) (p : Nat) : Exec (Option Nat) := do
  let _ ← h.load p
  return h.links.prev p

/-- `p->next = q`. -/
def setNext (h : CjsonHeap ν) (p : Nat) (q : Option Nat) : Exec (CjsonHeap ν) := do
  let _ ← h.load p
  return { h with links := h.links.setNext p q }

/-- `p->prev = q`. -/
def setPrev (h : CjsonHeap ν) (p : Nat) (q : Option Nat) : Exec (CjsonHeap ν) := do
  let _ ← h.load p
  return { h with links := h.links.setPrev p q }

/-- `p->string = string`. -/
def setString (h : CjsonHeap ν) (p : Nat) (string : CStr) : Exec (CjsonHeap ν) := do
  let item ← h.load p
  return { h with items := Function.update h.items p (some { item with string := some string }) }

/-- `if (p != NULL) p->next = q`. -/
def setNextOf (h : CjsonHeap ν) (p q : Option Nat) : Exec (CjsonHeap ν) :=
  match p with
  | some p => h.setNext p q
  | none => .ok h

/-- `if (p != NULL) p->prev = q`. -/
def setPrevOf (h : CjsonHeap ν) (p q : Option Nat) : Exec (CjsonHeap ν) :=
  match p with
  | some p => h.setPrev p q
  | none => .ok h

/-- `if (parent->child == item) parent->child = replacement`. -/
def setChild (h : CjsonHeap ν) (item replacement : Nat) : CjsonHeap ν :=
  { h with child := if h.child = some item then some replacement else h.child }

end CjsonHeap

/-- `cJSON_CreateString`: a new item. -/
def cjsonCreateString (h : CjsonHeap ν) (string : CStr) : Nat × CjsonHeap ν :=
  (h.brk, { h with
    links := (h.links.setNext h.brk none).setPrev h.brk none
    items := Function.update h.items h.brk (some { string := none, value := .string string })
    brk := h.brk + 1 })

/-- `cJSON_Delete`: the item and those behind it. -/
def cjsonDelete : Nat → CjsonHeap ν → Option Nat → Exec (CjsonHeap ν)
  | _, h, none => .ok h
  | 0, _, some _ => .error .outOfFuel
  | fuel + 1, h, some item => do
    let next ← h.next item
    cjsonDelete fuel { h with items := Function.update h.items item none } next

/-- `get_object_item`, not case-sensitive, from an item on. -/
def getObjectItem (name : CStr) : Nat → CjsonHeap ν → Option Nat → Exec (Option Nat)
  | _, _, none => .ok none
  | 0, _, some _ => .error .outOfFuel
  | fuel + 1, h, some current => do
    let item ← h.load current
    if caseInsensitiveStrcmp (some name) item.string ≠ 0 then
      getObjectItem name fuel h (h.links.next current)
    else return some current

/-- `cJSON_ReplaceItemViaPointer`; its result is not used. -/
def cjsonReplaceItemViaPointer (fuel : Nat) (h : CjsonHeap ν) (item : Option Nat)
    (replacement : Nat) : Exec (CjsonHeap ν) :=
  match item with
  | none => .ok h
  | some item =>
    if replacement = item then .ok h
    else do
      let h ← h.setNext replacement (← h.next item)
      let h ← h.setPrev replacement (← h.prev item)
      let h ← h.setPrevOf (← h.next replacement) (some replacement)
      let h ← h.setNextOf (← h.prev replacement) (some replacement)
      let h := h.setChild item replacement
      -- cut off, so that nothing but the item is freed
      let h ← h.setNext item none
      let h ← h.setPrev item none
      cjsonDelete fuel h (some item)

/-- `cJSON_ReplaceItemInObject`: `replace_item_in_object`, not case-sensitive. The new item has no
name yet. -/
def cjsonReplaceItemInObject (fuel : Nat) (h : CjsonHeap ν) (string : Option CStr)
    (replacement : Nat) : Exec (CjsonHeap ν) :=
  match string with
  | none => .ok h
  | some string => do
    let h ← h.setString replacement string
    let item ← getObjectItem string fuel h h.child
    cjsonReplaceItemViaPointer fuel h item replacement

end Wee
