import Wee.Lib.Word

/-! # The Thrift strict binary protocol

Values, their encoding and a reader. A struct is a list of fields, each with its type, its id and
its value, up to a stop byte; containers announce the types and the number of their elements. A
message is a version word with the type of the message, a name, a sequence number and a struct.
The reader has a budget for the depth of a value, and reads back what the encoding wrote, whatever
stands behind it. -/

namespace Wee

/-! ### Types and values -/

/-- The types of values. -/
inductive ThriftType
  | bool
  | byte
  | double
  | i16
  | i32
  | i64
  | string
  | struct
  | map
  | set
  | list
  deriving DecidableEq, Repr

/-- The type on the wire. -/
def ThriftType.code : ThriftType → UInt8
  | .bool => 2
  | .byte => 3
  | .double => 4
  | .i16 => 6
  | .i32 => 8
  | .i64 => 10
  | .string => 11
  | .struct => 12
  | .map => 13
  | .set => 14
  | .list => 15

/-- The type of a code. -/
def ThriftType.ofCode (c : UInt8) : Option ThriftType :=
  [bool, byte, double, i16, i32, i64, string, struct, map, set, list].find? fun t => t.code == c

/-- A code is the code of its type. -/
@[simp] theorem ThriftType.ofCode_code (t : ThriftType) : ofCode t.code = some t := by
  cases t <;> rfl

/-- Different types have different codes. -/
theorem ThriftType.code_inj {t u : ThriftType} (h : t.code = u.code) : t = u := by
  have hof := congrArg ofCode h
  rw [ofCode_code, ofCode_code] at hof
  exact Option.some.inj hof

/-- No type has the code of the stop byte. -/
theorem ThriftType.code_ne_zero (t : ThriftType) : t.code ≠ 0 := by
  cases t <;> decide

/-- Values. A double is its bit pattern. -/
inductive ThriftValue
  | bool (b : Bool)
  | byte (n : Int8)
  | double (bits : UInt64)
  | i16 (n : Int16)
  | i32 (n : Int32)
  | i64 (n : Int64)
  | string (s : List UInt8)
  | struct (fields : List (Int16 × ThriftValue))
  | map (key elem : ThriftType) (entries : List (ThriftValue × ThriftValue))
  | set (elem : ThriftType) (xs : List ThriftValue)
  | list (elem : ThriftType) (xs : List ThriftValue)

/-- The type of a value. -/
def ThriftValue.type : ThriftValue → ThriftType
  | .bool _ => .bool
  | .byte _ => .byte
  | .double _ => .double
  | .i16 _ => .i16
  | .i32 _ => .i32
  | .i64 _ => .i64
  | .string _ => .string
  | .struct _ => .struct
  | .map _ _ _ => .map
  | .set _ _ => .set
  | .list _ _ => .list

/-- A value of string type is a string. -/
theorem ThriftValue.exists_string {v : ThriftValue} (h : v.type = .string) :
    ∃ s, v = .string s := by
  cases v with
  | string s => exact ⟨s, rfl⟩
  | _ => cases h

mutual

/-- The encoding of a value. -/
def ThriftValue.bytes : ThriftValue → List UInt8
  | .bool b => [if b then 1 else 0]
  | .byte n => beInt 1 n.toInt
  | .double bits => beBytes 8 bits.toNat
  | .i16 n => beInt 2 n.toInt
  | .i32 n => beInt 4 n.toInt
  | .i64 n => beInt 8 n.toInt
  | .string s => lenStr s
  | .struct fields => thriftFields fields
  | .map key elem entries =>
    key.code :: elem.code :: (beInt 4 entries.length ++ thriftEntries entries)
  | .set elem xs => elem.code :: (beInt 4 xs.length ++ thriftElems xs)
  | .list elem xs => elem.code :: (beInt 4 xs.length ++ thriftElems xs)

/-- The fields of a struct and the stop byte. -/
def thriftFields : List (Int16 × ThriftValue) → List UInt8
  | [] => [0]
  | (id, v) :: fields => v.type.code :: (beInt 2 id.toInt ++ (v.bytes ++ thriftFields fields))

/-- The entries of a map. -/
def thriftEntries : List (ThriftValue × ThriftValue) → List UInt8
  | [] => []
  | (k, v) :: entries => k.bytes ++ (v.bytes ++ thriftEntries entries)

/-- The elements of a set or a list. -/
def thriftElems : List ThriftValue → List UInt8
  | [] => []
  | x :: xs => x.bytes ++ thriftElems xs

end

mutual

/-- Well-formed values: strings and containers have lengths that fit 32 bits, and the elements of a
container have the type it announces. -/
def ThriftValue.Wf : ThriftValue → Prop
  | .string s => s.length < 2 ^ 31
  | .struct fields => ThriftFieldsWf fields
  | .map key elem entries => entries.length < 2 ^ 31 ∧ ThriftEntriesWf key elem entries
  | .set elem xs => xs.length < 2 ^ 31 ∧ ThriftElemsWf elem xs
  | .list elem xs => xs.length < 2 ^ 31 ∧ ThriftElemsWf elem xs
  | _ => True

/-- Well-formed fields. -/
def ThriftFieldsWf : List (Int16 × ThriftValue) → Prop
  | [] => True
  | (_, v) :: fields => v.Wf ∧ ThriftFieldsWf fields

/-- Well-formed entries. -/
def ThriftEntriesWf (key elem : ThriftType) : List (ThriftValue × ThriftValue) → Prop
  | [] => True
  | (k, v) :: entries =>
    (k.type = key ∧ k.Wf) ∧ (v.type = elem ∧ v.Wf) ∧ ThriftEntriesWf key elem entries

/-- Well-formed elements. -/
def ThriftElemsWf (elem : ThriftType) : List ThriftValue → Prop
  | [] => True
  | x :: xs => (x.type = elem ∧ x.Wf) ∧ ThriftElemsWf elem xs

end

/-! ### Reading -/

/-- Bytes read, and what is behind them. -/
abbrev ThriftRead (α : Type) := List UInt8 → Option (α × List UInt8)

/-- Read `k` bytes. -/
def readBytes (k : Nat) : ThriftRead (List UInt8) := fun bs =>
  if k ≤ bs.length then some (bs.take k, bs.drop k) else none

/-- Read an integer of `k` bytes. -/
def readIntBE (k : Nat) : ThriftRead Int := fun bs => do
  let (d, bs) ← readBytes k bs
  return (intOf d, bs)

/-- Read a length or a size: it is not negative. -/
def readLength : ThriftRead Nat := fun bs => do
  let (n, bs) ← readIntBE 4 bs
  if 0 ≤ n then return (n.toNat, bs) else none

/-- Read a string. -/
def readLenStr : ThriftRead (List UInt8) := fun bs => do
  let (n, bs) ← readLength bs
  readBytes n bs

/-- Read a type. -/
def readType : ThriftRead ThriftType
  | [] => none
  | c :: bs => (ThriftType.ofCode c).map (·, bs)

/-- Read a number of things. -/
def readMany {α : Type} (read : ThriftRead α) : Nat → ThriftRead (List α)
  | 0, bs => some ([], bs)
  | n + 1, bs => do
    let (x, bs) ← read bs
    let (xs, bs) ← readMany read n bs
    return (x :: xs, bs)

/-- Read fields up to the stop byte, at most as many as the budget. -/
def readFields (read : ThriftType → ThriftRead ThriftValue) :
    Nat → ThriftRead (List (Int16 × ThriftValue))
  | 0, _ => none
  | _ + 1, [] => none
  | budget + 1, c :: bs =>
    if c = 0 then some ([], bs)
    else do
      let (t, bs) ← readType (c :: bs)
      let (id, bs) ← readIntBE 2 bs
      let (v, bs) ← read t bs
      let (fields, bs) ← readFields read budget bs
      return ((Int16.ofInt id, v) :: fields, bs)

/-- Read the elements of a set or a list. -/
def readElems (read : ThriftType → ThriftRead ThriftValue) :
    ThriftRead (ThriftType × List ThriftValue) := fun bs => do
  let (elem, bs) ← readType bs
  let (n, bs) ← readLength bs
  let (xs, bs) ← readMany (read elem) n bs
  return ((elem, xs), bs)

/-- Read an entry of a map. -/
def readEntry (read : ThriftType → ThriftRead ThriftValue) (key elem : ThriftType) :
    ThriftRead (ThriftValue × ThriftValue) := fun bs => do
  let (k, bs) ← read key bs
  let (v, bs) ← read elem bs
  return ((k, v), bs)

/-- Read a value of a type, with a budget for its depth. -/
def readValue : Nat → ThriftType → ThriftRead ThriftValue
  | 0, _, _ => none
  | _ + 1, .bool, bs => do
    let (d, bs) ← readBytes 1 bs
    if d = [0] then return (.bool false, bs) else if d = [1] then return (.bool true, bs) else none
  | _ + 1, .byte, bs => do
    let (n, bs) ← readIntBE 1 bs
    return (.byte (Int8.ofInt n), bs)
  | _ + 1, .double, bs => do
    let (d, bs) ← readBytes 8 bs
    return (.double (UInt64.ofNat (beNat d)), bs)
  | _ + 1, .i16, bs => do
    let (n, bs) ← readIntBE 2 bs
    return (.i16 (Int16.ofInt n), bs)
  | _ + 1, .i32, bs => do
    let (n, bs) ← readIntBE 4 bs
    return (.i32 (Int32.ofInt n), bs)
  | _ + 1, .i64, bs => do
    let (n, bs) ← readIntBE 8 bs
    return (.i64 (Int64.ofInt n), bs)
  | _ + 1, .string, bs => do
    let (s, bs) ← readLenStr bs
    return (.string s, bs)
  | budget + 1, .struct, bs => do
    let (fields, bs) ← readFields (readValue budget) bs.length bs
    return (.struct fields, bs)
  | budget + 1, .map, bs => do
    let (key, bs) ← readType bs
    let (elem, bs) ← readType bs
    let (n, bs) ← readLength bs
    let (entries, bs) ← readMany (readEntry (readValue budget) key elem) n bs
    return (.map key elem entries, bs)
  | budget + 1, .set, bs => do
    let ((elem, xs), bs) ← readElems (readValue budget) bs
    return (.set elem xs, bs)
  | budget + 1, .list, bs => do
    let ((elem, xs), bs) ← readElems (readValue budget) bs
    return (.list elem xs, bs)

/-! ### Reading back

Every reader reads back the encoding it is for and leaves what is behind it. -/

section ReadBack

variable (rest : List UInt8)

/-- Some bytes. -/
theorem readBytes_append {d : List UInt8} {k : Nat} (h : d.length = k) :
    readBytes k (d ++ rest) = some (d, rest) := by
  rw [readBytes, if_pos (by rw [List.length_append]; omega), List.take_left' h, List.drop_left' h]

/-- An integer. -/
theorem readIntBE_beInt {k : Nat} (hk : 0 < k) {x : Int} (hx : FitsInt k x) :
    readIntBE k (beInt k x ++ rest) = some (x, rest) := by
  simp only [readIntBE, readBytes_append rest (length_beInt k x), Option.bind_eq_bind,
    Option.bind_some, intOf_beInt hk hx]
  rfl

/-- A length. -/
theorem readLength_beInt {n : Nat} (h : n < 2 ^ 31) :
    readLength (beInt 4 n ++ rest) = some (n, rest) := by
  have hfits : FitsInt 4 (n : Int) := ⟨by omega, by omega⟩
  simp only [readLength, readIntBE_beInt rest (by decide : 0 < 4) hfits, Option.bind_eq_bind,
    Option.bind_some, if_pos (Int.natCast_nonneg n), Int.toNat_natCast]
  rfl

/-- A string. -/
theorem readLenStr_lenStr {s : List UInt8} (h : s.length < 2 ^ 31) :
    readLenStr (lenStr s ++ rest) = some (s, rest) := by
  rw [readLenStr, lenStr, List.append_assoc, readLength_beInt _ h, Option.bind_eq_bind,
    Option.bind_some]
  exact readBytes_append rest rfl

/-- A type. -/
theorem readType_code (t : ThriftType) : readType (t.code :: rest) = some (t, rest) := by
  rw [readType, ThriftType.ofCode_code, Option.map_some]

variable {read : ThriftType → ThriftRead ThriftValue}

/-- The reader reads the value back, whatever is behind it. -/
def ReadsBack (read : ThriftType → ThriftRead ThriftValue) (v : ThriftValue) : Prop :=
  ∀ rest, read v.type (v.bytes ++ rest) = some (v, rest)

/-- Elements of one type, from reading back each of them. -/
theorem readMany_elems {elem : ThriftType} {xs : List ThriftValue}
    (hwf : ThriftElemsWf elem xs) (hread : ∀ x ∈ xs, ReadsBack read x) :
    readMany (read elem) xs.length (thriftElems xs ++ rest) = some (xs, rest) := by
  induction xs with
  | nil => rfl
  | cons x xs ih =>
    obtain ⟨⟨htype, -⟩, hrest⟩ := hwf
    have hx := hread x List.mem_cons_self (thriftElems xs ++ rest)
    rw [htype] at hx
    rw [thriftElems, List.append_assoc, List.length_cons, readMany, hx, Option.bind_eq_bind,
      Option.bind_some]
    simp only [ih hrest fun y hy => hread y (List.mem_cons_of_mem x hy), Option.bind_eq_bind,
      Option.bind_some]
    rfl

/-- Entries, from reading back each key and each value. -/
theorem readMany_entries {key elem : ThriftType} {entries : List (ThriftValue × ThriftValue)}
    (hwf : ThriftEntriesWf key elem entries)
    (hread : ∀ p ∈ entries, ReadsBack read p.1 ∧ ReadsBack read p.2) :
    readMany (readEntry read key elem) entries.length (thriftEntries entries ++ rest)
      = some (entries, rest) := by
  induction entries with
  | nil => rfl
  | cons p entries ih =>
    obtain ⟨k, v⟩ := p
    obtain ⟨⟨hkey, -⟩, ⟨helem, -⟩, hrest⟩ := hwf
    obtain ⟨hk, hv⟩ := hread (k, v) List.mem_cons_self
    have hk' := hk (v.bytes ++ (thriftEntries entries ++ rest))
    have hv' := hv (thriftEntries entries ++ rest)
    rw [hkey] at hk'
    rw [helem] at hv'
    have hentry : readEntry read key elem (k.bytes ++ (v.bytes ++ (thriftEntries entries ++ rest)))
        = some ((k, v), thriftEntries entries ++ rest) := by
      simp only [readEntry, hk', hv', Option.bind_eq_bind, Option.bind_some]
      rfl
    rw [thriftEntries, List.append_assoc, List.append_assoc, List.length_cons, readMany, hentry,
      Option.bind_eq_bind, Option.bind_some]
    simp only [ih hrest fun q hq => hread q (List.mem_cons_of_mem _ hq), Option.bind_eq_bind,
      Option.bind_some]
    rfl

/-- Fields, from reading back the value of each, with a budget for all of them. -/
theorem readFields_fields {fields : List (Int16 × ThriftValue)} {budget : Nat}
    (hbudget : fields.length < budget) (hread : ∀ p ∈ fields, ReadsBack read p.2) :
    readFields read budget (thriftFields fields ++ rest) = some (fields, rest) := by
  induction fields generalizing budget with
  | nil =>
    obtain ⟨budget, rfl⟩ := Nat.exists_eq_succ_of_ne_zero (Nat.ne_of_gt hbudget)
    rfl
  | cons p fields ih =>
    obtain ⟨id, v⟩ := p
    obtain ⟨budget, rfl⟩ := Nat.exists_eq_succ_of_ne_zero (Nat.ne_of_gt (Nat.zero_lt_of_lt hbudget))
    rw [List.length_cons] at hbudget
    have hv := hread (id, v) List.mem_cons_self (thriftFields fields ++ rest)
    have hfields : readFields read budget (thriftFields fields ++ rest) = some (fields, rest) :=
      ih (by omega) fun q hq => hread q (List.mem_cons_of_mem _ hq)
    rw [thriftFields, List.cons_append, List.append_assoc, List.append_assoc, readFields,
      if_neg v.type.code_ne_zero, readType_code, Option.bind_eq_bind, Option.bind_some]
    simp only [readIntBE_beInt _ (by decide : 0 < 2) ⟨id.le_toInt, id.toInt_lt⟩, hv,
      hfields, Option.bind_eq_bind, Option.bind_some, Int16.ofInt_toInt]
    rfl

end ReadBack

/-! ### Sizes -/

/-- Every value has at least one byte. -/
theorem ThriftValue.length_pos (v : ThriftValue) : 0 < v.bytes.length := by
  cases v with
  | struct fields =>
    rw [ThriftValue.bytes]
    cases fields with
    | nil => exact Nat.one_pos
    | cons p fields => exact Nat.succ_pos _
  | string s => rw [ThriftValue.bytes, length_lenStr]; omega
  | bool b => exact Nat.one_pos
  | byte n => rw [ThriftValue.bytes, length_beInt]; omega
  | double bits => rw [ThriftValue.bytes, length_beBytes]; omega
  | i16 n => rw [ThriftValue.bytes, length_beInt]; omega
  | i32 n => rw [ThriftValue.bytes, length_beInt]; omega
  | i64 n => rw [ThriftValue.bytes, length_beInt]; omega
  | map key elem entries => exact Nat.succ_pos _
  | set elem xs => exact Nat.succ_pos _
  | list elem xs => exact Nat.succ_pos _

/-- An element is not longer than all of them. -/
theorem length_le_thriftElems {x : ThriftValue} {xs : List ThriftValue} (h : x ∈ xs) :
    x.bytes.length ≤ (thriftElems xs).length := by
  induction xs with
  | nil => cases h
  | cons y ys ih =>
    rw [thriftElems, List.length_append]
    rcases List.mem_cons.mp h with rfl | hmem
    · omega
    · have := ih hmem
      omega

/-- Neither part of an entry is longer than all entries. -/
theorem length_le_thriftEntries {p : ThriftValue × ThriftValue}
    {entries : List (ThriftValue × ThriftValue)} (h : p ∈ entries) :
    p.1.bytes.length ≤ (thriftEntries entries).length
      ∧ p.2.bytes.length ≤ (thriftEntries entries).length := by
  induction entries with
  | nil => cases h
  | cons q entries ih =>
    rw [thriftEntries, List.length_append, List.length_append]
    rcases List.mem_cons.mp h with rfl | hmem
    · constructor <;> omega
    · have := ih hmem
      constructor <;> omega

/-- The value of a field is shorter than the fields, and there are fewer fields than bytes. -/
theorem length_lt_thriftFields (fields : List (Int16 × ThriftValue)) :
    fields.length < (thriftFields fields).length
      ∧ ∀ p ∈ fields, p.2.bytes.length < (thriftFields fields).length := by
  induction fields with
  | nil => exact ⟨Nat.one_pos, fun p hp => nomatch hp⟩
  | cons q fields ih =>
    obtain ⟨hcount, hmem⟩ := ih
    rw [thriftFields, List.length_cons, List.length_cons, List.length_append, List.length_append]
    refine ⟨by omega, fun p hp => ?_⟩
    rcases List.mem_cons.mp hp with rfl | hp
    · omega
    · have := hmem p hp
      omega

/-- The well-formedness of each field. -/
theorem ThriftFieldsWf.mem {fields : List (Int16 × ThriftValue)} (h : ThriftFieldsWf fields) :
    ∀ p ∈ fields, p.2.Wf := by
  induction fields with
  | nil => exact fun p hp => nomatch hp
  | cons q fields ih =>
    intro p hp
    rcases List.mem_cons.mp hp with rfl | hp
    · exact h.1
    · exact ih h.2 p hp

/-- The well-formedness of each element. -/
theorem ThriftElemsWf.mem {elem : ThriftType} {xs : List ThriftValue} (h : ThriftElemsWf elem xs) :
    ∀ x ∈ xs, x.Wf := by
  induction xs with
  | nil => exact fun x hx => nomatch hx
  | cons y ys ih =>
    intro x hx
    rcases List.mem_cons.mp hx with rfl | hx
    · exact h.1.2
    · exact ih h.2 x hx

/-- The well-formedness of each entry. -/
theorem ThriftEntriesWf.mem {key elem : ThriftType} {entries : List (ThriftValue × ThriftValue)}
    (h : ThriftEntriesWf key elem entries) : ∀ p ∈ entries, p.1.Wf ∧ p.2.Wf := by
  induction entries with
  | nil => exact fun p hp => nomatch hp
  | cons q entries ih =>
    intro p hp
    rcases List.mem_cons.mp hp with rfl | hp
    · exact ⟨h.1.2, h.2.1.2⟩
    · exact ih h.2.2 p hp

/-! ### The round trip -/

/-- The elements of a set or a list, from reading each of them back. -/
theorem readElems_bytes {read : ThriftType → ThriftRead ThriftValue} {elem : ThriftType}
    {xs : List ThriftValue} (rest : List UInt8) (hcount : xs.length < 2 ^ 31)
    (helems : ThriftElemsWf elem xs) (hback : ∀ x ∈ xs, ReadsBack read x) :
    readElems read (elem.code :: (beInt 4 xs.length ++ (thriftElems xs ++ rest)))
      = some ((elem, xs), rest) := by
  rw [readElems, readType_code, Option.bind_eq_bind, Option.bind_some]
  dsimp only
  rw [readLength_beInt _ hcount, Option.bind_eq_bind, Option.bind_some]
  dsimp only
  rw [readMany_elems rest helems hback, Option.bind_eq_bind, Option.bind_some]
  rfl

/-- A map, from reading back its entries. -/
theorem readValue_map {budget : Nat} {key elem : ThriftType}
    {entries : List (ThriftValue × ThriftValue)} {bs rest : List UInt8}
    (hcount : entries.length < 2 ^ 31)
    (hmany : readMany (readEntry (readValue budget) key elem) entries.length bs
      = some (entries, rest)) :
    readValue (budget + 1) .map (key.code :: elem.code :: (beInt 4 entries.length ++ bs))
      = some (.map key elem entries, rest) := by
  rw [readValue, readType_code, Option.bind_eq_bind, Option.bind_some]
  dsimp only
  rw [readType_code, Option.bind_eq_bind, Option.bind_some]
  dsimp only
  rw [readLength_beInt bs hcount, Option.bind_eq_bind, Option.bind_some]
  dsimp only
  rw [hmany, Option.bind_some]
  rfl

/-- Elements within the budget read back, one by one. -/
theorem ThriftElemsWf.readsBack {read : ThriftType → ThriftRead ThriftValue} {budget : Nat}
    {elem : ThriftType} {xs : List ThriftValue} (h : ThriftElemsWf elem xs)
    (hbudget : (thriftElems xs).length ≤ budget)
    (hread : ∀ {x : ThriftValue}, x.Wf → x.bytes.length ≤ budget → ReadsBack read x) :
    ∀ x ∈ xs, ReadsBack read x := by
  intro x hx
  have := length_le_thriftElems hx
  exact hread (h.mem x hx) (by omega)

/-- **Round trip of values**: with a budget of its length a well-formed value reads back. The
induction is on the budget, the parts of a value being shorter than the value. -/
theorem readsBack_value {budget : Nat} {v : ThriftValue} (hwf : v.Wf)
    (hbudget : v.bytes.length ≤ budget) : ReadsBack (readValue budget) v := by
  induction budget generalizing v with
  | zero => exact absurd v.length_pos (by omega)
  | succ budget ih =>
    intro rest
    cases v with
    | bool b => cases b <;> rfl
    | byte n =>
      have hfits : FitsInt 1 n.toInt := ⟨n.le_toInt, n.toInt_lt⟩
      simp only [ThriftValue.type, ThriftValue.bytes, readValue,
        readIntBE_beInt rest (by decide : 0 < 1) hfits, Option.bind_eq_bind, Option.bind_some,
        Int8.ofInt_toInt]
      rfl
    | double bits =>
      have hlt : bits.toNat < 256 ^ 8 := bits.toNat_lt
      simp only [ThriftValue.type, ThriftValue.bytes, readValue,
        readBytes_append rest (length_beBytes 8 _), Option.bind_eq_bind, Option.bind_some,
        beNat_beBytes, Nat.mod_eq_of_lt hlt, UInt64.ofNat_toNat]
      rfl
    | i16 n =>
      have hfits : FitsInt 2 n.toInt := ⟨n.le_toInt, n.toInt_lt⟩
      simp only [ThriftValue.type, ThriftValue.bytes, readValue,
        readIntBE_beInt rest (by decide : 0 < 2) hfits, Option.bind_eq_bind, Option.bind_some,
        Int16.ofInt_toInt]
      rfl
    | i32 n =>
      have hfits : FitsInt 4 n.toInt := ⟨n.le_toInt, n.toInt_lt⟩
      simp only [ThriftValue.type, ThriftValue.bytes, readValue,
        readIntBE_beInt rest (by decide : 0 < 4) hfits, Option.bind_eq_bind, Option.bind_some,
        Int32.ofInt_toInt]
      rfl
    | i64 n =>
      have hfits : FitsInt 8 n.toInt := ⟨n.le_toInt, n.toInt_lt⟩
      simp only [ThriftValue.type, ThriftValue.bytes, readValue,
        readIntBE_beInt rest (by decide : 0 < 8) hfits, Option.bind_eq_bind, Option.bind_some,
        Int64.ofInt_toInt]
      rfl
    | string s =>
      simp only [ThriftValue.type, ThriftValue.bytes, readValue, readLenStr_lenStr rest hwf,
        Option.bind_eq_bind, Option.bind_some]
      rfl
    | struct fields =>
      obtain ⟨hcount, hshort⟩ := length_lt_thriftFields fields
      have hfields : readFields (readValue budget) (thriftFields fields ++ rest).length
          (thriftFields fields ++ rest) = some (fields, rest) := by
        apply readFields_fields
        · rw [List.length_append]
          omega
        · intro p hp
          have := hshort p hp
          rw [ThriftValue.bytes] at hbudget
          exact ih (hwf.mem p hp) (by omega)
      simp only [ThriftValue.type, ThriftValue.bytes, readValue, hfields, Option.bind_eq_bind,
        Option.bind_some]
      rfl
    | map key elem entries =>
      rw [ThriftValue.Wf] at hwf
      obtain ⟨hcount, hentries⟩ := hwf
      simp only [ThriftValue.bytes, List.length_cons, List.length_append, length_beInt] at hbudget
      have hmany : readMany (readEntry (readValue budget) key elem) entries.length
          (thriftEntries entries ++ rest) = some (entries, rest) := by
        refine readMany_entries rest hentries fun p hp => ?_
        obtain ⟨hk, hv⟩ := length_le_thriftEntries hp
        obtain ⟨hwk, hwv⟩ := hentries.mem p hp
        exact ⟨ih hwk (by omega), ih hwv (by omega)⟩
      rw [ThriftValue.type, ThriftValue.bytes, List.cons_append, List.cons_append,
        List.append_assoc]
      exact readValue_map hcount hmany
    | set elem xs =>
      rw [ThriftValue.Wf] at hwf
      obtain ⟨hcount, helems⟩ := hwf
      simp only [ThriftValue.bytes, List.length_cons, List.length_append, length_beInt] at hbudget
      have hback := helems.readsBack (by omega) ih
      rw [ThriftValue.type, ThriftValue.bytes, List.cons_append, List.append_assoc, readValue,
        readElems_bytes rest hcount helems hback, Option.bind_eq_bind, Option.bind_some]
      rfl
    | list elem xs =>
      rw [ThriftValue.Wf] at hwf
      obtain ⟨hcount, helems⟩ := hwf
      simp only [ThriftValue.bytes, List.length_cons, List.length_append, length_beInt] at hbudget
      have hback := helems.readsBack (by omega) ih
      rw [ThriftValue.type, ThriftValue.bytes, List.cons_append, List.append_assoc, readValue,
        readElems_bytes rest hcount helems hback, Option.bind_eq_bind, Option.bind_some]
      rfl

/-! ### Messages -/

/-- The types of messages. -/
inductive ThriftMessageType
  | call
  | reply
  | exception
  | oneway
  deriving DecidableEq, Repr

/-- The type on the wire. -/
def ThriftMessageType.code : ThriftMessageType → UInt8
  | .call => 1
  | .reply => 2
  | .exception => 3
  | .oneway => 4

/-- The type of a code. -/
def ThriftMessageType.ofCode (c : UInt8) : Option ThriftMessageType :=
  [call, reply, exception, oneway].find? fun t => t.code == c

/-- A code is the code of its type. -/
@[simp] theorem ThriftMessageType.ofCode_code (t : ThriftMessageType) : ofCode t.code = some t := by
  cases t <;> rfl

/-- A message. -/
structure ThriftMessage where
  /-- The type. -/
  type : ThriftMessageType
  /-- The name of the method. -/
  name : List UInt8
  /-- The sequence number. -/
  seq : Int32
  /-- The fields of the struct: the arguments of a call, the result of a reply. -/
  fields : List (Int16 × ThriftValue)

/-- The encoding of a message: the version word with the type in its last byte, the name, the
sequence number and the struct. -/
def ThriftMessage.bytes (m : ThriftMessage) : List UInt8 :=
  [0x80, 0x01, 0x00, m.type.code]
    ++ (lenStr m.name ++ (beInt 4 m.seq.toInt ++ thriftFields m.fields))

/-- Well-formed messages. -/
def ThriftMessage.Wf (m : ThriftMessage) : Prop :=
  m.name.length < 2 ^ 31 ∧ ThriftFieldsWf m.fields

/-- Read the version word: the version is in its first two bytes, the type of the message in the
last one. -/
def readVersion : ThriftRead ThriftMessageType
  | 0x80 :: 0x01 :: _ :: c :: bs => (ThriftMessageType.ofCode c).map (·, bs)
  | _ => none

/-- Read a message. The length of the input is budget enough. -/
def readMessage : ThriftRead ThriftMessage := fun input => do
  let (type, bs) ← readVersion input
  let (name, bs) ← readLenStr bs
  let (seq, bs) ← readIntBE 4 bs
  let (fields, bs) ← readFields (readValue input.length) input.length bs
  return ({ type := type, name := name, seq := Int32.ofInt seq, fields := fields }, bs)

/-- **Round trip of messages**: a well-formed message reads back, and what is behind it is left. -/
theorem readMessage_bytes {m : ThriftMessage} (h : m.Wf) (rest : List UInt8) :
    readMessage (m.bytes ++ rest) = some (m, rest) := by
  obtain ⟨hname, hfields⟩ := h
  obtain ⟨hcount, hshort⟩ := length_lt_thriftFields m.fields
  have hlen : (thriftFields m.fields).length ≤ (m.bytes ++ rest).length := by
    simp only [ThriftMessage.bytes, List.length_append]
    omega
  have hseq : FitsInt 4 m.seq.toInt := ⟨m.seq.le_toInt, m.seq.toInt_lt⟩
  have hread : readFields (readValue (m.bytes ++ rest).length) (m.bytes ++ rest).length
      (thriftFields m.fields ++ rest) = some (m.fields, rest) := by
    refine readFields_fields rest (by omega) fun p hp => ?_
    have := hshort p hp
    exact readsBack_value (hfields.mem p hp) (by omega)
  have hversion : readVersion (m.bytes ++ rest) = some (m.type,
      lenStr m.name ++ (beInt 4 m.seq.toInt ++ (thriftFields m.fields ++ rest))) := by
    simp only [ThriftMessage.bytes, List.cons_append, List.nil_append, List.append_assoc,
      readVersion, ThriftMessageType.ofCode_code, Option.map_some]
  rw [readMessage, hversion, Option.bind_eq_bind, Option.bind_some]
  dsimp only
  rw [readLenStr_lenStr _ hname, Option.bind_eq_bind, Option.bind_some]
  dsimp only
  rw [readIntBE_beInt _ (by decide) hseq, Option.bind_eq_bind, Option.bind_some]
  dsimp only
  rw [hread, Option.bind_eq_bind, Option.bind_some, Int32.ofInt_toInt]
  rfl

end Wee
