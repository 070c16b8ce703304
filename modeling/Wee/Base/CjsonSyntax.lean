import Wee.Base.CjsonLiteral

/-! # Reading written values (`base/cJSON.c`)

A value is written as a tree: white space may stand around every item, strings are literals, and a
number is a text that `strtod` reads as a whole. `cJSON_Parse` returns the value of every tree that
is nested up to the limit, and `NULL` for every tree that is nested deeper. -/

namespace Wee

variable {ν α : Type}

/-! ### Trees -/

/-- White space: what `buffer_skip_whitespace` skips, but for the NUL. -/
structure Spaces where
  /-- The characters. -/
  bytes : List UInt8
  /-- They are skipped. -/
  wf : ∀ c ∈ bytes, c ≠ 0 ∧ c ≤ 32

/-- No white space. -/
def Spaces.none : Spaces := ⟨[], fun _ hc => absurd hc List.not_mem_nil⟩

/-- Given characters that are white space. -/
def Spaces.ofBytes (bytes : List UInt8)
    (h : (bytes.all fun c => decide (c ≠ 0) && decide (c ≤ 32)) = true) : Spaces where
  bytes := bytes
  wf := fun c hc => by simpa using List.all_eq_true.mp h c hc

/-- White space behind white space. -/
def Spaces.append (s t : Spaces) : Spaces where
  bytes := s.bytes ++ t.bytes
  wf := fun c hc => (List.mem_append.mp hc).elim (s.wf c) (t.wf c)

/-- A character that `parse_number` copies. -/
def isNumberText (c : UInt8) : Bool := isNumberChar c || c == 0x2E

/-- A number as it is written. -/
structure NumberText (lib : NumberLib ν) where
  /-- The characters. -/
  text : List UInt8
  /-- The number. -/
  value : ν
  /-- The first one is a minus or a digit. -/
  first : ∃ c cs, text = c :: cs ∧ (c = 0x2D ∨ 0x30 ≤ c ∧ c ≤ 0x39)
  /-- All of them are copied. -/
  chars : ∀ c ∈ text, isNumberText c = true
  /-- There is room for them. -/
  length_le : text.length ≤ 63
  /-- `strtod` reads all of them. -/
  reads : lib.strtod (text.map fun c => if c = 0x2E then lib.decimalPoint else c)
    = (value, text.length)

/-- A name and what stands around it, up to the value. -/
structure MemberName where
  /-- White space before the name. -/
  before : Spaces
  /-- The name. -/
  name : List StringPiece
  /-- White space before the colon. -/
  between : Spaces
  /-- White space behind the colon. -/
  behind : Spaces

/-- A value as it is written. White space stands around each item of an array or an object, and in
front of all of them. -/
inductive JsonSyntax (lib : NumberLib ν)
  /-- `null`. -/
  | null
  /-- `true` and `false`. -/
  | bool (b : Bool)
  /-- A number. -/
  | number (n : NumberText lib)
  /-- A string. -/
  | string (s : List StringPiece)
  /-- An array. -/
  | array (inner : Spaces) (items : List (Spaces × JsonSyntax lib × Spaces))
  /-- An object. -/
  | object (inner : Spaces) (members : List (MemberName × JsonSyntax lib × Spaces))

variable {lib : NumberLib ν}

mutual

/-- The text of a tree. -/
def JsonSyntax.text : JsonSyntax lib → List UInt8
  | .null => asciiBytes "null"
  | .bool false => asciiBytes "false"
  | .bool true => asciiBytes "true"
  | .number n => n.text
  | .string s => literalText s
  | .array inner items => 0x5B :: (inner.bytes ++ itemsText items ++ [0x5D])
  | .object inner members => 0x7B :: (inner.bytes ++ membersText members ++ [0x7D])

/-- The text of items, with a comma between two of them. -/
def itemsText : List (Spaces × JsonSyntax lib × Spaces) → List UInt8
  | [] => []
  | (before, item, after) :: next =>
    before.bytes ++ item.text ++ after.bytes ++ (if next.isEmpty then [] else [0x2C])
      ++ itemsText next

/-- The text of members. -/
def membersText : List (MemberName × JsonSyntax lib × Spaces) → List UInt8
  | [] => []
  | (name, item, after) :: next =>
    name.before.bytes ++ (literalText name.name ++ name.between.bytes ++ [0x3A]
      ++ name.behind.bytes ++ item.text) ++ after.bytes ++ (if next.isEmpty then [] else [0x2C])
      ++ membersText next

end

mutual

/-- The value of a tree. -/
def JsonSyntax.value : JsonSyntax lib → CjsonValue ν
  | .null => .null
  | .bool b => .bool b
  | .number n => .number n.value
  | .string s => .string (literalValue s)
  | .array _ items => .array (itemsValue items)
  | .object _ members => .object (membersValue members)

/-- The values of items. -/
def itemsValue : List (Spaces × JsonSyntax lib × Spaces) → List (CjsonValue ν)
  | [] => []
  | (_, item, _) :: next => item.value :: itemsValue next

/-- The names and values of members. -/
def membersValue : List (MemberName × JsonSyntax lib × Spaces) → List (CStr × CjsonValue ν)
  | [] => []
  | (name, item, _) :: next => (literalValue name.name, item.value) :: membersValue next

end

/-! ### Standing before a text -/

/-- The buffer stands before `rest`. -/
structure ParseBuffer.Before (b : ParseBuffer) (rest : List UInt8) : Prop where
  /-- It is inside. -/
  inside : b.Inside
  /-- What is left. -/
  drop : b.content.drop b.offset = rest

variable {b : ParseBuffer} {c : UInt8} {rest cs : List UInt8} {fuel : Nat}

/-- How much is left. -/
theorem ParseBuffer.Before.length (h : b.Before rest) : rest.length = b.length - b.offset := by
  rw [← h.drop, List.length_drop, h.inside.length]

/-- Moving on twice. -/
theorem ParseBuffer.advance_advance (b : ParseBuffer) (i j : Nat) :
    (b.advance i).advance j = b.advance (i + j) := by
  rw [advance, advance, advance, Nat.add_assoc]

/-- Moving on leaves no more than before. -/
theorem ParseBuffer.advance_left_le {m : Nat} (k : Nat) (h : b.length - b.offset ≤ m) :
    (b.advance k).length - (b.advance k).offset ≤ m :=
  Nat.le_trans (Nat.sub_le_sub_left (Nat.le_add_right _ _) _) h

/-- Moving on. -/
theorem ParseBuffer.Before.advance (h : b.Before (cs ++ rest)) (hrest : rest ≠ []) :
    (b.advance cs.length).Before rest := by
  have hlen := h.length
  have hpos := List.length_pos_iff.mpr hrest
  rw [List.length_append] at hlen
  refine ⟨⟨h.inside.length, ?_, h.inside.nul, h.inside.depth_le⟩, ?_⟩
  · show b.offset + cs.length < b.length
    omega
  · show b.content.drop (b.offset + cs.length) = rest
    rw [← List.drop_drop, h.drop, List.drop_left]

/-- Moving on by one character. -/
theorem ParseBuffer.Before.tail (h : b.Before (c :: rest)) (hrest : rest ≠ []) :
    (b.advance 1).Before rest := by
  have hsplit : b.Before ([c] ++ rest) := h
  exact hsplit.advance hrest

/-- Looking at the next character. -/
theorem ParseBuffer.Before.isAt_eq (h : b.Before (c :: rest)) (p : UInt8 → Bool) :
    b.isAt p = .ok (p c) := by
  have hload : b.atOffset 0 = .ok c := cellLoad_of_drop h.drop rfl
  rw [isAt, if_pos (show b.CanAccessAtIndex 0 from h.inside.offset_lt), hload]
  rfl

/-- Skipping white space, up to another character or to the end. -/
theorem skipWhitespaceLoop_spaces {s : List UInt8} (hs : ∀ d ∈ s, d ≤ 32)
    (hrest : ∀ d ds, rest = d :: ds → ¬ d ≤ 32) (hlength : b.length = b.content.length)
    (h : b.content.drop b.offset = s ++ rest) (hle : b.offset ≤ b.length)
    (hfuel : s.length < fuel) : skipWhitespaceLoop fuel b = .ok (b.advance s.length) := by
  have hlen := congrArg List.length h
  rw [List.length_drop, List.length_append, ← hlength] at hlen
  induction s generalizing b fuel with
  | nil =>
    obtain ⟨fuel, rfl⟩ := Nat.exists_eq_succ_of_ne_zero (Nat.ne_of_gt hfuel)
    rw [skipWhitespaceLoop]
    cases rest with
    | nil =>
      rw [List.length_nil] at hlen
      rw [if_neg (show ¬ b.CanAccessAtIndex 0 by show ¬ b.offset < b.length; omega)]
      rfl
    | cons d ds =>
      have hload : b.atOffset 0 = .ok d := cellLoad_of_drop h rfl
      rw [List.length_cons] at hlen
      rw [if_pos (show b.CanAccessAtIndex 0 by show b.offset < b.length; omega), hload,
        exec_ok_bind, if_neg (hrest d ds rfl)]
      rfl
  | cons d s ih =>
    obtain ⟨fuel, rfl⟩ := Nat.exists_eq_succ_of_ne_zero (Nat.ne_of_gt (Nat.zero_lt_of_lt hfuel))
    have hload : b.atOffset 0 = .ok d := cellLoad_of_drop h rfl
    rw [List.length_cons] at hlen
    have hnext : (b.advance 1).content.drop (b.advance 1).offset = s ++ rest := by
      show b.content.drop (b.offset + 1) = _
      rw [← List.drop_drop, h]
      rfl
    have hlength' : (b.advance 1).length = (b.advance 1).content.length := hlength
    rw [skipWhitespaceLoop, if_pos (show b.CanAccessAtIndex 0 by show b.offset < b.length; omega),
      hload, exec_ok_bind, if_pos (hs d List.mem_cons_self),
      ih (fun e he => hs e (List.mem_cons_of_mem d he)) hlength' hnext
        (show b.offset + 1 ≤ b.length by omega) (Nat.lt_of_succ_lt_succ hfuel)
        (show b.length - (b.offset + 1) = s.length + rest.length by omega)]
    rw [List.length_cons, ParseBuffer.advance_advance, Nat.add_comm 1]

/-- **White space in front of a character** is skipped. -/
theorem ParseBuffer.Before.skip_spaces {s : List UInt8} (hs : ∀ d ∈ s, d ≤ 32) (hc : ¬ c ≤ 32)
    (h : b.Before (s ++ c :: rest)) (hfuel : b.length - b.offset ≤ fuel) :
    bufferSkipWhitespace fuel b = .ok (b.advance s.length)
      ∧ (b.advance s.length).Before (c :: rest) := by
  have hlen := h.length
  rw [List.length_append, List.length_cons] at hlen
  have hnext := h.advance (List.cons_ne_nil c rest)
  have hstop (d : UInt8) (ds : List UInt8) (heq : c :: rest = d :: ds) : ¬ d ≤ 32 := by
    cases heq
    exact hc
  refine ⟨?_, hnext⟩
  rw [bufferSkipWhitespace, skipWhitespaceLoop_spaces hs hstop h.inside.length h.drop
    (Nat.le_of_lt h.inside.offset_lt) (by omega), exec_ok_bind,
    if_neg (Nat.ne_of_lt hnext.inside.offset_lt)]
  rfl

/-- The same of white space that is written. -/
theorem ParseBuffer.Before.skip_eq (s : Spaces) (hc : ¬ c ≤ 32)
    (h : b.Before (s.bytes ++ c :: rest)) (hfuel : b.length - b.offset ≤ fuel) :
    bufferSkipWhitespace fuel b = .ok (b.advance s.bytes.length)
      ∧ (b.advance s.bytes.length).Before (c :: rest) :=
  h.skip_spaces (fun d hd => (s.wf d hd).2) hc hfuel

/-- **White space in front of the NUL** is skipped, and the buffer steps back to the NUL. -/
theorem ParseBuffer.Before.skip_end {s : List UInt8} (hs : ∀ d ∈ s, d ≤ 32)
    (h : b.Before (s ++ [0])) (hfuel : b.length - b.offset < fuel) :
    bufferSkipWhitespace fuel b = .ok (b.advance s.length)
      ∧ (b.advance s.length).Before [0] := by
  have hlen := h.length
  rw [List.length_append, List.length_singleton] at hlen
  have hlt := h.inside.offset_lt
  have hall : ∀ d ∈ s ++ [0], d ≤ 32 := by
    intro d hd
    rcases List.mem_append.mp hd with hd | hd
    · exact hs d hd
    · rw [List.mem_singleton.mp hd]
      decide
  have hdrop : b.content.drop b.offset = (s ++ [0]) ++ [] := by rw [h.drop, List.append_nil]
  have hend : (b.advance (s ++ [0]).length).offset = (b.advance (s ++ [0]).length).length := by
    show b.offset + (s ++ [0]).length = b.length
    rw [List.length_append, List.length_singleton]
    omega
  refine ⟨?_, h.advance (List.cons_ne_nil 0 [])⟩
  rw [bufferSkipWhitespace, skipWhitespaceLoop_spaces hall (fun _ _ heq => absurd heq.symm (List.cons_ne_nil _ _))
    h.inside.length hdrop (Nat.le_of_lt hlt)
    (by rw [List.length_append, List.length_singleton]; omega), exec_ok_bind, if_pos hend]
  have hback : (b.advance (s ++ [0]).length).back = b.advance s.length := by
    rw [List.length_append, List.length_singleton]
    rfl
  rw [hback]
  rfl

/-- A word that stands there. -/
theorem wordAt_self {content word : List UInt8} {i : Nat} (h : content.drop i = word ++ rest) :
    wordAt content i word = .ok true := by
  induction word generalizing i with
  | nil => rfl
  | cons w word ih =>
    have hload : cellLoad content i = .ok w := cellLoad_of_drop (j := 0) h rfl
    have hnext : content.drop (i + 1) = word ++ rest := by
      rw [← List.drop_drop, h]
      rfl
    rw [wordAt, hload, exec_ok_bind, if_pos rfl, ih hnext]

/-- A word that stands in front of a character is found. -/
theorem ParseBuffer.Before.isWord_self {word : List UInt8} (h : b.Before (word ++ c :: rest)) :
    b.isWord word = .ok true := by
  have hlen := h.length
  rw [List.length_append, List.length_cons] at hlen
  have hlt := h.inside.offset_lt
  rw [isWord, if_pos (show b.CanRead word.length by show _ ≤ _; omega), wordAt_self h.drop]

/-- A word with another first character is not found. -/
theorem ParseBuffer.Before.isWord_ne {w : UInt8} {word : List UInt8} (h : b.Before (c :: rest))
    (hne : c ≠ w) : b.isWord (w :: word) = .ok false := by
  rw [isWord]
  split
  · have hload : cellLoad b.content b.offset = .ok c := cellLoad_of_drop (j := 0) h.drop rfl
    rw [wordAt, hload, exec_ok_bind, if_neg hne]
    rfl
  · rfl

/-! ### Numbers -/

/-- The next character does not belong to a number. -/
def Ends (rest : List UInt8) : Prop := ∃ c cs, rest = c :: cs ∧ isNumberText c = false

/-- The copied characters. -/
theorem numberLoop_text {decimalPoint : UInt8} {n i : Nat} (hinside : b.Inside)
    (h : b.content.drop (b.offset + i) = cs ++ c :: rest)
    (hcs : ∀ d ∈ cs, isNumberText d = true) (hc : isNumberText c = false) (hn : cs.length ≤ n) :
    numberLoop decimalPoint b n i = .ok (cs.map fun d => if d = 0x2E then decimalPoint else d) := by
  have hpoint (d : UInt8) (hd : isNumberChar d = true) : d ≠ 0x2E := by
    rintro rfl
    exact absurd hd (by decide)
  have hread {l : List UInt8} {d : UInt8} {j : Nat} (hl : b.content.drop (b.offset + j) = d :: l) :
      b.CanAccessAtIndex j ∧ b.atOffset j = .ok d := by
    have hload : cellLoad b.content (b.offset + j + 0) = .ok d := cellLoad_of_drop hl rfl
    refine ⟨?_, hload⟩
    have hlen := congrArg List.length hl
    rw [List.length_drop, List.length_cons, ← hinside.length] at hlen
    show b.offset + j < b.length
    omega
  induction cs generalizing n i with
  | nil =>
    cases n with
    | zero => rfl
    | succ n =>
      obtain ⟨haccess, hload⟩ := hread h
      rw [isNumberText, Bool.or_eq_false_iff] at hc
      rw [numberLoop, if_pos haccess, hload, exec_ok_bind, hc.1, if_neg Bool.false_ne_true,
        if_neg (beq_eq_false_iff_ne.mp hc.2)]
      rfl
  | cons d cs ih =>
    obtain ⟨n, rfl⟩ := Nat.exists_eq_succ_of_ne_zero (Nat.ne_of_gt (Nat.zero_lt_of_lt hn))
    obtain ⟨haccess, hload⟩ := hread h
    have hnext : b.content.drop (b.offset + (i + 1)) = cs ++ c :: rest := by
      rw [← Nat.add_assoc, ← List.drop_drop, h]
      rfl
    have hrest := ih hnext (fun e he => hcs e (List.mem_cons_of_mem d he))
      (Nat.le_of_succ_le_succ hn)
    rw [numberLoop, if_pos haccess, hload, exec_ok_bind, List.map_cons]
    by_cases hchar : isNumberChar d = true
    · rw [if_pos hchar, hrest, exec_ok_bind, if_neg (hpoint d hchar)]
      rfl
    · have hd : d = 0x2E := by
        have hd := hcs d List.mem_cons_self
        rw [isNumberText, Bool.or_eq_true_iff] at hd
        exact eq_of_beq (hd.resolve_left hchar)
      rw [if_neg hchar, if_pos hd, hrest, exec_ok_bind, if_pos hd]
      rfl

/-- **A written number** is read. -/
theorem NumberText.parseNumber_eq (n : NumberText lib) (h : b.Before (n.text ++ rest))
    (hrest : Ends rest) :
    parseNumber lib b = .ok (some (.number n.value), b.advance n.text.length) := by
  obtain ⟨c, cs, rfl, hc⟩ := hrest
  obtain ⟨d, ds, htext, -⟩ := n.first
  have hpos : n.text.length ≠ 0 := by rw [htext]; exact Nat.succ_ne_zero _
  rw [parseNumber, numberLoop_text (i := 0) h.inside h.drop n.chars hc n.length_le, exec_ok_bind,
    n.reads]
  dsimp only
  rw [if_neg hpos]
  rfl

/-! ### Lists -/

/-- A parser reads `text`: it returns `value` if the nesting `nest` of that is in the limit and
nothing if it is not. At most `n` bytes are left before the end. -/
def Reads (parseItem : ItemParser α) (text : List UInt8) (nest : Nat) (value : α) (n : Nat) :
    Prop :=
  ∀ b rest, ParseBuffer.Before b (text ++ rest) → Ends rest → b.length - b.offset ≤ n →
    (b.depth + nest ≤ cjsonNestingLimit →
      parseItem b = .ok (some value, b.advance text.length)) ∧
    (cjsonNestingLimit < b.depth + nest → ∃ b', parseItem b = .ok (none, b'))

/-- A text begins with a character that is no white space and no closing bracket. -/
def Starts (text : List UInt8) : Prop :=
  ∃ c cs, text = c :: cs ∧ ¬ c ≤ 32 ∧ c ≠ 0x5D ∧ c ≠ 0x7D

/-- An item of a list as it is written. -/
structure WrittenItem (α : Type) where
  /-- White space before it. -/
  before : Spaces
  /-- Its text. -/
  text : List UInt8
  /-- What it stands for. -/
  value : α
  /-- How deep it is nested. -/
  nest : Nat
  /-- White space behind it. -/
  after : Spaces

/-- The text of a list. -/
def listText : List (WrittenItem α) → List UInt8
  | [] => []
  | w :: ws =>
    w.before.bytes ++ w.text ++ w.after.bytes ++ (if ws.isEmpty then [] else [0x2C])
      ++ listText ws

/-- An item can be read. -/
structure WrittenItem.Ok (parseItem : ItemParser α) (n : Nat) (w : WrittenItem α) : Prop where
  /-- The parser reads it. -/
  reads : Reads parseItem w.text w.nest w.value n
  /-- Its first character. -/
  starts : Starts w.text

/-- What stands behind an item ends a number. -/
theorem ends_spaces (s : Spaces) (hc : isNumberText c = false) : Ends (s.bytes ++ c :: rest) := by
  obtain ⟨bytes, hwf⟩ := s
  cases bytes with
  | nil => exact ⟨c, rest, rfl, hc⟩
  | cons d bytes =>
    refine ⟨d, _, rfl, ?_⟩
    have hall : ∀ n < 33, isNumberText (UInt8.ofNat n) = false := by decide
    have hle := UInt8.le_iff_toNat_le.mp (hwf d List.mem_cons_self).2
    have h := hall d.toNat (Nat.lt_succ_of_le hle)
    rwa [UInt8.ofNat_toNat] at h

variable {parseItem : ItemParser α} {close : UInt8} {n : Nat}

/-- **One round over an item**: up to the character behind it, if it is not nested too deep. -/
theorem WrittenItem.Ok.round {w : WrittenItem α} (hw : w.Ok parseItem n) {items : List α}
    (hb : (b.advance 1).Before (w.before.bytes ++ w.text ++ w.after.bytes ++ c :: rest))
    (hspace : ¬ c ≤ 32) (hc : isNumberText c = false) (hn : b.length - b.offset ≤ n + 1)
    (hfuel : b.length - b.offset ≤ fuel + 1) :
    (b.depth + w.nest ≤ cjsonNestingLimit → ∃ b' : ParseBuffer, b'.Before (c :: rest)
      ∧ b' = b.advance (1 + (w.before.bytes ++ w.text ++ w.after.bytes).length)
      ∧ itemsLoop parseItem close (fuel + 1) b items = (b'.isAt (· == 0x2C) >>= fun comma =>
        if comma then itemsLoop parseItem close fuel b' (items ++ [w.value])
        else do
          let closed ← b'.isAt (· == close)
          return (if closed then some (items ++ [w.value]) else none, b'))) ∧
    (cjsonNestingLimit < b.depth + w.nest →
      ∃ b', itemsLoop parseItem close (fuel + 1) b items = .ok (none, b')) := by
  obtain ⟨d, ds, htext, hd, -⟩ := hw.starts
  have hadvance : (b.advance 1).length - (b.advance 1).offset = b.length - b.offset - 1 :=
    Nat.sub_add_eq _ _ _
  have hfirst : (b.advance 1).Before
      (w.before.bytes ++ d :: (ds ++ (w.after.bytes ++ c :: rest))) := by
    rwa [htext, List.append_assoc, List.append_assoc, List.cons_append] at hb
  obtain ⟨hskip, hb₁⟩ := hfirst.skip_eq w.before hd (show _ ≤ fuel by omega)
  have hb₁ : ((b.advance 1).advance w.before.bytes.length).Before
      (w.text ++ (w.after.bytes ++ c :: rest)) := by rwa [htext]
  have hlen₁ := hb₁.length
  have hlen := hb.length
  rw [List.length_append, List.length_append] at hlen
  rw [List.length_append] at hlen₁
  obtain ⟨hok, hdeep⟩ := hw.reads _ _ hb₁ (ends_spaces w.after hc) (by
    simp only [List.length_append, List.length_cons] at hlen hlen₁ ⊢
    omega)
  refine ⟨fun hle => ?_, fun hlt => ?_⟩
  · have hb₂ := hb₁.advance (List.append_ne_nil_of_right_ne_nil _ (List.cons_ne_nil c rest))
    obtain ⟨hskip', hb₃⟩ := hb₂.skip_eq w.after hspace (show _ ≤ fuel by
      have := hb₂.length
      simp only [List.length_append, List.length_cons] at hlen hlen₁ this ⊢
      omega)
    refine ⟨_, hb₃, ?_, ?_⟩
    · rw [ParseBuffer.advance_advance, ParseBuffer.advance_advance, ParseBuffer.advance_advance,
        List.length_append, List.length_append, Nat.add_assoc]
    · rw [itemsLoop, hskip, exec_ok_bind, hok hle, exec_ok_bind]
      dsimp only
      rw [hskip', exec_ok_bind]
  · obtain ⟨b', hb'⟩ := hdeep hlt
    refine ⟨b', ?_⟩
    rw [itemsLoop, hskip, exec_ok_bind, hb', exec_ok_bind]
    rfl

/-- A closing bracket. -/
def IsClose (close : UInt8) : Prop := close = 0x5D ∨ close = 0x7D

/-- It is no white space. -/
theorem IsClose.space (h : IsClose close) : ¬ close ≤ 32 := by
  rcases h with rfl | rfl <;> decide

/-- It ends a number. -/
theorem IsClose.number (h : IsClose close) : isNumberText close = false := by
  rcases h with rfl | rfl <;> decide

/-- It is no comma. -/
theorem IsClose.comma (h : IsClose close) : close ≠ 0x2C := by
  rcases h with rfl | rfl <;> decide

/-- **The loop over a list** reads all of its items, or fails on the first one that is nested too
deep. The induction is on the items. -/
theorem itemsLoop_list (hclose : IsClose close) {w : WrittenItem α} {ws : List (WrittenItem α)}
    (hws : ∀ v ∈ w :: ws, v.Ok parseItem n) {items : List α}
    (hb : (b.advance 1).Before (listText (w :: ws) ++ close :: rest))
    (hn : b.length - b.offset ≤ n + 1) (hfuel : b.length - b.offset ≤ fuel) :
    ((∀ v ∈ w :: ws, b.depth + v.nest ≤ cjsonNestingLimit) →
      itemsLoop parseItem close fuel b items
        = .ok (some (items ++ (w :: ws).map WrittenItem.value),
          b.advance (1 + (listText (w :: ws)).length))) ∧
    ((∃ v ∈ w :: ws, cjsonNestingLimit < b.depth + v.nest) →
      ∃ b', itemsLoop parseItem close fuel b items = .ok (none, b')) := by
  have hpos : b.offset + 1 < b.length := hb.inside.offset_lt
  obtain ⟨fuel, rfl⟩ := Nat.exists_eq_succ_of_ne_zero (show fuel ≠ 0 by omega)
  have hw := hws w List.mem_cons_self
  induction ws generalizing b w items fuel with
  | nil =>
    have htext : listText [w] = w.before.bytes ++ w.text ++ w.after.bytes := by
      rw [listText, listText, List.isEmpty_nil, if_pos rfl, List.append_nil, List.append_nil]
    rw [htext] at hb ⊢
    obtain ⟨hok, hdeep⟩ := hw.round hb hclose.space hclose.number hn hfuel
    refine ⟨fun hall => ?_, fun hex => ?_⟩
    · obtain ⟨b', hb', hmove, hround⟩ := hok (hall w List.mem_cons_self)
      rw [hround, hb'.isAt_eq, exec_ok_bind, beq_false_of_ne hclose.comma, if_neg Bool.false_ne_true,
        hb'.isAt_eq, exec_ok_bind, beq_self_eq_true, if_pos rfl, ← hmove]
      rfl
    · obtain ⟨v, hv, hlt⟩ := hex
      rw [List.mem_singleton.mp hv] at hlt
      exact hdeep hlt
  | cons v ws ih =>
    have htext : listText (w :: v :: ws) = w.before.bytes ++ w.text ++ w.after.bytes
        ++ 0x2C :: listText (v :: ws) := by
      rw [listText, List.isEmpty_cons, if_neg Bool.false_ne_true, List.append_assoc _ [0x2C]]
      rfl
    rw [htext, List.append_assoc, List.cons_append] at hb
    obtain ⟨hok, hdeep⟩ := hw.round hb (by decide) (by decide) hn hfuel
    by_cases hle : b.depth + w.nest ≤ cjsonNestingLimit
    · obtain ⟨b', hb', hmove, hround⟩ := hok hle
      have hnext : (b'.advance 1).Before (listText (v :: ws) ++ close :: rest) :=
        hb'.tail (List.append_ne_nil_of_right_ne_nil _ (List.cons_ne_nil _ _))
      have hpos' : b'.offset + 1 < b'.length := hnext.inside.offset_lt
      have hoffset : b'.offset = b.offset
          + (1 + (w.before.bytes ++ w.text ++ w.after.bytes).length) := by rw [hmove]; rfl
      have hlength : b'.length = b.length := by rw [hmove]; rfl
      have hdepth : b'.depth = b.depth := by rw [hmove]; rfl
      obtain ⟨fuel, rfl⟩ := Nat.exists_eq_succ_of_ne_zero (show fuel ≠ 0 by omega)
      have hws' : ∀ u ∈ v :: ws, u.Ok parseItem n :=
        fun u hu => hws u (List.mem_cons_of_mem w hu)
      obtain ⟨hok', hdeep'⟩ := ih hws' hnext (by omega) hpos' fuel (by omega)
        (hws' v List.mem_cons_self)
      have hrun : itemsLoop parseItem close (fuel + 1 + 1) b items
          = itemsLoop parseItem close (fuel + 1) b' (items ++ [w.value]) := by
        rw [hround, hb'.isAt_eq, exec_ok_bind, beq_self_eq_true, if_pos rfl]
      rw [hdepth] at hok' hdeep'
      refine ⟨fun hall => ?_, fun hex => ?_⟩
      · have hlen : (listText (w :: v :: ws)).length
            = (w.before.bytes ++ w.text ++ w.after.bytes).length
              + (1 + (listText (v :: ws)).length) := by
          rw [htext, List.length_append, List.length_cons, Nat.add_comm 1]
        rw [hrun, hok' fun u hu => hall u (List.mem_cons_of_mem w hu), hmove,
          ParseBuffer.advance_advance, hlen, List.append_assoc, Nat.add_assoc]
        rfl
      · rw [hrun]
        obtain ⟨u, hu, hlt⟩ := hex
        refine hdeep' ⟨u, (List.mem_cons.mp hu).resolve_left ?_, hlt⟩
        rintro rfl
        omega
    · exact ⟨fun hall => absurd (hall w List.mem_cons_self) hle,
        fun _ => hdeep (Nat.lt_of_not_le hle)⟩

/-- Back by one and on by one. -/
theorem ParseBuffer.back_advance (h : 0 < b.offset) : b.back.advance 1 = b := by
  obtain ⟨content, length, offset, depth⟩ := b
  rw [back, advance]
  congr 1
  exact Nat.sub_add_cancel h

/-- How deep a list is nested. -/
def listNest (ws : List (WrittenItem α)) : Nat := (ws.map WrittenItem.nest).foldr max 0

/-- It is the greatest nesting of an item. -/
theorem listNest_le_iff {ws : List (WrittenItem α)} {k : Nat} :
    listNest ws ≤ k ↔ ∀ w ∈ ws, w.nest ≤ k := by
  induction ws with
  | nil => exact ⟨fun _ w hw => absurd hw List.not_mem_nil, fun _ => Nat.zero_le k⟩
  | cons w ws ih =>
    rw [List.forall_mem_cons, ← ih]
    exact Nat.max_le

/-- Reading a list from its opening bracket on. -/
theorem parseItems_list {opens : ParseBuffer → Exec Bool} {opening : UInt8}
    (hopens : opens b = .ok true) (hclose : IsClose close) (inner : Spaces)
    {ws : List (WrittenItem α)} (hws : ∀ v ∈ ws, v.Ok parseItem n)
    (hb : b.Before (opening :: (inner.bytes ++ listText ws ++ close :: rest)))
    (hn : b.length - b.offset ≤ n + 1) (hfuel : b.length - b.offset ≤ fuel) :
    (b.depth + listNest ws ≤ cjsonNestingLimit →
      parseItems parseItem opens close fuel b = .ok (some (ws.map WrittenItem.value),
        b.advance (1 + (inner.bytes ++ listText ws).length))) ∧
    (cjsonNestingLimit < b.depth + listNest ws →
      ∃ b', parseItems parseItem opens close fuel b = .ok (none, b')) := by
  have hb₁ : (b.advance 1).Before (inner.bytes ++ listText ws ++ close :: rest) :=
    hb.tail (List.append_ne_nil_of_right_ne_nil _ (List.cons_ne_nil _ _))
  have hadvance : (b.advance 1).length - (b.advance 1).offset = b.length - b.offset - 1 :=
    Nat.sub_add_eq _ _ _
  have hpos : b.offset + 1 < b.length := hb₁.inside.offset_lt
  cases ws with
  | nil =>
    have hnest : listNest ([] : List (WrittenItem α)) = 0 := rfl
    rw [listText, List.append_nil] at hb₁ ⊢
    obtain ⟨hskip, hb₂⟩ := hb₁.skip_eq inner hclose.space (show _ ≤ fuel by omega)
    have hdepth := hb.inside.depth_le
    rw [hnest]
    refine ⟨fun _ => ?_, fun hlt => by omega⟩
    rw [parseItems, hopens, exec_ok_bind, if_pos rfl, hskip, exec_ok_bind, hb₂.isAt_eq,
      exec_ok_bind, beq_self_eq_true, if_pos rfl, ParseBuffer.advance_advance]
    rfl
  | cons w ws =>
    obtain ⟨d, ds, htext, hd, hne₁, hne₂⟩ := (hws w List.mem_cons_self).starts
    -- the white space in front of the first item is skipped before the loop
    let w' : WrittenItem α := { w with before := Spaces.none }
    have hlist : listText (w :: ws) = w.before.bytes ++ listText (w' :: ws) := by
      rw [listText, listText, List.append_assoc, List.append_assoc, List.append_assoc]
      show _ = w.before.bytes ++ ([] ++ w.text ++ w.after.bytes ++ _ ++ _)
      rw [List.nil_append, List.append_assoc, List.append_assoc]
    have hlist' : listText (w' :: ws) = d :: (ds ++ w.after.bytes
        ++ (if ws.isEmpty then [] else [0x2C]) ++ listText ws) := by
      rw [listText]
      show [] ++ w.text ++ w.after.bytes ++ _ ++ _ = _
      rw [htext]
      rfl
    have hspaces : (b.advance 1).Before ((inner.append w.before).bytes ++ d :: (ds ++ w.after.bytes
        ++ (if ws.isEmpty then [] else [0x2C]) ++ listText ws ++ close :: rest)) := by
      rw [hlist, hlist', ← List.append_assoc inner.bytes] at hb₁
      rw [List.append_assoc, List.cons_append] at hb₁
      exact hb₁
    obtain ⟨hskip, hb₂⟩ := hspaces.skip_eq (inner.append w.before) hd (show _ ≤ fuel by omega)
    have hback : ((b.advance 1).advance (inner.append w.before).bytes.length).back.advance 1
        = (b.advance 1).advance (inner.append w.before).bytes.length :=
      ParseBuffer.back_advance (Nat.lt_of_lt_of_le (Nat.succ_pos _) (Nat.le_add_right _ _))
    have hclosed : (d == close) = false := by
      rcases hclose with rfl | rfl
      · exact beq_false_of_ne hne₁
      · exact beq_false_of_ne hne₂
    have hws' : ∀ v ∈ w' :: ws, v.Ok parseItem n := by
      refine List.forall_mem_cons.mpr ⟨?_, fun v hv => hws v (List.mem_cons_of_mem w hv)⟩
      exact ⟨(hws w List.mem_cons_self).reads, (hws w List.mem_cons_self).starts⟩
    have hbefore : (((b.advance 1).advance (inner.append w.before).bytes.length).back.advance
        1).Before (listText (w' :: ws) ++ close :: rest) := by
      rw [hback, hlist']
      exact hb₂
    have hoffset : ((b.advance 1).advance (inner.append w.before).bytes.length).back.offset
        = b.offset + 1 + (inner.append w.before).bytes.length - 1 := rfl
    have hlength : ((b.advance 1).advance (inner.append w.before).bytes.length).back.length
        = b.length := rfl
    obtain ⟨hok, hdeep⟩ := itemsLoop_list hclose hws' hbefore (by omega)
      (show _ ≤ fuel by omega)
    have hrun : parseItems parseItem opens close fuel b = itemsLoop parseItem close fuel
        ((b.advance 1).advance (inner.append w.before).bytes.length).back [] := by
      rw [parseItems, hopens, exec_ok_bind, if_pos rfl, hskip, exec_ok_bind, hb₂.isAt_eq,
        exec_ok_bind, hclosed, if_neg Bool.false_ne_true,
        if_neg (not_not_intro (show ParseBuffer.CanAccessAtIndex _ 0 from hb₂.inside.offset_lt))]
    have hnest : listNest (w :: ws) = listNest (w' :: ws) := rfl
    rw [hrun, hnest]
    refine ⟨fun hle => ?_, fun hlt => ?_⟩
    · have hall : ∀ v ∈ w' :: ws, b.depth + v.nest ≤ cjsonNestingLimit := by
        have hle' : listNest (w' :: ws) ≤ cjsonNestingLimit - b.depth := by omega
        intro v hv
        have := listNest_le_iff.mp hle' v hv
        omega
      rw [hok hall, ← ParseBuffer.advance_advance, hback, ParseBuffer.advance_advance,
        ParseBuffer.advance_advance, hlist, List.nil_append]
      have hsum : 1 + ((inner.append w.before).bytes.length + (listText (w' :: ws)).length)
          = 1 + (inner.bytes ++ (w.before.bytes ++ listText (w' :: ws))).length := by
        rw [Spaces.append, List.length_append, List.length_append, List.length_append]
        omega
      rw [hsum]
      rfl
    · refine hdeep ?_
      by_contra hnone
      have hle' : listNest (w' :: ws) ≤ cjsonNestingLimit - b.depth := by
        refine listNest_le_iff.mpr fun v hv => ?_
        have : ¬ cjsonNestingLimit < b.depth + v.nest := fun h => hnone ⟨v, hv, h⟩
        omega
      have := hb.inside.depth_le
      omega

/-- **A written list is read**, with its nesting. -/
theorem parseNested_reads {opens : ParseBuffer → Exec Bool} {opening : UInt8}
    (hopens : ∀ (b : ParseBuffer) (rest : List UInt8), b.Before (opening :: rest) →
      opens b = .ok true) (hclose : IsClose close) (inner : Spaces) {ws : List (WrittenItem α)}
    (hws : ∀ v ∈ ws, v.Ok parseItem n) (hfuel : n + 1 ≤ fuel) :
    Reads (parseNested parseItem opens close fuel)
      (opening :: (inner.bytes ++ listText ws ++ [close])) (listNest ws + 1)
      (ws.map WrittenItem.value) (n + 1) := by
  intro b rest hb _ hn
  rw [parseNested]
  by_cases hdepth : cjsonNestingLimit ≤ b.depth
  · rw [if_pos hdepth]
    exact ⟨fun hle => by omega, fun _ => ⟨b, rfl⟩⟩
  rw [if_neg hdepth]
  have hb' : ParseBuffer.Before { b with depth := b.depth + 1 }
      (opening :: (inner.bytes ++ listText ws ++ close :: rest)) := by
    rw [List.cons_append, List.append_assoc _ [close]] at hb
    exact ⟨⟨hb.inside.length, hb.inside.offset_lt, hb.inside.nul, Nat.lt_of_not_le hdepth⟩, hb.drop⟩
  obtain ⟨hok, hdeep⟩ := parseItems_list (hopens _ _ hb') hclose inner hws hb' hn
    (Nat.le_trans hn hfuel)
  have hsucc : b.depth + 1 + listNest ws = b.depth + (listNest ws + 1) := by omega
  refine ⟨fun hle => ?_, fun hlt => ?_⟩
  · rw [hok (hsucc ▸ hle), exec_ok_bind]
    have hlen : b.offset + (1 + (inner.bytes ++ listText ws).length) + 1
        = b.offset + (opening :: (inner.bytes ++ listText ws ++ [close])).length := by
      simp only [List.length_cons, List.length_append, List.length_nil]
      omega
    dsimp only [ParseBuffer.advance]
    rw [hlen]
    rfl
  · obtain ⟨b', hb''⟩ := hdeep (hsucc ▸ hlt)
    refine ⟨b', ?_⟩
    rw [hb'', exec_ok_bind]
    rfl

/-! ### Values -/

/-- A member of an object is read. -/
theorem parseMember_reads {parseValue : ItemParser (CjsonValue ν)} (name : MemberName)
    {text : List UInt8} {v : CjsonValue ν} (hvalue : Reads parseValue text v.nesting v n)
    (hstarts : Starts text) (hfuel : n + 1 ≤ fuel) :
    Reads (parseMember parseValue fuel) (literalText name.name ++ name.between.bytes ++ [0x3A]
      ++ name.behind.bytes ++ text) v.nesting (literalValue name.name, v) n := by
  intro b rest hb hrest hn
  obtain ⟨d, ds, htext, hd, -⟩ := hstarts
  have hshape : literalText name.name ++ name.between.bytes ++ [0x3A] ++ name.behind.bytes ++ text
      ++ rest = literalText name.name ++ (name.between.bytes ++ 0x3A :: (name.behind.bytes
        ++ d :: (ds ++ rest))) := by
    rw [htext]
    simp only [List.append_assoc, List.cons_append, List.nil_append]
  rw [hshape] at hb
  have hleft : b.length - b.offset ≤ fuel := by omega
  have hstring := parseString_literal name.name hb.inside hb.drop
    (show b.length - b.offset < fuel by omega)
  have hb₁ := hb.advance (List.append_ne_nil_of_right_ne_nil _ (List.cons_ne_nil _ _))
  obtain ⟨hskip₁, hb₂⟩ := hb₁.skip_eq name.between (show ¬ (0x3A : UInt8) ≤ 32 by decide)
    (b.advance_left_le _ hleft)
  have hb₃ := hb₂.tail (List.append_ne_nil_of_right_ne_nil _ (List.cons_ne_nil _ _))
  obtain ⟨hskip₂, hb₄⟩ := hb₃.skip_eq name.behind hd (ParseBuffer.advance_left_le _
    (ParseBuffer.advance_left_le _ (ParseBuffer.advance_left_le _ hleft)))
  rw [← List.cons_append, ← htext] at hb₄
  obtain ⟨hok, hdeep⟩ := hvalue _ _ hb₄ hrest (ParseBuffer.advance_left_le _
    (ParseBuffer.advance_left_le _ (ParseBuffer.advance_left_le _
      (ParseBuffer.advance_left_le _ hn))))
  have hrun : parseMember parseValue fuel b
      = (parseValue ((((b.advance (literalText name.name).length).advance
          name.between.bytes.length).advance 1).advance name.behind.bytes.length) >>=
        fun r => .ok (r.1.map fun item => (literalValue name.name, item), r.2)) := by
    rw [parseMember, hstring, exec_ok_bind]
    dsimp only
    rw [hskip₁, exec_ok_bind, hb₂.isAt_eq, exec_ok_bind, beq_self_eq_true, if_pos rfl, hskip₂]
    rfl
  refine ⟨fun hle => ?_, fun hlt => ?_⟩
  · rw [hrun, hok hle, exec_ok_bind]
    simp only [ParseBuffer.advance_advance, List.length_append, List.length_singleton,
      Option.map_some]
  · obtain ⟨b', hb'⟩ := hdeep hlt
    refine ⟨b', ?_⟩
    rw [hrun, hb', exec_ok_bind]
    rfl

/-- An item of an array, as an item of a list. -/
def writtenItem (i : Spaces × JsonSyntax lib × Spaces) : WrittenItem (CjsonValue ν) where
  before := i.1
  text := i.2.1.text
  value := i.2.1.value
  nest := i.2.1.value.nesting
  after := i.2.2

/-- A member of an object, as an item of a list. -/
def writtenMember (m : MemberName × JsonSyntax lib × Spaces) :
    WrittenItem (CStr × CjsonValue ν) where
  before := m.1.before
  text := literalText m.1.name ++ m.1.between.bytes ++ [0x3A] ++ m.1.behind.bytes ++ m.2.1.text
  value := (literalValue m.1.name, m.2.1.value)
  nest := m.2.1.value.nesting
  after := m.2.2

/-- The items of an array as a list. -/
theorem writtenItems_eq (items : List (Spaces × JsonSyntax lib × Spaces)) :
    listText (items.map writtenItem) = itemsText items
      ∧ (items.map writtenItem).map WrittenItem.value = itemsValue items
      ∧ listNest (items.map writtenItem) = nestingArray (itemsValue items) := by
  induction items with
  | nil => exact ⟨rfl, rfl, rfl⟩
  | cons i items ih =>
    obtain ⟨htext, hvalue, hnest⟩ := ih
    refine ⟨?_, ?_, ?_⟩
    · rw [List.map_cons, listText, htext, itemsText, List.isEmpty_map]
      rfl
    · rw [List.map_cons, List.map_cons, hvalue, itemsValue]
      rfl
    · rw [itemsValue, nestingArray, ← hnest]
      rfl

/-- The members of an object as a list. -/
theorem writtenMembers_eq (members : List (MemberName × JsonSyntax lib × Spaces)) :
    listText (members.map writtenMember) = membersText members
      ∧ (members.map writtenMember).map WrittenItem.value = membersValue members
      ∧ listNest (members.map writtenMember) = nestingObject (membersValue members) := by
  induction members with
  | nil => exact ⟨rfl, rfl, rfl⟩
  | cons m members ih =>
    obtain ⟨htext, hvalue, hnest⟩ := ih
    refine ⟨?_, ?_, ?_⟩
    · rw [List.map_cons, listText, htext, membersText, List.isEmpty_map]
      rfl
    · rw [List.map_cons, List.map_cons, hvalue, membersValue]
      rfl
    · rw [membersValue, nestingObject, ← hnest]
      rfl

/-- The first character of a number begins nothing else. -/
theorem numberFirst {c : UInt8} (hc : c = 0x2D ∨ 0x30 ≤ c ∧ c ≤ 0x39) :
    ¬ c ≤ 32 ∧ c ≠ 0x5D ∧ c ≠ 0x7D ∧ c ≠ 0x6E ∧ c ≠ 0x66 ∧ c ≠ 0x74 ∧ c ≠ 0x22 := by
  have hle : 0x2D ≤ c.toNat ∧ c.toNat ≤ 0x39 := by
    rcases hc with rfl | ⟨hlo, hhi⟩
    · decide
    · have hlo := UInt8.le_iff_toNat_le.mp hlo
      have hhi := UInt8.le_iff_toNat_le.mp hhi
      simp only [UInt8.reduceToNat] at hlo hhi
      omega
  refine ⟨fun h => ?_, ?_⟩
  · have h := UInt8.le_iff_toNat_le.mp h
    simp only [UInt8.reduceToNat] at h
    omega
  · refine ⟨?_, ?_, ?_, ?_, ?_, ?_⟩ <;>
    · rintro rfl
      exact absurd hle (by decide)

/-- A text begins as a value does. -/
theorem JsonSyntax.starts (t : JsonSyntax lib) : Starts t.text := by
  cases t with
  | null => exact ⟨0x6E, _, rfl, by decide⟩
  | bool b =>
    cases b with
    | false => exact ⟨0x66, _, rfl, by decide⟩
    | true => exact ⟨0x74, _, rfl, by decide⟩
  | number n =>
    obtain ⟨c, cs, htext, hc⟩ := n.first
    have hchar := numberFirst hc
    exact ⟨c, cs, htext, hchar.1, hchar.2.1, hchar.2.2.1⟩
  | string s => exact ⟨0x22, _, rfl, by decide⟩
  | array inner items => exact ⟨0x5B, _, rfl, by decide⟩
  | object inner members => exact ⟨0x7B, _, rfl, by decide⟩

/-- What `parse_value` does by the next character. -/
theorem parseValue_char (h : b.Before (c :: rest)) (hn : c ≠ 0x6E) (hf : c ≠ 0x66) (ht : c ≠ 0x74) :
    parseValue lib (fuel + 1) b =
      if c == 0x22 then parseString fuel b >>= fun r => .ok (r.1.map .string, r.2)
      else if c == 0x2D || 0x30 ≤ c && c ≤ 0x39 then parseNumber lib b
      else if c == 0x5B then parseArray (parseValue lib fuel) fuel b
      else if c == 0x7B then parseObject (parseValue lib fuel) fuel b
      else .ok (none, b) := by
  have hnull : b.isWord (asciiBytes "null") = .ok false := h.isWord_ne hn
  have hfalse : b.isWord (asciiBytes "false") = .ok false := h.isWord_ne hf
  have htrue : b.isWord (asciiBytes "true") = .ok false := h.isWord_ne ht
  rw [parseValue, hnull, exec_ok_bind, if_neg Bool.false_ne_true, hfalse, exec_ok_bind,
    if_neg Bool.false_ne_true, htrue, exec_ok_bind, if_neg Bool.false_ne_true, h.isAt_eq,
    exec_ok_bind, h.isAt_eq, exec_ok_bind, h.isAt_eq, exec_ok_bind, h.isAt_eq, exec_ok_bind]
  rfl

/-- A word is read in front of what ends a number. -/
theorem ParseBuffer.Before.isWord_ends {word : List UInt8} (h : b.Before (word ++ rest))
    (hrest : Ends rest) : b.isWord word = .ok true := by
  obtain ⟨c, cs, rfl, -⟩ := hrest
  exact h.isWord_self

/-- `null`, `false` and `true`. -/
theorem parseValue_null (fuel n : Nat) :
    Reads (parseValue lib (fuel + 1)) (asciiBytes "null") 0 .null n := by
  intro b rest hb hrest _
  refine ⟨fun _ => ?_, fun hlt => absurd hb.inside.depth_le (Nat.not_le_of_lt hlt)⟩
  rw [parseValue, hb.isWord_ends hrest, exec_ok_bind, if_pos rfl]
  rfl

/-- `false` and `true`. -/
theorem parseValue_bool (fuel n : Nat) (v : Bool) : Reads (parseValue lib (fuel + 1))
    (JsonSyntax.bool v : JsonSyntax lib).text 0 (.bool v) n := by
  intro b rest hb hrest _
  refine ⟨fun _ => ?_, fun hlt => absurd hb.inside.depth_le (Nat.not_le_of_lt hlt)⟩
  cases v with
  | false =>
    rw [JsonSyntax.text] at hb
    have hnull : b.isWord (asciiBytes "null") = .ok false := hb.isWord_ne (by decide)
    rw [parseValue, hnull, exec_ok_bind, if_neg Bool.false_ne_true, hb.isWord_ends hrest,
      exec_ok_bind, if_pos rfl]
    rfl
  | true =>
    rw [JsonSyntax.text] at hb
    have hnull : b.isWord (asciiBytes "null") = .ok false := hb.isWord_ne (by decide)
    have hfalse : b.isWord (asciiBytes "false") = .ok false := hb.isWord_ne (by decide)
    rw [parseValue, hnull, exec_ok_bind, if_neg Bool.false_ne_true, hfalse, exec_ok_bind,
      if_neg Bool.false_ne_true, hb.isWord_ends hrest, exec_ok_bind, if_pos rfl]
    rfl

/-- A number. -/
theorem parseValue_number (fuel n : Nat) (d : NumberText lib) :
    Reads (parseValue lib (fuel + 1)) d.text 0 (.number d.value) n := by
  intro b rest hb hrest _
  refine ⟨fun _ => ?_, fun hlt => absurd hb.inside.depth_le (Nat.not_le_of_lt hlt)⟩
  obtain ⟨c, cs, htext, hc⟩ := d.first
  obtain ⟨-, -, -, hn, hf, ht, hq⟩ := numberFirst hc
  have hb' : b.Before (c :: (cs ++ rest)) := by rwa [htext] at hb
  have hnumber : (c == 0x2D || 0x30 ≤ c && c ≤ 0x39) = true := by
    rcases hc with rfl | ⟨hlo, hhi⟩
    · rfl
    · rw [Bool.or_eq_true, Bool.and_eq_true, decide_eq_true_eq, decide_eq_true_eq]
      exact Or.inr ⟨hlo, hhi⟩
  rw [parseValue_char hb' hn hf ht, beq_false_of_ne hq, if_neg Bool.false_ne_true, if_pos hnumber,
    d.parseNumber_eq hb hrest]

/-- A string. -/
theorem parseValue_string {fuel n : Nat} (hfuel : n < fuel) (s : List StringPiece) :
    Reads (parseValue lib (fuel + 1)) (literalText s) 0 (.string (literalValue s)) n := by
  intro b rest hb _ hn
  refine ⟨fun _ => ?_, fun hlt => absurd hb.inside.depth_le (Nat.not_le_of_lt hlt)⟩
  rw [parseValue_char hb (by decide) (by decide) (by decide), beq_self_eq_true, if_pos rfl,
    parseString_literal s hb.inside hb.drop (Nat.lt_of_le_of_lt hn hfuel)]
  rfl

/-- An array, given its items. -/
theorem parseValue_array {fuel n : Nat} (hfuel : n + 1 ≤ fuel) (inner : Spaces)
    {items : List (Spaces × JsonSyntax lib × Spaces)}
    (hitems : ∀ w ∈ items.map writtenItem, w.Ok (parseValue lib fuel) n) :
    Reads (parseValue lib (fuel + 1)) (JsonSyntax.array inner items).text
      (JsonSyntax.array inner items).value.nesting (JsonSyntax.array inner items).value (n + 1) := by
  obtain ⟨htext, hvalue, hnest⟩ := writtenItems_eq items
  intro b rest hb hrest hn
  have hopens (b : ParseBuffer) (rest : List UInt8) (h : b.Before (0x5B :: rest)) :
      opensArray b = .ok true := by
    have hload : b.atOffset 0 = .ok 0x5B := cellLoad_of_drop h.drop rfl
    rw [opensArray, hload]
    rfl
  have hreads := parseNested_reads hopens (Or.inl rfl) inner hitems hfuel
  rw [htext, hvalue, hnest] at hreads
  rw [JsonSyntax.text] at hb ⊢
  obtain ⟨hok, hdeep⟩ := hreads b rest hb hrest hn
  have hrun : parseValue lib (fuel + 1) b
      = parseNested (parseValue lib fuel) opensArray 0x5D fuel b >>= fun r =>
        .ok (r.1.map .array, r.2) := by
    rw [parseValue_char hb (by decide) (by decide) (by decide)]
    rfl
  rw [hrun]
  refine ⟨fun hle => ?_, fun hlt => ?_⟩
  · rw [hok hle]
    rfl
  · obtain ⟨b', hb'⟩ := hdeep hlt
    exact ⟨b', by rw [hb']; rfl⟩

/-- An object, given its members. -/
theorem parseValue_object {fuel n : Nat} (hfuel : n + 1 ≤ fuel) (inner : Spaces)
    {members : List (MemberName × JsonSyntax lib × Spaces)}
    (hmembers : ∀ w ∈ members.map writtenMember,
      w.Ok (parseMember (parseValue lib fuel) fuel) n) :
    Reads (parseValue lib (fuel + 1)) (JsonSyntax.object inner members).text
      (JsonSyntax.object inner members).value.nesting (JsonSyntax.object inner members).value
      (n + 1) := by
  obtain ⟨htext, hvalue, hnest⟩ := writtenMembers_eq members
  intro b rest hb hrest hn
  have hopens (b : ParseBuffer) (rest : List UInt8) (h : b.Before (0x7B :: rest)) :
      opensObject b = .ok true := h.isAt_eq _
  have hreads := parseNested_reads hopens (Or.inr rfl) inner hmembers hfuel
  rw [htext, hvalue, hnest] at hreads
  rw [JsonSyntax.text] at hb ⊢
  obtain ⟨hok, hdeep⟩ := hreads b rest hb hrest hn
  have hrun : parseValue lib (fuel + 1) b
      = parseNested (parseMember (parseValue lib fuel) fuel) opensObject 0x7D fuel b >>= fun r =>
        .ok (r.1.map .object, r.2) := by
    rw [parseValue_char hb (by decide) (by decide) (by decide)]
    rfl
  rw [hrun]
  refine ⟨fun hle => ?_, fun hlt => ?_⟩
  · rw [hok hle]
    rfl
  · obtain ⟨b', hb'⟩ := hdeep hlt
    exact ⟨b', by rw [hb']; rfl⟩

/-- At the end of the content there is nothing to read. -/
theorem reads_zero (parseItem : ItemParser α) (text : List UInt8) (nest : Nat) (value : α) :
    Reads parseItem text nest value 0 := by
  intro b rest hb _ hn
  have := hb.inside.offset_lt
  omega

mutual

/-- **`parse_value` reads every tree**. The recursion is on the tree. -/
theorem JsonSyntax.reads : ∀ (t : JsonSyntax lib) (fuel n : Nat), n + 2 ≤ fuel →
    Reads (parseValue lib fuel) t.text t.value.nesting t.value n
  | _, 0, _, hfuel => absurd hfuel (Nat.not_succ_le_zero _)
  | .null, fuel + 1, n, _ => parseValue_null fuel n
  | .bool v, fuel + 1, n, _ => parseValue_bool fuel n v
  | .number d, fuel + 1, n, _ => parseValue_number fuel n d
  | .string s, _ + 1, _, hfuel => parseValue_string (Nat.le_of_succ_le_succ hfuel) s
  | .array inner items, fuel + 1, n, hfuel => by
    cases n with
    | zero => exact reads_zero _ _ _ _
    | succ n =>
      have hitems := items_ok items fuel n (by omega)
      exact parseValue_array (by omega) inner hitems
  | .object inner members, fuel + 1, n, hfuel => by
    cases n with
    | zero => exact reads_zero _ _ _ _
    | succ n =>
      have hmembers := members_ok members fuel n (by omega)
      exact parseValue_object (by omega) inner hmembers

/-- The items of an array. -/
theorem items_ok : ∀ (items : List (Spaces × JsonSyntax lib × Spaces)) (fuel n : Nat),
    n + 2 ≤ fuel → ∀ w ∈ items.map writtenItem, w.Ok (parseValue lib fuel) n
  | [], _, _, _ => fun _ hw => absurd hw List.not_mem_nil
  | (before, item, after) :: next, fuel, n, hfuel => by
    have hitem := item.reads fuel n hfuel
    have hnext := items_ok next fuel n hfuel
    exact List.forall_mem_cons.mpr ⟨⟨hitem, item.starts⟩, hnext⟩

/-- The members of an object. -/
theorem members_ok : ∀ (members : List (MemberName × JsonSyntax lib × Spaces)) (fuel n : Nat),
    n + 2 ≤ fuel → ∀ w ∈ members.map writtenMember,
      w.Ok (parseMember (parseValue lib fuel) fuel) n
  | [], _, _, _ => fun _ hw => absurd hw List.not_mem_nil
  | (name, item, after) :: next, fuel, n, hfuel => by
    have hitem := item.reads fuel n hfuel
    have hnext := members_ok next fuel n hfuel
    have hmember : Reads (parseMember (parseValue lib fuel) fuel) _ _ _ n :=
      parseMember_reads name hitem item.starts (by omega)
    refine List.forall_mem_cons.mpr ⟨⟨hmember, ?_⟩, hnext⟩
    exact ⟨0x22, _, rfl, by decide⟩

end

/-! ### Texts -/

/-- What stands behind a value is all white space, or it has another character first. -/
theorem spaces_or_other (l : List UInt8) :
    (∀ d ∈ l, d ≤ 32) ∨ ∃ s c cs, l = s ++ c :: cs ∧ (∀ d ∈ s, d ≤ 32) ∧ ¬ c ≤ 32 := by
  induction l with
  | nil => exact Or.inl fun d hd => absurd hd List.not_mem_nil
  | cons d l ih =>
    by_cases hd : d ≤ 32
    · rcases ih with hall | ⟨s, c, cs, rfl, hs, hc⟩
      · exact Or.inl (List.forall_mem_cons.mpr ⟨hd, hall⟩)
      · exact Or.inr ⟨d :: s, c, cs, rfl, List.forall_mem_cons.mpr ⟨hd, hs⟩, hc⟩
    · exact Or.inr ⟨[], d, l, rfl, fun e he => absurd he List.not_mem_nil, hd⟩

/-- What a parse of a written value leaves. -/
structure ParseResult.Reads (r : ParseResult ν) (v : CjsonValue ν) (accepted : Prop) (parseEnd : Nat)
    (returnParseEnd : Bool) : Prop where
  /-- The value is returned. -/
  returned : accepted → r.item = some v
  /-- The end is that of the value, and of the text if nothing else may stand behind it. -/
  parseEnd_eq : accepted → returnParseEnd = true → r.returnParseEnd = some parseEnd
  /-- Nothing is returned. -/
  rejected : ¬ accepted → r.item = none

/-- **`cJSON_ParseWithOpts` on a written value**, with white space before it and anything behind it
that does not continue a number: the value is returned if it is nested up to the limit, and, when
the text has to end there, only white space is behind it. -/
theorem cjsonParseWithOpts_text (t : JsonSyntax lib) (before : Spaces) {value : CStr}
    (htext : value.bytes = before.bytes ++ (t.text ++ rest)) (hrest : Ends (rest ++ [0]))
    (returnParseEnd requireNullTerminated : Bool) :
    Settles (fun fuel => cjsonParseWithOpts lib fuel (some value) returnParseEnd
      requireNullTerminated) fun r => r.Reads t.value
        (t.value.nesting ≤ cjsonNestingLimit ∧
          (requireNullTerminated = true → ∀ d ∈ rest, d ≤ 32))
        (if requireNullTerminated then strlen value else before.bytes.length + t.text.length)
        returnParseEnd := by
  refine settles_of_returns (N := strlen value + 3) (fun fuel hfuel => ?_) fun fuel =>
    cjsonParseWithOpts_extends lib fuel _ _ _
  obtain ⟨d, ds, hd, hspace, -⟩ := t.starts
  have hcontent : value.bytes ++ [0] = before.bytes ++ (t.text ++ (rest ++ [0])) := by
    rw [htext, List.append_assoc, List.append_assoc]
  have hb : ParseBuffer.Before
      { content := value.bytes ++ [0], length := strlen value + 1, offset := 0, depth := 0 }
      (before.bytes ++ d :: (ds ++ (rest ++ [0]))) := by
    refine ⟨inside_start value, ?_⟩
    show (value.bytes ++ [0]).drop 0 = _
    rw [List.drop_zero, hcontent, hd, List.cons_append]
  have hleft : strlen value + 1 - 0 ≤ strlen value + 1 := Nat.sub_le _ _
  obtain ⟨hskip, hb₁⟩ := hb.skip_eq before hspace
    (show strlen value + 1 - 0 ≤ fuel by omega)
  rw [← List.cons_append, ← hd] at hb₁
  obtain ⟨hok, hdeep⟩ := t.reads fuel (strlen value + 1) (by omega) _ _ hb₁ hrest
    (ParseBuffer.advance_left_le _ hleft)
  rw [cjsonParseWithOpts, hskip, exec_ok_bind]
  by_cases hnest : t.value.nesting ≤ cjsonNestingLimit
  · have hb₂ := hb₁.advance (List.append_ne_nil_of_right_ne_nil rest (List.cons_ne_nil 0 []))
    rw [hok (by show 0 + t.value.nesting ≤ _; omega), exec_ok_bind]
    cases requireNullTerminated with
    | false =>
      refine returns_ok ⟨fun _ => rfl, fun _ hend => ?_, fun hnot => ?_⟩
      · rw [hend]
        show some (0 + before.bytes.length + t.text.length) = _
        rw [Nat.zero_add]
        rfl
      · exact absurd ⟨hnest, fun h => absurd h Bool.false_ne_true⟩ hnot
    | true =>
      rcases spaces_or_other rest with hall | ⟨s, c, cs, rfl, hs, hc⟩
      · obtain ⟨hskip', hb₃⟩ := hb₂.skip_end hall (Nat.lt_of_le_of_lt
          (ParseBuffer.advance_left_le _ (ParseBuffer.advance_left_le _ hleft))
          (show _ < fuel by omega))
        dsimp only
        rw [if_pos rfl, hskip', exec_ok_bind, hb₃.isAt_eq, exec_ok_bind]
        refine returns_ok ⟨fun _ => rfl, fun _ hend => ?_, fun hnot => ?_⟩
        · rw [hend]
          show some (0 + before.bytes.length + t.text.length + rest.length) = some (strlen value)
          rw [strlen, htext, List.length_append, List.length_append, Nat.zero_add, Nat.add_assoc]
        · exact absurd ⟨hnest, fun _ => hall⟩ hnot
      · rw [List.append_assoc, List.cons_append] at hb₂
        obtain ⟨hskip', hb₃⟩ := hb₂.skip_spaces hs hc
          (ParseBuffer.advance_left_le _ (ParseBuffer.advance_left_le _
            (Nat.le_trans hleft (show _ ≤ fuel by omega))))
        have hne : (c == 0) = false := beq_false_of_ne fun h => hc (by rw [h]; decide)
        dsimp only
        rw [if_pos rfl, hskip', exec_ok_bind, hb₃.isAt_eq, exec_ok_bind, hne]
        have hnot : ¬ ∀ d ∈ s ++ c :: cs, d ≤ 32 := fun h =>
          hc (h c (List.mem_append_right s List.mem_cons_self))
        refine returns_ok ⟨fun h => absurd (h.2 rfl) hnot, fun h => absurd (h.2 rfl) hnot,
          fun _ => ?_⟩
        rw [if_neg Bool.false_ne_true, parseFail]
        split <;> rfl
  · obtain ⟨b', hb'⟩ := hdeep (by show _ < 0 + t.value.nesting; omega)
    rw [hb', exec_ok_bind]
    refine returns_ok ⟨fun h => absurd h.1 hnest, fun h => absurd h.1 hnest, fun _ => ?_⟩
    rw [parseFail]
    split <;> rfl

/-- **`cJSON_Parse` on a written value**. -/
theorem cjsonParse_text (t : JsonSyntax lib) (before : Spaces) {value : CStr}
    (htext : value.bytes = before.bytes ++ (t.text ++ rest)) (hrest : Ends (rest ++ [0])) :
    Settles (fun fuel => cjsonParse lib fuel (some value)) fun r =>
      r = if t.value.nesting ≤ cjsonNestingLimit then some t.value else none := by
  refine (cjsonParseWithOpts_text t before htext hrest false false).bind fun r hr => ?_
  refine settles_ok_iff.mpr ?_
  split
  · rename_i hnest
    exact hr.returned ⟨hnest, fun h => absurd h Bool.false_ne_true⟩
  · rename_i hnest
    exact hr.rejected fun h => hnest h.1

/-- One digit as it is written. -/
def digitText (d : Fin 10) : NumberText digitLib where
  text := [0x30 + UInt8.ofNat d]
  value := d
  first := ⟨_, _, rfl, .inr (by revert d; decide)⟩
  chars := fun c hc => by
    rw [List.mem_singleton.mp hc]
    clear hc
    revert d
    decide
  length_le := by revert d; decide
  reads := by revert d; decide

end Wee
