import Wee.Base.CjsonPrint
import Wee.Base.CjsonRender

/-! # The printers (`base/cJSON.c`)

The printer stays in its block, whatever the block has held, and what it returns is the text of the
value. It fails only if the text and two more bytes do not fit in the block it may use: the one that
it was given, or one of `INT_MAX` bytes. -/

namespace Wee

variable {ν : Type}

/-! ### Blocks -/

/-- A store behind what a block begins with. -/
theorem prefix_splice {w d m : List UInt8} (h : w <+: m) (hle : w.length + d.length ≤ m.length) :
    w ++ d <+: splice m w.length d := by
  obtain ⟨t, rfl⟩ := h
  rw [splice, List.take_left]
  exact List.prefix_append _ _

/-- A block that has grown begins as before. -/
theorem prefix_memRealloc {w m : List UInt8} (h : w <+: m) (junk : Nat → UInt8) {n : Nat}
    (hn : w.length ≤ n) : w <+: memRealloc junk m n := by
  obtain ⟨t, rfl⟩ := h
  refine List.prefix_iff_getElem?.mpr fun i hi => ?_
  rw [memRealloc, List.getElem?_map, List.getElem?_range (Nat.lt_of_lt_of_le hi hn),
    Option.map_some, List.getElem?_append_left hi, List.getElem?_eq_getElem hi, Option.getD_some]

/-- The size of a block that has grown. -/
theorem length_memRealloc (junk : Nat → UInt8) (m : List UInt8) (n : Nat) :
    (memRealloc junk m n).length = n := by
  rw [memRealloc, List.length_map, List.length_range]

/-- `strlen` finds the NUL behind a text. -/
theorem strlenBlock_prefix {w m : List UInt8} (hw : 0 ∉ w) (h : w ++ [0] <+: m) :
    strlenBlock m = .ok w.length := by
  obtain ⟨t, rfl⟩ := h
  induction w with
  | nil => rfl
  | cons c w ih =>
    have hc : c ≠ 0 := fun h => hw (h ▸ List.mem_cons_self)
    rw [List.cons_append, List.cons_append, strlenBlock, if_neg hc,
      ih fun h => hw (List.mem_cons_of_mem c h)]
    rfl

/-! ### States of the buffer -/

variable {p p' p'' : PrintBuffer} {text out : List UInt8} {junk : Nat → UInt8} {format : Bool}

/-- How large the block may be. -/
def PrintBuffer.limit (p : PrintBuffer) : Nat := if p.noalloc then p.length else cIntMax

/-- What the printer never changes. -/
structure PrintBuffer.Like (p p' : PrintBuffer) : Prop where
  /-- Whether the block may grow. -/
  noalloc : p'.noalloc = p.noalloc
  /-- Whether white space is printed. -/
  format : p'.format = p.format
  /-- How large the block may be. -/
  limit : p'.limit = p.limit
  /-- The size of a block that may not grow. -/
  size : p.noalloc = true → p'.buffer.length = p.buffer.length

/-- Nothing is changed. -/
theorem PrintBuffer.Like.refl (p : PrintBuffer) : p.Like p := ⟨rfl, rfl, rfl, fun _ => rfl⟩

/-- One after the other. -/
theorem PrintBuffer.Like.trans (h : p.Like p') (h' : p'.Like p'') : p.Like p'' :=
  ⟨h'.noalloc.trans h.noalloc, h'.format.trans h.format, h'.limit.trans h.limit,
    fun hnoalloc => (h'.size (h.noalloc.trans hnoalloc)).trans (h.size hnoalloc)⟩

/-- The size of the block. -/
structure PrintBuffer.Sized (p : PrintBuffer) : Prop where
  /-- The block is as large as the printer thinks. -/
  length_le : p.length ≤ p.buffer.length
  /-- That is in the range of `int`. -/
  length_le_max : p.length ≤ cIntMax

/-- `text` has been printed, and the next text goes behind it. -/
structure PrintBuffer.Holds (p : PrintBuffer) (text : List UInt8) (depth : Nat) : Prop where
  /-- The size of the block. -/
  sized : p.Sized
  /-- The block begins with the text. -/
  isPrefix : text <+: p.buffer
  /-- The offset is behind it. -/
  offset : p.offset = text.length
  /-- There is room, unless the block is still the first one. -/
  room : p.offset < p.length ∨ p.length = 0 ∧ p.offset = 0
  /-- The nesting. -/
  depth : p.depth = depth

/-- `text` has been printed with its NUL, and the offset is somewhere in it. -/
structure PrintBuffer.Ended (p : PrintBuffer) (text : List UInt8) (depth : Nat) : Prop where
  /-- The size of the block. -/
  sized : p.Sized
  /-- The block begins with the text and a NUL. -/
  isPrefix : text ++ [0] <+: p.buffer
  /-- The offset is not behind it. -/
  offset_le : p.offset ≤ text.length
  /-- The NUL is in the block. -/
  room : text.length < p.length
  /-- The nesting. -/
  depth : p.depth = depth

/-- **`update_offset`** moves behind the text. -/
theorem PrintBuffer.Ended.updateOffset_eq {depth : Nat} (h : p.Ended text depth)
    (htext : 0 ∉ text) : updateOffset p = .ok { p with offset := text.length } := by
  have hdrop : text.drop p.offset ++ [0] <+: p.buffer.drop p.offset := by
    obtain ⟨t, ht⟩ := h.isPrefix
    refine ⟨t, ?_⟩
    rw [← ht, List.drop_append_of_le_length, List.drop_append_of_le_length h.offset_le]
    rw [List.length_append]
    exact Nat.le_trans h.offset_le (Nat.le_add_right _ _)
  have hstrlen := strlenBlock_prefix (fun h => htext (List.mem_of_mem_drop h)) hdrop
  have hoffset : p.offset + (text.drop p.offset).length = text.length := by
    rw [List.length_drop]
    exact Nat.add_sub_cancel' h.offset_le
  rw [updateOffset, hstrlen, exec_ok_bind, hoffset]
  rfl

/-- Behind the text the next one may be printed. -/
theorem PrintBuffer.Ended.updateOffset {depth : Nat} (h : p.Ended text depth) (htext : 0 ∉ text) :
    Returns (updateOffset p) fun p' => p'.Holds text depth ∧ p.Like p' := by
  rw [h.updateOffset_eq htext]
  refine returns_ok ⟨⟨⟨h.sized.length_le, h.sized.length_le_max⟩, ?_, rfl, Or.inl h.room, h.depth⟩,
    ⟨rfl, rfl, rfl, fun _ => rfl⟩⟩
  exact (List.prefix_append text [0]).trans h.isPrefix

/-! ### Outcomes -/

/-- What a function of the printer leaves: the printer is like before and satisfies `Q`, and it has
not failed if `n` bytes are in the limit. -/
structure Outcome (p : PrintBuffer) (n : Nat) (Q : PrintBuffer → Prop) (r : Option PrintBuffer) :
    Prop where
  /-- After a success. -/
  succeeds : ∀ p', r = some p' → p.Like p' ∧ Q p'
  /-- When it succeeds. -/
  fits : n ≤ p.limit → r ≠ none

/-- **Sequencing rule**: the next function is only called after a success. -/
theorem Outcome.bind {x : Exec (Option PrintBuffer)} {f : PrintBuffer → Exec (Option PrintBuffer)}
    {n m : Nat} {Q R : PrintBuffer → Prop} (hx : Returns x (Outcome p n Q)) (hn : n ≤ m)
    (hf : ∀ p', p.Like p' → Q p' → Returns (f p') (Outcome p' m R)) :
    Returns (x >>= fun r => match r with | some p => f p | _ => pure none) (Outcome p m R) := by
  obtain ⟨r, rfl, hr⟩ := hx
  cases r with
  | none =>
    refine returns_ok ⟨fun _ h => (nomatch h), fun hm => ?_⟩
    exact absurd rfl (hr.fits (Nat.le_trans hn hm))
  | some p₁ =>
    obtain ⟨hlike, hQ⟩ := hr.succeeds p₁ rfl
    refine (hf p₁ hlike hQ).imp fun r' hr' => ⟨fun p' hp' => ?_, fun hm => ?_⟩
    · obtain ⟨hlike', hR⟩ := hr'.succeeds p' hp'
      exact ⟨hlike.trans hlike', hR⟩
    · exact hr'.fits (hlike.limit ▸ hm)

/-- The limit is in the range of `int`. -/
theorem PrintBuffer.Sized.limit_le (h : p.Sized) : p.limit ≤ cIntMax := by
  rw [limit]
  split
  · exact h.length_le_max
  · exact Nat.le_refl _

/-- A larger block. -/
theorem PrintBuffer.Holds.grow {depth : Nat} (h : p.Holds text depth) (newsize : Nat)
    (hnoalloc : p.noalloc = false) (hroom : text.length < newsize) (hmax : newsize ≤ cIntMax) :
    p.Like (p.grow junk newsize) ∧ (p.grow junk newsize).Holds text depth := by
  refine ⟨⟨rfl, rfl, ?_, fun h => ?_⟩, ⟨⟨?_, hmax⟩, ?_, h.offset, Or.inl ?_, h.depth⟩⟩
  · rw [PrintBuffer.limit, PrintBuffer.limit, PrintBuffer.grow, hnoalloc]
    rfl
  · exact absurd (hnoalloc.symm.trans h) Bool.false_ne_true
  · exact Nat.le_of_eq (length_memRealloc _ _ _).symm
  · exact prefix_memRealloc h.isPrefix junk (Nat.le_of_lt hroom)
  · exact h.offset.symm ▸ hroom

/-- **`ensure`** makes room, and one byte more than it was asked for. -/
theorem PrintBuffer.Holds.ensure {depth : Nat} (h : p.Holds text depth) (needed : Nat) :
    Outcome p (text.length + needed + 1)
      (fun p' => p'.Holds text depth ∧ text.length + needed + 1 ≤ p'.length)
      (ensure junk p needed) := by
  have hoffset := h.offset
  have hlimit := h.sized.limit_le
  unfold Wee.ensure
  split
  · rename_i hfull
    have := h.room
    omega
  split
  · exact ⟨fun _ hp => (nomatch hp), fun hle => by omega⟩
  split
  · rename_i hfits
    refine ⟨fun p' hp' => ?_, fun _ hnone => nomatch hnone⟩
    cases hp'
    exact ⟨.refl p, h, by omega⟩
  split
  · rename_i hnoalloc
    refine ⟨fun _ hp => (nomatch hp), fun hle => ?_⟩
    rw [limit, if_pos hnoalloc] at hle
    omega
  rename_i hnoalloc
  have hnoalloc : p.noalloc = false := by simpa using hnoalloc
  split
  · split
    · rename_i hmax
      refine ⟨fun p' hp' => ?_, fun _ hnone => nomatch hnone⟩
      obtain rfl := Option.some.inj hp'
      obtain ⟨hlike, hholds⟩ := h.grow cIntMax hnoalloc (by omega) (Nat.le_refl _)
      refine ⟨hlike, hholds, ?_⟩
      show _ ≤ cIntMax
      omega
    · exact ⟨fun _ hp => (nomatch hp), fun hle => by omega⟩
  · rename_i hhalf
    refine ⟨fun p' hp' => ?_, fun _ hnone => nomatch hnone⟩
    cases hp'
    obtain ⟨hlike, hholds⟩ := h.grow ((needed + (p.offset + 1)) * 2) hnoalloc (by omega) (by omega)
    refine ⟨hlike, hholds, ?_⟩
    show _ ≤ (needed + (p.offset + 1)) * 2
    omega

/-- `p'` is `p`, with a block of the same size that begins with `w`. -/
structure PrintBuffer.Stored (p : PrintBuffer) (w : List UInt8) (p' : PrintBuffer) : Prop where
  /-- Only the block differs. -/
  eq : p' = { p with buffer := p'.buffer }
  /-- Its size is the same. -/
  size : p'.buffer.length = p.buffer.length
  /-- What it begins with. -/
  isPrefix : w <+: p'.buffer

/-- **A store behind what the block begins with**. -/
theorem PrintBuffer.store_returns {i : Nat} {w : List UInt8} (bytes : List UInt8) (hw : w <+: p.buffer)
    (hi : p.offset + i = w.length) (hfits : w.length + bytes.length ≤ p.buffer.length) :
    Returns (p.store i bytes) (p.Stored (w ++ bytes)) := by
  rw [store, hi, memStore_of_le hfits]
  exact returns_ok ⟨rfl, length_splice hfits, prefix_splice hw hfits⟩

/-- Stores one after the other. -/
theorem PrintBuffer.Stored.trans {w w' : List UInt8} (h : p.Stored w p') (h' : p'.Stored w' p'') :
    p.Stored w' p'' := by
  refine ⟨?_, h'.size.trans h.size, h'.isPrefix⟩
  rw [h'.eq, h.eq]

/-- The offset is not moved. -/
theorem PrintBuffer.Stored.offset {w : List UInt8} (h : p.Stored w p') : p'.offset = p.offset := by
  rw [h.eq]

/-- Nor is the nesting changed. -/
theorem PrintBuffer.Stored.depth {w : List UInt8} (h : p.Stored w p') : p'.depth = p.depth := by
  rw [h.eq]

/-- Less is known of the block. -/
theorem PrintBuffer.Stored.mono {w w' : List UInt8} (h : p.Stored w' p') (hw : w <+: w') :
    p.Stored w p' :=
  ⟨h.eq, h.size, hw.trans h.isPrefix⟩

/-- What a store does not change. -/
theorem PrintBuffer.Stored.like {w : List UInt8} (h : p.Stored w p') : p.Like p' := by
  have hsize := h.size
  rw [h.eq] at hsize ⊢
  exact ⟨rfl, rfl, rfl, fun _ => hsize⟩

/-- After a store the offset is moved behind what was stored, a NUL excepted. -/
theorem PrintBuffer.Stored.holds {depth n : Nat} {w : List UInt8} (h : p.Stored w p')
    (hp : p.Holds text depth) (hw : text ++ out <+: w) (hn : n = out.length)
    (hroom : text.length + out.length < p.length) :
    p.Like { p' with offset := p'.offset + n }
      ∧ ({ p' with offset := p'.offset + n } : PrintBuffer).Holds (text ++ out) depth := by
  have heq := h.eq
  have hoffset := hp.offset
  refine ⟨h.like.trans ⟨rfl, rfl, rfl, fun _ => rfl⟩, ?_⟩
  rw [heq]
  refine ⟨⟨?_, hp.sized.length_le_max⟩, hw.trans h.isPrefix, ?_, Or.inl ?_, hp.depth⟩
  · exact h.size.symm ▸ hp.sized.length_le
  · show p.offset + n = (text ++ out).length
    rw [List.length_append, hoffset, hn]
  · show p.offset + n < p.length
    omega

/-- The beginning of an array or an object. -/
theorem PrintBuffer.Holds.open {depth : Nat} (h : p.Holds text depth) :
    p.Like { p with depth := p.depth + 1 }
      ∧ ({ p with depth := p.depth + 1 } : PrintBuffer).Holds text (depth + 1) :=
  ⟨⟨rfl, rfl, rfl, fun _ => rfl⟩, ⟨h.sized.length_le, h.sized.length_le_max⟩, h.isPrefix, h.offset, h.room,
    congrArg (· + 1) h.depth⟩

/-- After a store that ends with a NUL the offset may stay where it is. -/
theorem PrintBuffer.Stored.ended {depth : Nat} (h : p.Stored (text ++ out ++ [0]) p')
    (hp : p.Holds text depth) (hroom : text.length + out.length < p.length) :
    p'.Ended (text ++ out) depth := by
  have heq := h.eq
  have hoffset := hp.offset
  rw [heq]
  refine ⟨⟨?_, hp.sized.length_le_max⟩, h.isPrefix, ?_, ?_, hp.depth⟩
  · exact h.size.symm ▸ hp.sized.length_le
  · show p.offset ≤ (text ++ out).length
    rw [List.length_append]
    omega
  · show (text ++ out).length < p.length
    rw [List.length_append]
    exact hroom

/-- The offset may be moved inside the text. -/
theorem PrintBuffer.Ended.move {depth : Nat} (h : p.Ended text depth) (offset : Nat)
    (hoffset : offset ≤ text.length) :
    p.Like { p with offset := offset }
      ∧ ({ p with offset := offset } : PrintBuffer).Ended text depth :=
  ⟨⟨rfl, rfl, rfl, fun _ => rfl⟩, ⟨h.sized.length_le, h.sized.length_le_max⟩, h.isPrefix, hoffset, h.room, h.depth⟩

/-- The end of an array or an object. -/
theorem PrintBuffer.Ended.close {depth : Nat} (h : p.Ended text (depth + 1)) :
    p.Like { p with depth := p.depth - 1 }
      ∧ ({ p with depth := p.depth - 1 } : PrintBuffer).Ended text depth := by
  refine ⟨⟨rfl, rfl, rfl, fun _ => rfl⟩, ⟨h.sized.length_le, h.sized.length_le_max⟩, h.isPrefix, h.offset_le,
    h.room, ?_⟩
  show p.depth - 1 = depth
  rw [h.depth, Nat.add_sub_cancel]

/-! ### Words, numbers and strings -/

/-- `out` is printed behind `text`, and one byte more than its NUL is enough: how the printer stands
afterwards is told by `S`. -/
def Leaves (S : PrintBuffer → List UInt8 → Nat → Prop) (text out : List UInt8) (depth : Nat)
    (p : PrintBuffer) (r : Option PrintBuffer) : Prop :=
  Outcome p (text.length + out.length + 2) (fun p' => S p' (text ++ out) depth) r

/-- `out` is printed as a value: the offset is not yet moved behind it. -/
def Prints (text out : List UInt8) (depth : Nat) (p : PrintBuffer) (r : Option PrintBuffer) : Prop :=
  Leaves PrintBuffer.Ended text out depth p r

/-- `out` is printed, and the offset is behind it. -/
def Adds (text out : List UInt8) (depth : Nat) (p : PrintBuffer) (r : Option PrintBuffer) : Prop :=
  Leaves PrintBuffer.Holds text out depth p r

/-- A function that succeeds whenever it is reached. -/
theorem outcome_some {n : Nat} {Q : PrintBuffer → Prop} (hlike : p.Like p') (hQ : Q p') :
    Outcome p n Q (some p') :=
  ⟨fun _ h => Option.some.inj h ▸ ⟨hlike, hQ⟩, fun _ hnone => nomatch hnone⟩

/-- Every function of the printer begins with `ensure`. -/
theorem PrintBuffer.Holds.ensure_bind {depth needed n : Nat} {Q : PrintBuffer → Prop}
    {f : PrintBuffer → Exec (Option PrintBuffer)} (h : p.Holds text depth)
    (hn : text.length + needed + 1 ≤ n)
    (hf : ∀ p', p.Like p' → p'.Holds text depth → text.length + needed + 1 ≤ p'.length →
      Returns (f p') fun r => ∃ p'', r = some p'' ∧ p'.Like p'' ∧ Q p'') :
    Returns (match Wee.ensure junk p needed with | some p => f p | _ => pure none)
      (Outcome p n Q) := by
  refine Outcome.bind (x := .ok (Wee.ensure junk p needed)) (returns_ok (h.ensure needed)) hn
    fun p₁ hlike ⟨h₁, hroom⟩ => (hf p₁ hlike h₁ hroom).imp ?_
  rintro _ ⟨p₂, rfl, hlike', hQ⟩
  exact outcome_some hlike' hQ

/-- `null`, `false` and `true`. -/
theorem printWordTo_prints {depth : Nat} (h : p.Holds text depth) (word : List UInt8) :
    Returns (printWordTo junk word p) (Prints text word depth p) := by
  refine h.ensure_bind (by omega) fun p₁ _ h₁ hroom => ?_
  have hbuffer := h₁.sized.length_le
  refine (p₁.store_returns _ (i := 0) h₁.isPrefix h₁.offset
    (by rw [List.length_append, List.length_singleton]; omega)).bind fun p₂ hp₂ =>
      returns_ok ⟨p₂, rfl, hp₂.like, ?_⟩
  rw [← List.append_assoc] at hp₂
  exact hp₂.ended h₁ (by omega)

/-- **Numbers** whose text fits in `number_buffer`. -/
theorem printNumberTo_prints {depth : Nat} {printNumber : ν → CStr} {d : ν}
    (h : p.Holds text depth) (hd : strlen (printNumber d) ≤ 25) :
    Returns (printNumberTo junk printNumber d p) (Prints text (printNumber d).bytes depth p) := by
  rw [printNumberTo, if_neg (Nat.not_lt.mpr hd)]
  refine h.ensure_bind (by rw [strlen]; omega) fun p₁ _ h₁ hroom => ?_
  have hbuffer := h₁.sized.length_le
  rw [strlen] at hroom
  refine (p₁.store_returns _ (i := 0) h₁.isPrefix h₁.offset (by omega)).bind fun p₂ hp₂ => ?_
  have hoffset : p₂.offset = text.length := by
    rw [hp₂.eq]
    exact h₁.offset
  refine (p₂.store_returns _ hp₂.isPrefix ?_ ?_).bind fun p₃ hp₃ => returns_ok ⟨_, rfl, ?_⟩
  · rw [hoffset, List.length_append, strlen]
  · rw [hp₂.size, List.length_append, List.length_singleton]
    omega
  · have hp₃ := hp₂.trans hp₃
    have hended := hp₃.ended h₁ (by omega)
    have hoffset₃ : p₃.offset = text.length := by
      rw [hp₃.eq]
      exact h₁.offset
    obtain ⟨hlike, hmoved⟩ := hended.move (p₃.offset + strlen (printNumber d))
      (by rw [List.length_append, hoffset₃, strlen])
    exact ⟨hp₃.like.trans hlike, hmoved⟩

/-- A character that is not escaped. -/
theorem printChar_plain {c : UInt8} (h : 31 < c ∧ c ≠ 0x22 ∧ c ≠ 0x5C) : printChar c = [c] := by
  rw [printChar, if_pos h]

/-- A character that is escaped: a letter stands behind the backslash, or `u` and four digits. -/
theorem printChar_escaped {c : UInt8} (h : ¬ (31 < c ∧ c ≠ 0x22 ∧ c ≠ 0x5C)) :
    printChar c = 0x5C :: match escapeLetter c with
      | some e => [e]
      | none => ((escapeUnit c.toNat).map UInt8.ofNat).tail := by
  rw [printChar, if_neg h, escapeLetter]
  repeat' split
  all_goals first | rfl | simp_all

/-- **The loop that escapes** stores the characters of every byte, and `sprintf` one NUL behind
them. -/
theorem escapeLoop_returns (cs : List UInt8) {i : Nat} {w : List UInt8} {p : PrintBuffer}
    (hw : w <+: p.buffer) (hi : p.offset + i = w.length)
    (hfits : w.length + (cs.flatMap printChar).length < p.buffer.length) :
    Returns (escapeLoop cs i p) (p.Stored (w ++ cs.flatMap printChar)) := by
  induction cs generalizing i w p with
  | nil =>
    rw [List.flatMap_nil, List.append_nil]
    exact returns_ok ⟨rfl, rfl, hw⟩
  | cons c cs ih =>
    rw [List.flatMap_cons, List.length_append] at hfits
    rw [List.flatMap_cons, ← List.append_assoc]
    -- what is left to do when the characters of `c` are stored
    have hrest : ∀ {p' : PrintBuffer} {j : Nat}, p.Stored (w ++ printChar c) p' →
        j = i + (printChar c).length →
        Returns (escapeLoop cs j p') (p.Stored (w ++ printChar c ++ cs.flatMap printChar)) := by
      intro p' j hp' hj
      refine (ih hp'.isPrefix ?_ ?_).imp fun p'' hp'' => hp'.trans hp''
      · rw [hp'.offset, List.length_append]
        omega
      · rw [hp'.size, List.length_append]
        omega
    unfold escapeLoop
    split
    · rename_i hplain
      rw [printChar_plain hplain] at hfits hrest ⊢
      refine (p.store_returns _ hw hi ?_).bind fun p₁ hp₁ => hrest hp₁ rfl
      rw [List.length_singleton] at hfits ⊢
      omega
    rename_i hescaped
    have hchar := printChar_escaped hescaped
    refine (p.store_returns [0x5C] hw hi ?_).bind fun p₁ hp₁ => ?_
    · rw [hchar, List.length_cons] at hfits
      rw [List.length_singleton]
      omega
    have hoffset : p₁.offset + (i + 1) = (w ++ [0x5C]).length := by
      rw [hp₁.offset, List.length_append, List.length_singleton]
      omega
    cases hletter : escapeLetter c with
    | some e =>
      rw [hletter] at hchar
      rw [hchar, List.length_cons, List.length_singleton] at hfits
      refine (p₁.store_returns [e] hp₁.isPrefix hoffset ?_).bind fun p₂ hp₂ => ?_
      · rw [hp₁.size, List.length_append, List.length_singleton, List.length_singleton]
        omega
      · have hp₂ := hp₁.trans hp₂
        rw [List.append_assoc, List.singleton_append, ← hchar] at hp₂
        exact hrest hp₂ (by rw [hchar]; rfl)
    | none =>
      rw [hletter] at hchar
      have hlength : (((escapeUnit c.toNat).map UInt8.ofNat).tail).length = 5 := rfl
      rw [hchar, List.length_cons, hlength] at hfits
      refine (p₁.store_returns _ hp₁.isPrefix hoffset ?_).bind fun p₂ hp₂ => ?_
      · rw [hp₁.size, List.length_append, List.length_append, hlength]
        simp only [List.length_singleton]
        omega
      · have hp₂ := (hp₁.trans hp₂).mono (w := w ++ printChar c) ?_
        · exact hrest hp₂ (by rw [hchar, List.length_cons, hlength])
        · rw [hchar, List.append_assoc, ← List.append_assoc [0x5C], List.singleton_append,
            ← List.append_assoc]
          exact List.prefix_append _ _

/-- How many characters are counted for a byte. -/
theorem length_printChar (c : UInt8) : (printChar c).length = escapeCharacters c + 1 := by
  have hall : ∀ n < 256, (printChar (UInt8.ofNat n)).length = escapeCharacters (UInt8.ofNat n) + 1 := by
    decide +kernel
  have h := hall c.toNat c.toNat_lt
  rwa [UInt8.ofNat_toNat] at h

/-- How many characters are counted for a string. -/
theorem length_flatMap_printChar (cs : List UInt8) :
    (cs.flatMap printChar).length = cs.length + countEscapes cs := by
  induction cs with
  | nil => rfl
  | cons c cs ih =>
    rw [List.flatMap_cons, List.length_append, length_printChar, ih, List.length_cons, countEscapes]
    omega

/-- If nothing is counted, nothing is escaped. -/
theorem flatMap_printChar_of_countEscapes {cs : List UInt8} (h : countEscapes cs = 0) :
    cs.flatMap printChar = cs := by
  induction cs with
  | nil => rfl
  | cons c cs ih =>
    rw [countEscapes, Nat.add_eq_zero_iff] at h
    have hc := length_printChar c
    rw [h.1] at hc
    have hplain : 31 < c ∧ c ≠ 0x22 ∧ c ≠ 0x5C := by
      by_contra hescaped
      rw [printChar_escaped hescaped] at hc
      cases hletter : escapeLetter c with
      | some e => simp [hletter] at hc
      | none => simp [hletter, escapeUnit] at hc
    rw [List.flatMap_cons, ih h.2, printChar_plain hplain, List.singleton_append]

/-- The characters of a string, copied or escaped. -/
theorem printCharactersTo_returns {input : CStr} {w : List UInt8} (hw : w <+: p.buffer)
    (hi : p.offset + 1 = w.length)
    (hfits : w.length + (input.bytes.flatMap printChar).length < p.buffer.length) :
    Returns (printCharactersTo (countEscapes input.bytes) input p)
      (p.Stored (w ++ input.bytes.flatMap printChar)) := by
  unfold printCharactersTo
  split
  · rename_i hnone
    rw [flatMap_printChar_of_countEscapes hnone] at hfits ⊢
    exact p.store_returns _ hw hi (Nat.le_of_lt hfits)
  · exact escapeLoop_returns _ hw hi hfits

/-- **Strings**, on both paths. -/
theorem printStringPtrTo_prints {depth : Nat} (h : p.Holds text depth) (input : CStr) :
    Returns (printStringPtrTo junk input p) (Prints text (printStringPtr input) depth p) := by
  have hlength := length_flatMap_printChar input.bytes
  have hout : (printStringPtr input).length = (input.bytes.flatMap printChar).length + 2 := by
    rw [printStringPtr, List.length_append, List.length_append, List.length_singleton]
    omega
  refine h.ensure_bind (by rw [strlen]; omega) fun p₁ _ h₁ hroom => ?_
  have hbuffer := h₁.sized.length_le
  rw [strlen] at hroom
  refine (p₁.store_returns _ (i := 0) h₁.isPrefix h₁.offset
    (by rw [List.length_singleton]; omega)).bind fun p₂ hp₂ => ?_
  have hnext : p₂.offset + 1 = (text ++ [0x22]).length := by
    rw [hp₂.offset, h₁.offset, List.length_append, List.length_singleton]
  have hfits : (text ++ [0x22]).length + (input.bytes.flatMap printChar).length
      < p₂.buffer.length := by
    rw [hp₂.size, List.length_append, List.length_singleton]
    omega
  refine (printCharactersTo_returns hp₂.isPrefix hnext hfits).bind fun p₃ hp₃ => ?_
  have hp₃ := hp₂.trans hp₃
  refine (p₃.store_returns [0x22, 0] hp₃.isPrefix ?_ ?_).bind fun p₄ hp₄ =>
    returns_ok ⟨p₄, rfl, ?_⟩
  · rw [hp₃.offset, h₁.offset, List.length_append, List.length_append, List.length_singleton,
      hlength, strlen]
    omega
  · rw [hp₃.size, List.length_append, List.length_append]
    simp only [List.length_cons, List.length_nil]
    omega
  · have hp₄ := hp₃.trans hp₄
    have htext : text ++ [0x22] ++ input.bytes.flatMap printChar ++ [0x22, 0]
        = text ++ printStringPtr input ++ [0] := by
      simp only [printStringPtr, List.append_assoc, List.cons_append, List.nil_append]
    rw [htext] at hp₄
    exact ⟨hp₄.like, hp₄.ended h₁ (by omega)⟩

/-! ### Arrays and objects -/

/-- Nothing is printed. -/
theorem PrintBuffer.Holds.adds_nothing {depth : Nat} (h : p.Holds text depth) :
    Adds text [] depth p (some p) := by
  refine outcome_some (.refl p) ?_
  rw [List.append_nil]
  exact h

/-- **Separators**: a function that stores `out`, with or without a NUL, and moves behind it. -/
theorem PrintBuffer.Holds.adds {depth needed : Nat} (nul : List UInt8) (h : p.Holds text depth)
    (hneeded : out.length ≤ needed ∧ needed ≤ out.length + 1)
    (hfits : (out ++ nul).length ≤ needed + 1) {bytes : PrintBuffer → List UInt8}
    {n : PrintBuffer → Nat} (hn : ∀ p', p'.depth = depth → n p' = out.length)
    (hbytes : ∀ p', p.Like p' → p'.depth = depth → bytes p' = out ++ nul) :
    Returns (match Wee.ensure junk p needed with
      | some p => do
        let p' ← p.store 0 (bytes p)
        return some { p' with offset := p'.offset + n p' }
      | _ => pure none) (Adds text out depth p) := by
  refine h.ensure_bind (by omega) fun p₁ hlike h₁ hroom₁ => ?_
  have hbuffer := h₁.sized.length_le
  rw [hbytes p₁ hlike h₁.depth]
  refine (p₁.store_returns _ (i := 0) h₁.isPrefix h₁.offset (by omega)).bind fun p₂ hp₂ =>
    returns_ok ⟨_, rfl, ?_⟩
  refine hp₂.holds h₁ ?_ (hn p₂ (hp₂.depth.trans h₁.depth)) (by omega)
  rw [← List.append_assoc]
  exact List.prefix_append _ _

/-- The comma between two items. -/
theorem printCommaTo_adds {depth : Nat} (h : p.Holds text depth) (hformat : p.format = format)
    (more : Bool) :
    Returns (printCommaTo junk more p) (Adds text (commaText format more) depth p) := by
  cases more with
  | false =>
    rw [printCommaTo, if_neg Bool.false_ne_true]
    exact returns_ok h.adds_nothing
  | true =>
    refine h.adds [0] ?_ ?_ (fun _ _ => ?_) fun p' hp' _ => ?_
    case refine_4 =>
      rw [hp'.format, hformat]
      rfl
    all_goals
      rw [hformat]
      cases format <;> decide

/-- The tabs in front of a name. -/
theorem printTabsTo_adds {depth : Nat} (h : p.Holds text depth) (hformat : p.format = format) :
    Returns (printTabsTo junk p) (Adds text (tabsText format depth) depth p) := by
  rw [printTabsTo, tabsText, hformat]
  split
  · have hlength : (List.replicate depth (0x09 : UInt8)).length = depth := List.length_replicate
    have hdepth := h.depth
    refine h.adds [] ?_ ?_ (fun p' hp' => ?_) fun p' _ hp' => ?_
    · omega
    · rw [List.append_nil]
      omega
    · rw [hlength, hp']
    · rw [hp', List.append_nil]
  · exact returns_ok h.adds_nothing

/-- The colon behind a name. -/
theorem printColonTo_adds {depth : Nat} (h : p.Holds text depth) (hformat : p.format = format) :
    Returns (printColonTo junk p) (Adds text (colonText format) depth p) := by
  refine h.adds [] ?_ ?_ (fun _ _ => ?_) fun p' hp' _ => ?_
  case refine_4 =>
    rw [hp'.format, hformat, List.append_nil]
    rfl
  all_goals
    rw [hformat]
    cases format <;> decide

/-- What stands behind a member. -/
theorem printMemberEndTo_adds {depth : Nat} (h : p.Holds text depth) (hformat : p.format = format)
    (more : Bool) :
    Returns (printMemberEndTo junk more p) (Adds text (memberEndText format more) depth p) := by
  refine h.adds [0] ?_ ?_ (fun _ _ => ?_) fun p' hp' _ => ?_
  case refine_4 =>
    rw [hp'.format, hformat]
    rfl
  all_goals
    rw [hformat]
    cases more <;> cases format <;> decide

/-- **Beginnings**: as separators, and one level deeper. -/
theorem PrintBuffer.Holds.opens {depth needed n : Nat} (h : p.Holds text depth)
    (hneeded : out.length ≤ needed ∧ needed ≤ out.length + 1) {bytes : PrintBuffer → List UInt8}
    (hn : n = out.length) (hbytes : ∀ p', p.Like p' → bytes p' = out) :
    Returns (match Wee.ensure junk p needed with
      | some p => do
        let p' ← p.store 0 (bytes p)
        return some { p' with offset := p'.offset + n, depth := p'.depth + 1 }
      | _ => pure none) (Adds text out (depth + 1) p) := by
  refine h.ensure_bind (by omega) fun p₁ hlike h₁ hroom₁ => ?_
  have hbuffer := h₁.sized.length_le
  rw [hbytes p₁ hlike]
  refine (p₁.store_returns _ (i := 0) h₁.isPrefix h₁.offset (by omega)).bind fun p₂ hp₂ =>
    returns_ok ⟨_, rfl, ?_⟩
  obtain ⟨hlike₂, hholds₂⟩ := hp₂.holds h₁ (List.prefix_refl _) hn (by omega)
  obtain ⟨hlike₃, hholds₃⟩ := hholds₂.open
  exact ⟨hlike₂.trans hlike₃, hholds₃⟩

/-- The beginning of an array. -/
theorem printArrayOpenTo_adds {depth : Nat} (h : p.Holds text depth) :
    Returns (printArrayOpenTo junk p) (Adds text [0x5B] (depth + 1) p) :=
  h.opens (by decide) rfl fun _ _ => rfl

/-- The beginning of an object. -/
theorem printObjectOpenTo_adds {depth : Nat} (h : p.Holds text depth) (hformat : p.format = format) :
    Returns (printObjectOpenTo junk p) (Adds text (objectOpenText format) (depth + 1) p) := by
  refine h.opens ?_ ?_ fun p' hp' => ?_
  case refine_3 =>
    rw [hp'.format, hformat]
    rfl
  all_goals
    rw [hformat]
    cases format <;> decide

/-- **Ends**: with a NUL, and one level less deep. -/
theorem PrintBuffer.Holds.closes {depth needed : Nat} (h : p.Holds text (depth + 1))
    (hneeded : needed = out.length + 1) {bytes : PrintBuffer → List UInt8}
    (hbytes : ∀ p', p.Like p' → p'.depth = depth + 1 → bytes p' = out ++ [0]) :
    Returns (match Wee.ensure junk p needed with
      | some p => do
        let p' ← p.store 0 (bytes p)
        return some { p' with depth := p'.depth - 1 }
      | _ => pure none) (Prints text out depth p) := by
  refine h.ensure_bind (by omega) fun p₁ hlike h₁ hroom₁ => ?_
  have hbuffer := h₁.sized.length_le
  rw [hbytes p₁ hlike h₁.depth]
  refine (p₁.store_returns _ (i := 0) h₁.isPrefix h₁.offset ?_).bind fun p₂ hp₂ =>
    returns_ok ⟨_, rfl, ?_⟩
  · rw [List.length_append, List.length_singleton]
    omega
  · rw [← List.append_assoc] at hp₂
    obtain ⟨hlike₃, hended⟩ := (hp₂.ended h₁ (by omega)).close
    exact ⟨hp₂.like.trans hlike₃, hended⟩

/-- The end of an array. -/
theorem printArrayCloseTo_prints {depth : Nat} (h : p.Holds text (depth + 1)) :
    Returns (printArrayCloseTo junk p) (Prints text [0x5D] depth p) := by
  refine h.closes ?_ fun p' hp' hdepth => ?_
  · rfl
  · rfl

/-- The end of an object. -/
theorem printObjectCloseTo_prints {depth : Nat} (h : p.Holds text (depth + 1))
    (hformat : p.format = format) :
    Returns (printObjectCloseTo junk p) (Prints text (tabsText format depth ++ [0x7D]) depth p) := by
  refine h.closes ?_ fun p' hp' hdepth => ?_
  · rw [h.depth, hformat]
    cases format
    · rfl
    · rw [tabsText, if_pos rfl, if_pos rfl, List.length_append, List.length_replicate,
        List.length_singleton]
  · rw [hp'.format, hformat, hdepth, Nat.add_sub_cancel, List.append_assoc]
    rfl

/-! ### Values -/

/-- The first part of a text has no NUL either. -/
theorem nulFree_left {out' : List UInt8} (h : 0 ∉ text ++ (out ++ out')) : 0 ∉ text ++ out := by
  rw [← List.append_assoc] at h
  exact fun hmem => h (List.mem_append_left out' hmem)

section Sequences

variable {S : PrintBuffer → List UInt8 → Nat → Prop} {x : Exec (Option PrintBuffer)}
  {f : PrintBuffer → Exec (Option PrintBuffer)} {out' : List UInt8} {depth depth' : Nat}

/-- What is printed in two parts. -/
theorem Leaves.append {p' : PrintBuffer} {r : Option PrintBuffer}
    (h : Leaves S (text ++ out) out' depth p' r) (hlike : p.Like p') :
    Leaves S text (out ++ out') depth p r := by
  have hlength : text.length + (out ++ out').length + 2 = (text ++ out).length + out'.length + 2 := by
    rw [List.length_append, List.length_append]
    omega
  refine ⟨fun p'' hp'' => ?_, fun hn => h.fits ?_⟩
  · obtain ⟨hlike', hS⟩ := h.succeeds p'' hp''
    rw [List.append_assoc] at hS
    exact ⟨hlike.trans hlike', hS⟩
  · rwa [hlike.limit, ← hlength]

/-- **One part, and then the rest**. -/
theorem Adds.bind (hnul : 0 ∉ text ++ (out ++ out')) (hx : Returns x (Adds text out depth p))
    (hf : ∀ p', p.Like p' → p'.Holds (text ++ out) depth → 0 ∉ text ++ out ++ out' →
      Returns (f p') (Leaves S (text ++ out) out' depth' p')) :
    Returns (x >>= fun r => match r with | some p => f p | _ => pure none)
      (Leaves S text (out ++ out') depth' p) := by
  rw [← List.append_assoc] at hnul
  obtain ⟨r, rfl, hr⟩ := hx
  cases r with
  | none =>
    refine returns_ok ⟨fun _ h => (nomatch h), fun hm => absurd rfl (hr.fits ?_)⟩
    rw [List.length_append] at hm
    omega
  | some p₁ =>
    obtain ⟨hlike, hholds⟩ := hr.succeeds p₁ rfl
    exact (hf p₁ hlike hholds hnul).imp fun r' hr' => hr'.append hlike

/-- **A value, and then the rest**: `update_offset` moves behind the value. -/
theorem Prints.bind (hnul : 0 ∉ text ++ (out ++ out')) (hx : Returns x (Prints text out depth p))
    (hf : ∀ p', p.Like p' → p'.Holds (text ++ out) depth → 0 ∉ text ++ out ++ out' →
      Returns (f p') (Leaves S (text ++ out) out' depth' p')) :
    Returns (x >>= fun r => match r with
      | some p => do
        let p ← Wee.updateOffset p
        f p
      | _ => pure none) (Leaves S text (out ++ out') depth' p) := by
  rw [← List.append_assoc] at hnul
  obtain ⟨r, rfl, hr⟩ := hx
  cases r with
  | none =>
    refine returns_ok ⟨fun _ h => (nomatch h), fun hm => absurd rfl (hr.fits ?_)⟩
    rw [List.length_append] at hm
    omega
  | some p₁ =>
    obtain ⟨hlike, hended⟩ := hr.succeeds p₁ rfl
    refine (hended.updateOffset fun h => hnul (List.mem_append_left out' h)).bind fun p₂ ⟨hholds, hlike'⟩ => ?_
    exact (hf p₂ (hlike.trans hlike') hholds hnul).imp fun r' hr' =>
      hr'.append (hlike.trans hlike')

end Sequences

mutual

/-- **Values**: the recursion is that of the printer. -/
theorem printValueTo_prints {printNumber : ν → CStr} (hnumber : ∀ d, strlen (printNumber d) ≤ 25) :
    ∀ (v : CjsonValue ν) {p : PrintBuffer} {text : List UInt8} {depth : Nat},
      p.Holds text depth → p.format = format → 0 ∉ text ++ renderValue format printNumber depth v →
      Returns (printValueTo junk printNumber v p)
        (Prints text (renderValue format printNumber depth v) depth p)
  | .null, p, text, depth, h, _, _ => by
    rw [renderValue]
    exact printWordTo_prints h _
  | .bool false, p, text, depth, h, _, _ => by
    rw [renderValue]
    exact printWordTo_prints h _
  | .bool true, p, text, depth, h, _, _ => by
    rw [renderValue]
    exact printWordTo_prints h _
  | .number valuedouble, p, text, depth, h, _, _ => by
    rw [renderValue]
    exact printNumberTo_prints h (hnumber valuedouble)
  | .string valuestring, p, text, depth, h, _, _ => by
    rw [renderValue]
    exact printStringPtrTo_prints h valuestring
  | .array child, p, text, depth, h, hformat, hnul => by
    rw [renderValue] at hnul ⊢
    rw [printValueTo]
    refine Adds.bind hnul (printArrayOpenTo_adds h) fun p₁ hlike₁ h₁ hnul => ?_
    refine Adds.bind hnul ?_ fun p₂ _ h₂ _ => printArrayCloseTo_prints h₂
    exact printArrayTo_adds hnumber child h₁ (hlike₁.format.trans hformat) (nulFree_left hnul)
  | .object child, p, text, depth, h, hformat, hnul => by
    rw [renderValue] at hnul ⊢
    rw [printValueTo]
    refine Adds.bind hnul (printObjectOpenTo_adds h hformat) fun p₁ hlike₁ h₁ hnul => ?_
    have hformat := hlike₁.format.trans hformat
    refine Adds.bind hnul ?_ fun p₂ hlike₂ h₂ _ =>
      printObjectCloseTo_prints h₂ (hlike₂.format.trans hformat)
    exact printObjectTo_adds hnumber child h₁ hformat (nulFree_left hnul)

/-- The loop of `print_array`. -/
theorem printArrayTo_adds {printNumber : ν → CStr} (hnumber : ∀ d, strlen (printNumber d) ≤ 25) :
    ∀ (items : List (CjsonValue ν)) {p : PrintBuffer} {text : List UInt8} {depth : Nat},
      p.Holds text depth → p.format = format →
      0 ∉ text ++ renderArray format printNumber depth items →
      Returns (printArrayTo junk printNumber items p)
        (Adds text (renderArray format printNumber depth items) depth p)
  | [], p, text, depth, h, _, _ => by
    rw [renderArray]
    exact returns_ok h.adds_nothing
  | item :: next, p, text, depth, h, hformat, hnul => by
    rw [renderArray] at hnul ⊢
    rw [printArrayTo]
    refine Prints.bind hnul (printValueTo_prints hnumber item h hformat (nulFree_left hnul))
      fun p₁ hlike₁ h₁ hnul => ?_
    have hformat := hlike₁.format.trans hformat
    refine Adds.bind hnul (printCommaTo_adds h₁ hformat _) fun p₂ hlike₂ h₂ hnul => ?_
    exact printArrayTo_adds hnumber next h₂ (hlike₂.format.trans hformat) hnul

/-- The loop of `print_object`. -/
theorem printObjectTo_adds {printNumber : ν → CStr} (hnumber : ∀ d, strlen (printNumber d) ≤ 25) :
    ∀ (members : List (CStr × CjsonValue ν)) {p : PrintBuffer} {text : List UInt8} {depth : Nat},
      p.Holds text depth → p.format = format →
      0 ∉ text ++ renderObject format printNumber depth members →
      Returns (printObjectTo junk printNumber members p)
        (Adds text (renderObject format printNumber depth members) depth p)
  | [], p, text, depth, h, _, _ => by
    rw [renderObject]
    exact returns_ok h.adds_nothing
  | (string, item) :: next, p, text, depth, h, hformat, hnul => by
    rw [renderObject] at hnul ⊢
    rw [printObjectTo]
    refine Adds.bind hnul (printTabsTo_adds h hformat) fun p₁ hlike₁ h₁ hnul => ?_
    have hformat := hlike₁.format.trans hformat
    refine Prints.bind hnul (printStringPtrTo_prints h₁ string) fun p₂ hlike₂ h₂ hnul => ?_
    have hformat := hlike₂.format.trans hformat
    refine Adds.bind hnul (printColonTo_adds h₂ hformat) fun p₃ hlike₃ h₃ hnul => ?_
    have hformat := hlike₃.format.trans hformat
    refine Prints.bind hnul (printValueTo_prints hnumber item h₃ hformat (nulFree_left hnul))
      fun p₄ hlike₄ h₄ hnul => ?_
    have hformat := hlike₄.format.trans hformat
    refine Adds.bind hnul (printMemberEndTo_adds h₄ hformat _) fun p₅ hlike₅ h₅ hnul => ?_
    exact printObjectTo_adds hnumber next h₅ (hlike₅.format.trans hformat) hnul

end

/-! ### Texts that are returned -/

/-- What a function that prints `out` returns, if the block may have `limit` bytes. -/
structure PrintResult (out : List UInt8) (limit : Nat) (r : Option (List UInt8)) : Prop where
  /-- The block begins with the text and its NUL. -/
  text : ∀ block, r = some block → out ++ [0] <+: block
  /-- A text that leaves one byte to spare is printed. -/
  fits : out.length + 2 ≤ limit → r ≠ none

/-- **A value in a new buffer**, and what is made of the buffer then. -/
theorem printValueTo_result {printNumber : ν → CStr} (hnumber : ∀ d, strlen (printNumber d) ≤ 25)
    (item : CjsonValue ν) {f : PrintBuffer → Exec (Option (List UInt8))} (hsized : p.Sized)
    (hoffset : p.offset = 0) (hdepth : p.depth = 0) (hformat : p.format = format)
    {Q : List UInt8 → Prop}
    (hf : ∀ p', p.Like p' → p'.Ended (renderValue format printNumber 0 item) 0 →
      Returns (f p') fun r => ∃ block, r = some block
        ∧ renderValue format printNumber 0 item ++ [0] <+: block ∧ Q block) :
    Returns (printValueTo junk printNumber item p >>= fun r => match r with
      | some p => f p
      | _ => pure none) fun r =>
        PrintResult (renderValue format printNumber 0 item) p.limit r ∧ ∀ block, r = some block → Q block := by
  have h : p.Holds [] 0 := by
    refine ⟨hsized, List.nil_prefix, hoffset, ?_, hdepth⟩
    omega
  refine (printValueTo_prints hnumber item h hformat
    (renderValue_nulFree format printNumber 0 item)).bind fun r hr => ?_
  cases r with
  | none =>
    refine returns_ok ⟨⟨fun _ h => (nomatch h), fun hm => absurd rfl (hr.fits ?_)⟩,
      fun _ h => nomatch h⟩
    rwa [List.length_nil, Nat.zero_add]
  | some p₁ =>
    obtain ⟨hlike, hended⟩ := hr.succeeds p₁ rfl
    refine (hf p₁ hlike hended).imp ?_
    rintro _ ⟨block, rfl, htext, hQ⟩
    refine ⟨⟨fun block' h => ?_, fun _ h => nomatch h⟩, fun block' h => ?_⟩
    · exact Option.some.inj h ▸ htext
    · exact Option.some.inj h ▸ hQ

/-- **`cJSON_Print`** and **`cJSON_PrintUnformatted`** stay in their block, whatever it has held, and
return the text of the value: they refuse only a text that is too long for an `int`. -/
theorem cjsonPrint_text (junk : Nat → UInt8) {printNumber : ν → CStr}
    (hnumber : ∀ d, strlen (printNumber d) ≤ 25) (item : CjsonValue ν) (format : Bool) :
    Returns (cjsonPrint junk printNumber item format)
      (PrintResult (renderValue format printNumber 0 item) cIntMax) := by
  refine (printValueTo_result (Q := fun _ => True) hnumber item ⟨Nat.zero_le _, Nat.zero_le _⟩ rfl
    rfl rfl fun p₁ _ hended => ?_).imp fun r hr => hr.1
  have hnul := renderValue_nulFree format printNumber 0 item
  refine (exec_bind_of_eq (hended.updateOffset_eq hnul) rfl) ▸ returns_ok ⟨_, rfl, ?_, trivial⟩
  refine prefix_memRealloc hended.isPrefix junk ?_
  rw [List.length_append, List.length_singleton]
  exact hended.room

/-- **`cJSON_PrintBuffered`** returns the same text, however large the first block is. -/
theorem cjsonPrintBuffered_text (junk : Nat → UInt8) {printNumber : ν → CStr}
    (hnumber : ∀ d, strlen (printNumber d) ≤ 25) (item : CjsonValue ν) {prebuffer : Nat}
    (hprebuffer : prebuffer ≤ cIntMax) (fmt : Bool) :
    Returns (cjsonPrintBuffered junk printNumber item prebuffer fmt)
      (PrintResult (renderValue fmt printNumber 0 item) cIntMax) := by
  rw [cjsonPrintBuffered, if_neg (Int.not_lt.mpr (Int.natCast_nonneg _))]
  refine (printValueTo_result (Q := fun _ => True) hnumber item ⟨?_, hprebuffer⟩ rfl rfl rfl
    fun p₁ _ hended => returns_ok ⟨_, rfl, hended.isPrefix, trivial⟩).imp fun r hr => hr.1
  rw [List.length_map, List.length_range]

/-- **`cJSON_PrintPreallocated`** stays in the block that it is given, leaves the text in it if it
returns `true`, and does so if the block has two bytes more than the text. -/
theorem cjsonPrintPreallocated_text (junk : Nat → UInt8) {printNumber : ν → CStr}
    (hnumber : ∀ d, strlen (printNumber d) ≤ 25) (item : CjsonValue ν) {buf : List UInt8}
    (hbuf : buf.length ≤ cIntMax) (fmt : Bool) :
    Returns (cjsonPrintPreallocated junk printNumber item buf buf.length fmt) fun r =>
      PrintResult (renderValue fmt printNumber 0 item) buf.length r
        ∧ ∀ block, r = some block → block.length = buf.length := by
  rw [cjsonPrintPreallocated, if_neg (Int.not_lt.mpr (Int.natCast_nonneg _))]
  exact printValueTo_result hnumber item ⟨Nat.le_refl _, hbuf⟩ rfl rfl rfl
    fun p₁ hlike hended => returns_ok ⟨_, rfl, hended.isPrefix, hlike.size rfl⟩

/-- **The printers agree**: on every value, and whatever their blocks have held, `cJSON_Print` and
`cJSON_PrintUnformatted`, `cJSON_PrintBuffered` and `cJSON_PrintPreallocated` stay in their block and
leave one and the same text. They fail only if it does not leave one byte to spare. -/
theorem cjson_printers (junk : Nat → UInt8) {printNumber : ν → CStr}
    (hnumber : ∀ d, strlen (printNumber d) ≤ 25) (item : CjsonValue ν) (format : Bool) :
    Returns (cjsonPrint junk printNumber item format)
        (PrintResult (renderValue format printNumber 0 item) cIntMax)
      ∧ (∀ prebuffer ≤ cIntMax, Returns (cjsonPrintBuffered junk printNumber item prebuffer format)
        (PrintResult (renderValue format printNumber 0 item) cIntMax))
      ∧ ∀ buf : List UInt8, buf.length ≤ cIntMax →
        Returns (cjsonPrintPreallocated junk printNumber item buf buf.length format) fun r =>
          PrintResult (renderValue format printNumber 0 item) buf.length r
            ∧ ∀ block, r = some block → block.length = buf.length :=
  ⟨cjsonPrint_text junk hnumber item format,
    fun _ hprebuffer => cjsonPrintBuffered_text junk hnumber item hprebuffer format,
    fun _ hbuf => cjsonPrintPreallocated_text junk hnumber item hbuf format⟩

/-- One digit, as `print_number` writes it. -/
def printDigit (d : Fin 10) : CStr where
  bytes := [0x30 + UInt8.ofNat d]
  nulFree := by revert d; decide

/-- The printers on the object `{"a": [1, 2]}`. -/
theorem cjson_printers_one :
    let item : CjsonValue (Fin 10) := .object [(⟨[0x61], by decide⟩, .array [.number 1, .number 2])]
    Returns (cjsonPrint (fun _ => 0xFF) printDigit item true)
        (PrintResult (renderValue true printDigit 0 item) cIntMax)
      ∧ (∀ prebuffer ≤ cIntMax,
        Returns (cjsonPrintBuffered (fun _ => 0xFF) printDigit item prebuffer true)
          (PrintResult (renderValue true printDigit 0 item) cIntMax))
      ∧ ∀ buf : List UInt8, buf.length ≤ cIntMax →
        Returns (cjsonPrintPreallocated (fun _ => 0xFF) printDigit item buf buf.length true) fun r =>
          PrintResult (renderValue true printDigit 0 item) buf.length r
            ∧ ∀ block, r = some block → block.length = buf.length :=
  cjson_printers _ (by decide) _ true

end Wee
